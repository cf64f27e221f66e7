/-!
# The clock

Time is a number of seconds.  It passes when somebody waits; reading the clock may take time, too.
-/

namespace DronePilot

/-- A clock: the present time, and how long reading it takes. -/
structure Clock where
  now : Float := 1000
  drift : Float := 0

/-- The time that a reading gives. -/
def Clock.reading (c : Clock) : Float := c.now

/-- The clock after a reading. -/
def Clock.afterReading (c : Clock) : Clock :=
  { c with now := c.now + c.drift }

/-- The clock some seconds later. -/
def Clock.pass (c : Clock) (seconds : Float) : Clock :=
  { c with now := c.now + seconds }

end DronePilot
