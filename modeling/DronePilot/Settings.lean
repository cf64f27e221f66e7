import DronePilot.Text.Cut

/-!
# Settings

Where the services are is read from variables of the environment, each with a default.  A list of
ports has commas between them; what stands between the commas is taken as it is, blanks included.
-/

namespace DronePilot

/-- The variables that are set. -/
abbrev Environment := List (String × String)

namespace Settings

open DronePilot.Text

/-- A variable, or its default if it is not set. -/
def get (env : Environment) (name default : String) : String :=
  (env.lookup name).getD default

/-- The ports in a list of ports. -/
def splitPorts (ports : String) : List String :=
  (pieces ',' ports.toList).map String.ofList

/-- The host that a client finds the detection service on. -/
def visionHost (env : Environment) : String := get env "VISION_SERVICE_IP" "localhost"

/-- The port of the detection service that a client uses: the first of several. -/
def detectorPort (env : Environment) : String :=
  (splitPorts (get env "YOLO_SERVICE_PORT" "50050")).headD ""

/-- The port of the router. -/
def routerPort (env : Environment) : String := get env "ROUTER_SERVICE_PORT" "50049"

/-- The host on which the router finds the detection services. -/
def serviceHost (env : Environment) : String := get env "VISION_SERVICE_IPS" "localhost"

/-- The ports of the detection services, in one text. -/
def servicePortList (env : Environment) : String := get env "YOLO_SERVICE_PORT" "50050, 50051"

/-- The ports of the detection services. -/
def servicePorts (env : Environment) : List String := splitPorts (servicePortList env)

/-- Whether a host is this computer. -/
def isLocal (host : String) : Bool := host == "localhost"

/-- A host and a port. -/
def address (host port : String) : String := host ++ ":" ++ port

/-- The address of the detection service for a client that calls it directly. -/
def directAddress (env : Environment) : String := address (visionHost env) (detectorPort env)

/-- The address of the router for a client that goes through the web. -/
def webAddress (env : Environment) : String :=
  "http://" ++ address (visionHost env) (routerPort env) ++ "/yolo"

end Settings

end DronePilot
