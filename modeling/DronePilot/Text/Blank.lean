/-!
# White space

Which characters count as white space, and how text is trimmed.  Two sets are in use: names,
arguments and expressions are trimmed of every blank, while the number grammars know a smaller set
of ASCII blanks.
-/

namespace DronePilot.Text

/-- White space of every script, with the ASCII information separators. -/
def isBlank (c : Char) : Bool :=
  let n := c.toNat
  (9 ≤ n && n ≤ 13) || (28 ≤ n && n ≤ 32) || n == 0x85 || n == 0xa0 || n == 0x1680 ||
    (0x2000 ≤ n && n ≤ 0x200a) || n == 0x2028 || n == 0x2029 || n == 0x202f || n == 0x205f ||
    n == 0x3000

/-- The six ASCII blanks that may stand around a numeral. -/
def isAsciiBlank (c : Char) : Bool :=
  let n := c.toNat
  (9 ≤ n && n ≤ 13) || n == 32

/-- Removes the longest run of characters with the property from both ends. -/
def trimWhere (p : Char → Bool) (s : List Char) : List Char :=
  ((s.dropWhile p).reverse.dropWhile p).reverse

/-- Removes white space from both ends. -/
def trim (s : List Char) : List Char :=
  trimWhere isBlank s

/-- Quotation marks of either kind. -/
def isQuoteMark (c : Char) : Bool :=
  c == '\'' || c == '"'

theorem length_dropWhile_le (p : Char → Bool) (s : List Char) :
    (s.dropWhile p).length ≤ s.length :=
  (List.dropWhile_suffix p).length_le

/-- Trimming never lengthens a text. -/
theorem length_trimWhere_le (p : Char → Bool) (s : List Char) :
    (trimWhere p s).length ≤ s.length := by
  have h₁ := length_dropWhile_le p (s.dropWhile p).reverse
  have h₂ := length_dropWhile_le p s
  simp only [trimWhere, List.length_reverse] at *
  omega

theorem length_trim_le (s : List Char) : (trim s).length ≤ s.length :=
  length_trimWhere_le isBlank s

end DronePilot.Text
