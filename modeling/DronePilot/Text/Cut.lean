/-!
# Cutting text

Splitting a text at every occurrence of a character, looking for a first occurrence, and replacing
every occurrence of a fragment.  The pieces of a split, joined again by the separator, are the
text; a piece of a text that holds the separator is shorter than the text.
-/

namespace DronePilot.Text

/-- The pieces between the occurrences of a separator; there is one more piece than separators. -/
def pieces (sep : Char) : List Char → List (List Char)
  | [] => [[]]
  | c :: cs =>
    if c = sep then [] :: pieces sep cs
    else
      match pieces sep cs with
      | [] => [[c]]
      | first :: rest => (c :: first) :: rest

/-- The pieces joined by the separator. -/
def glue (sep : Char) : List (List Char) → List Char
  | [] => []
  | [piece] => piece
  | piece :: rest => piece ++ sep :: glue sep rest

theorem pieces_ne_nil (sep : Char) (s : List Char) : pieces sep s ≠ [] := by
  cases s with
  | nil => simp [pieces]
  | cons c cs =>
    rw [pieces]
    split
    · simp
    · split <;> simp

/-- Splitting loses nothing: the pieces joined again are the text. -/
theorem glue_pieces (sep : Char) (s : List Char) : glue sep (pieces sep s) = s := by
  induction s with
  | nil => rfl
  | cons c cs ih =>
    rw [pieces]
    split
    · rename_i h
      cases hp : pieces sep cs with
      | nil => exact absurd hp (pieces_ne_nil sep cs)
      | cons first rest => rw [hp] at ih; simp [glue, ih, h]
    · cases hp : pieces sep cs with
      | nil => exact absurd hp (pieces_ne_nil sep cs)
      | cons first rest =>
        rw [hp] at ih
        cases rest with
        | nil => simp only [glue] at ih ⊢; rw [ih]
        | cons _ _ => simp only [glue, List.cons_append] at ih ⊢; rw [ih]

theorem length_le_of_mem_pieces {sep : Char} {s piece : List Char} (h : piece ∈ pieces sep s) :
    piece.length ≤ s.length := by
  induction s generalizing piece with
  | nil => simp [pieces] at h; simp [h]
  | cons c cs ih =>
    rw [pieces] at h
    split at h
    · rcases List.mem_cons.mp h with rfl | h
      · simp
      · have := ih h; simp; omega
    · cases hp : pieces sep cs with
      | nil => rw [hp] at h; simp at h; simp [h]
      | cons first rest =>
        rw [hp] at h ih
        rcases List.mem_cons.mp h with rfl | h
        · have := ih (List.mem_cons_self); simp; omega
        · have := ih (List.mem_cons_of_mem _ h); simp; omega

/-- A piece of a text that holds the separator is shorter than the text. -/
theorem length_lt_of_mem_pieces {sep : Char} {s piece : List Char} (hs : sep ∈ s)
    (h : piece ∈ pieces sep s) : piece.length < s.length := by
  induction s generalizing piece with
  | nil => simp at hs
  | cons c cs ih =>
    rw [pieces] at h
    split at h
    · rcases List.mem_cons.mp h with rfl | h
      · simp
      · have := length_le_of_mem_pieces h; simp; omega
    · rename_i hc
      have hs : sep ∈ cs := by
        rcases List.mem_cons.mp hs with rfl | hs
        · exact absurd rfl hc
        · exact hs
      cases hp : pieces sep cs with
      | nil => exact absurd hp (pieces_ne_nil sep cs)
      | cons first rest =>
        rw [hp] at h ih
        rcases List.mem_cons.mp h with rfl | h
        · have := ih hs List.mem_cons_self; simp; omega
        · have := ih hs (List.mem_cons_of_mem _ h); simp; omega

/-- The text before the first occurrence of a separator and the text after it. -/
def cutAt? (sep : Char) : List Char → Option (List Char × List Char)
  | [] => none
  | c :: cs =>
    if c = sep then some ([], cs) else (cutAt? sep cs).map fun (a, b) => (c :: a, b)

/-- Drops the first occurrence of a character, if there is one. -/
def dropFirst (x : Char) : List Char → List Char
  | [] => []
  | c :: cs => if c = x then cs else c :: dropFirst x cs

/-- Replacement with `skip` characters of the last match still to be passed over. -/
def replaceFrom (fragment by_ : List Char) : Nat → List Char → List Char
  | _, [] => []
  | skip + 1, _ :: cs => replaceFrom fragment by_ skip cs
  | 0, c :: cs =>
    if fragment.isPrefixOf (c :: cs) then by_ ++ replaceFrom fragment by_ (fragment.length - 1) cs
    else c :: replaceFrom fragment by_ 0 cs

/-- Replaces the occurrences of a non-empty fragment, from left to right and without overlap. -/
def replaceAll (fragment by_ s : List Char) : List Char :=
  replaceFrom fragment by_ 0 s

end DronePilot.Text
