import DronePilot.Skill.Basic

/-!
# Placeholders

What is meant by a composed skill is that all its placeholders are replaced at once by the arguments
given for them, each placeholder being read with all of its digits.  What is done is to replace one
placeholder after the other, as a text, in the result of the replacement before.

* `bits` — a definition as characters and placeholders; `filled` replaces these at once.
* `replaceAll_fill` — replacing the text of a placeholder with one digit replaces that placeholder
  and nothing else, as long as no dollar sign gets before such a digit by accident.
* `pasteFrom_filled` — so nine arguments without dollar signs can be pasted one after the other.
-/

namespace DronePilot.Skill

open DronePilot.Text

/-! ### Reading placeholders -/

/-- A part of a definition: a character, or a placeholder with all the digits that follow its
dollar sign. -/
inductive Bit where
  | plain (c : Char)
  | hole (digits : List Char)
deriving DecidableEq

/-- The text of a part, placeholders being given by their digits. -/
def Bit.fill (f : List Char → List Char) : Bit → List Char
  | plain c => [c]
  | hole digits => f digits

/-- The digits at the front, and what follows them. -/
def takeDigits : List Bit → List Char × List Bit
  | .plain c :: rest =>
    if c.isDigit then (c :: (takeDigits rest).1, (takeDigits rest).2) else ([], .plain c :: rest)
  | bits => ([], bits)

/-- The parts of a definition. -/
def bits : List Char → List Bit
  | [] => []
  | c :: cs =>
    if c = '$' then
      match takeDigits (bits cs) with
      | ([], _) => .plain '$' :: bits cs
      | (d :: ds, rest) => .hole (d :: ds) :: rest
    else .plain c :: bits cs

/-- The digits of a number. -/
def digitsOf (k : Nat) : List Char := (toString k).toList

/-- The placeholders of a definition are `$1` to `$n`, all of them. -/
structure Numbered (n : Nat) (definition : List Char) : Prop where
  all : ∀ k, 1 ≤ k → k ≤ n → Bit.hole (digitsOf k) ∈ bits definition
  only : ∀ digits, Bit.hole digits ∈ bits definition → ∃ k, 1 ≤ k ∧ k ≤ n ∧ digits = digitsOf k

/-- Whether a part is a character or one of the placeholders `$1` to `$n`. -/
def Bit.isAmong (n : Nat) : Bit → Bool
  | plain _ => true
  | hole digits => (List.range n).any fun i => digitsOf (i + 1) == digits

instance (n : Nat) (definition : List Char) : Decidable (Numbered n definition) :=
  decidable_of_iff ((∀ i < n, Bit.hole (digitsOf (i + 1)) ∈ bits definition) ∧
      ∀ b ∈ bits definition, b.isAmong n = true) <| by
    constructor
    · rintro ⟨hall, honly⟩
      refine ⟨fun k hone hk => ?_, fun ds hds => ?_⟩
      · obtain ⟨i, rfl⟩ : ∃ i, k = i + 1 := ⟨k - 1, by omega⟩
        exact hall i (by omega)
      · obtain ⟨i, hi, hdigits⟩ := List.any_eq_true.mp (honly _ hds)
        exact ⟨i + 1, by omega, List.mem_range.mp hi, (eq_of_beq hdigits).symm⟩
    · intro h
      refine ⟨fun i hi => h.all (i + 1) (by omega) (by omega), fun b hb => ?_⟩
      cases b with
      | plain c => rfl
      | hole ds =>
          obtain ⟨k, hone, hk, rfl⟩ := h.only ds hb
          refine List.any_eq_true.mpr ⟨k - 1, List.mem_range.mpr (by omega), ?_⟩
          rw [Nat.sub_add_cancel hone]
          exact beq_self_eq_true _

/-- The argument with a number, the first of the arguments having the given number. -/
def argumentFor (digits : List Char) : Nat → List String → Option String
  | _, [] => none
  | n, a :: rest => if digitsOf n = digits then some a else argumentFor digits (n + 1) rest

/-- What a placeholder is replaced by. -/
def substitute (arguments : List String) (digits : List Char) : List Char :=
  ((argumentFor digits 1 arguments).map String.toList).getD ('$' :: digits)

/-- A definition with all placeholders replaced at once. -/
def filled (arguments : List String) (definition : List Char) : List Char :=
  (bits definition).flatMap (Bit.fill (substitute arguments))

/-- Taking the digits off changes nothing when the rest is filled. -/
theorem fill_takeDigits (f : List Char → List Char) (bs : List Bit) :
    (takeDigits bs).1 ++ (takeDigits bs).2.flatMap (Bit.fill f) = bs.flatMap (Bit.fill f) := by
  induction bs with
  | nil => rfl
  | cons b rest ih =>
      cases b with
      | hole digits => rfl
      | plain c =>
          rw [takeDigits]
          split
          · simp only [List.cons_append, ih, List.flatMap_cons, Bit.fill, List.nil_append]
          · rfl

/-- The parts together are the definition. -/
theorem text_bits (s : List Char) : (bits s).flatMap (Bit.fill ('$' :: ·)) = s := by
  induction s with
  | nil => rfl
  | cons c cs ih =>
      rw [bits]
      split
      · rename_i hc
        subst hc
        have htake := fill_takeDigits ('$' :: ·) (bits cs)
        rw [ih] at htake
        split
        · rw [List.flatMap_cons, ih]
          rfl
        · rename_i d ds rest hdigits
          rw [hdigits] at htake
          rw [List.flatMap_cons, ← htake]
          rfl
      · rw [List.flatMap_cons, ih]
        rfl

/-- No digit follows a dollar sign that is not that of a placeholder. -/
def Parted : List Bit → Prop
  | [] => True
  | .plain c :: rest =>
    (c = '$' → ∀ d, rest.head? = some (.plain d) → d.isDigit = false) ∧ Parted rest
  | .hole _ :: rest => Parted rest

/-- What is left when the digits are taken off is parted still. -/
theorem Parted.takeDigits {bs : List Bit} (h : Parted bs) : Parted (takeDigits bs).2 := by
  induction bs with
  | nil => exact h
  | cons b rest ih =>
      cases b with
      | hole digits => exact h
      | plain c =>
          rw [Skill.takeDigits]
          split
          · exact ih h.2
          · exact h

/-- Where no digits are taken, none is in front. -/
theorem isDigit_of_takeDigits_nil {bs : List Bit} (h : (takeDigits bs).1 = []) {d : Char}
    (hd : bs.head? = some (.plain d)) : d.isDigit = false := by
  cases bs with
  | nil => cases hd
  | cons b rest =>
      cases hd
      rw [takeDigits] at h
      split at h
      · cases h
      · rename_i hdigit
        exact Bool.eq_false_iff.mpr hdigit

/-- The bits of a text are parted, since a dollar sign before a digit makes a placeholder. -/
theorem bits_parted (s : List Char) : Parted (bits s) := by
  induction s with
  | nil => exact trivial
  | cons c cs ih =>
      rw [bits]
      split
      · have htake := ih.takeDigits
        split
        · rename_i hnone
          refine ⟨fun _ d hd => ?_, ih⟩
          exact isDigit_of_takeDigits_nil (by rw [hnone]) hd
        · rename_i d ds rest hdigits
          rw [hdigits] at htake
          exact htake
      · rename_i hc
        exact ⟨fun h => absurd h hc, ih⟩

/-! ### Replacing a placeholder of one digit -/

section

variable {c : Char} {by_ : List Char}

/-- A placeholder is replaced where it stands. -/
theorem replaceAll_hit (c : Char) (by_ cs : List Char) :
    replaceAll ['$', c] by_ ('$' :: c :: cs) = by_ ++ replaceAll ['$', c] by_ cs := by
  simp [replaceAll, replaceFrom, List.isPrefixOf]

/-- Any other character than a dollar sign stays. -/
theorem replaceAll_other {x : Char} (h : x ≠ '$') (cs : List Char) :
    replaceAll ['$', c] by_ (x :: cs) = x :: replaceAll ['$', c] by_ cs := by
  simp [replaceAll, replaceFrom, List.isPrefixOf, Ne.symm h]

/-- So does a dollar sign with another digit behind it. -/
theorem replaceAll_dollar {cs : List Char} (h : cs.head? ≠ some c) :
    replaceAll ['$', c] by_ ('$' :: cs) = '$' :: replaceAll ['$', c] by_ cs := by
  cases cs with
  | nil => simp [replaceAll, replaceFrom, List.isPrefixOf]
  | cons d ds =>
      have hne : c ≠ d := by simpa [eq_comm] using h
      simp [replaceAll, replaceFrom, List.isPrefixOf, hne]

/-- So does all that has no dollar sign in it. -/
theorem replaceAll_append {front : List Char} (h : '$' ∉ front) (cs : List Char) :
    replaceAll ['$', c] by_ (front ++ cs) = front ++ replaceAll ['$', c] by_ cs := by
  induction front with
  | nil => rfl
  | cons x rest ih =>
      obtain ⟨hx, hrest⟩ := not_or.mp (mt List.mem_cons.mpr h)
      rw [List.cons_append, replaceAll_other (Ne.symm hx), ih hrest, List.cons_append]

end

/-- After the placeholders are filled in, no dollar sign of the definition is followed by the
character. -/
def Clear (c : Char) (f : List Char → List Char) : List Bit → Prop
  | [] => True
  | .plain x :: rest =>
    (x = '$' → (rest.flatMap (Bit.fill f)).head? ≠ some c) ∧ Clear c f rest
  | .hole _ :: rest => Clear c f rest

/-- Replacing a placeholder of one digit replaces exactly the parts that are that placeholder, if
the others are of one digit too or have been filled in without dollar signs. -/
theorem replaceAll_fill {bs : List Bit} {f : List Char → List Char} {c : Char} (hc : c ≠ '$')
    (by_ : List Char)
    (hholes : ∀ ds, Bit.hole ds ∈ bs →
      (∃ e, ds = [e] ∧ e ≠ '$' ∧ f ds = ['$', e]) ∨ ds ≠ [c] ∧ '$' ∉ f ds)
    (hclear : Clear c f bs) :
    replaceAll ['$', c] by_ (bs.flatMap (Bit.fill f)) =
      bs.flatMap (Bit.fill fun ds => if ds = [c] then by_ else f ds) := by
  induction bs with
  | nil => rfl
  | cons b rest ih =>
      have hrest := fun ds hds => hholes ds (List.mem_cons_of_mem _ hds)
      rw [List.flatMap_cons, List.flatMap_cons]
      cases b with
      | plain x =>
          rw [← ih hrest hclear.2]
          by_cases hx : x = '$'
          · subst hx
            exact replaceAll_dollar (hclear.1 rfl)
          · exact replaceAll_other hx _
      | hole ds =>
          rw [← ih hrest hclear]
          simp only [Bit.fill]
          rcases hholes ds List.mem_cons_self with ⟨e, rfl, he, hf⟩ | ⟨hds, hf⟩
          · by_cases hec : e = c
            · subst hec
              rw [hf, if_pos rfl]
              exact replaceAll_hit e by_ _
            · have hhead : (e :: rest.flatMap (Bit.fill f)).head? ≠ some c := by simpa using hec
              rw [hf, if_neg (by simpa using hec)]
              exact (replaceAll_dollar hhead).trans (congrArg ('$' :: ·) (replaceAll_other he _))
          · rw [if_neg hds]
            exact replaceAll_append hf _

/-- A digit follows no dollar sign of the definition itself. -/
theorem Parted.clear {bs : List Bit} (h : Parted bs) {c : Char} (hc : c.isDigit = true) :
    Clear c ('$' :: ·) bs := by
  induction bs with
  | nil => trivial
  | cons b rest ih =>
      cases b with
      | hole ds => exact ih h
      | plain x =>
          refine ⟨fun hx hhead => ?_, ih h.2⟩
          cases rest with
          | nil => cases hhead
          | cons b' more =>
              cases b' with
              | plain d =>
                  cases hhead
                  rw [h.1 hx c rfl] at hc
                  cases hc
              | hole ds =>
                  cases hhead
                  revert hc
                  decide

/-- No dollar sign stands directly before a placeholder. -/
def Apart : List Bit → Prop
  | [] => True
  | .plain x :: rest => (x = '$' → ∀ ds, rest.head? ≠ some (.hole ds)) ∧ Apart rest
  | .hole _ :: rest => Apart rest

/-- If no dollar sign stands before a placeholder, then a digit follows none however the
placeholders are filled in. -/
theorem Apart.clear {bs : List Bit} (h : Apart bs) (hparted : Parted bs) {c : Char}
    (hc : c.isDigit = true) (f : List Char → List Char) : Clear c f bs := by
  induction bs with
  | nil => trivial
  | cons b rest ih =>
      cases b with
      | hole ds => exact ih h hparted
      | plain x =>
          refine ⟨fun hx hhead => ?_, ih h.2 hparted.2⟩
          cases rest with
          | nil => cases hhead
          | cons b' more =>
              cases b' with
              | plain d =>
                  cases hhead
                  rw [hparted.1 hx c rfl] at hc
                  cases hc
              | hole ds => exact h.1 hx ds rfl

/-! ### Pasting one argument after the other -/

/-- Up to nine, a number has one digit. -/
theorem digitsOf_single : ∀ k ≤ 9, digitsOf k = [Nat.digitChar k] ∧
    (Nat.digitChar k).isDigit = true ∧ Nat.digitChar k ≠ '$' := by
  decide

/-- Up to nine, numbers have different digits. -/
theorem digitsOf_inj : ∀ i ≤ 9, ∀ j ≤ 9, digitsOf i = digitsOf j → i = j := by
  decide

/-- One more argument is for the next number. -/
theorem argumentFor_concat (digits : List Char) (n : Nat) (done : List String) (a : String) :
    argumentFor digits n (done ++ [a]) =
      (argumentFor digits n done).or
        (if digitsOf (n + done.length) = digits then some a else none) := by
  induction done generalizing n with
  | nil => simp [argumentFor]
  | cons b rest ih =>
      rw [List.cons_append, argumentFor, argumentFor, ih]
      split
      · rfl
      · rw [List.length_cons, show n + 1 + rest.length = n + (rest.length + 1) by omega]

/-- The argument for a number is one of the arguments. -/
theorem argumentFor_mem {digits : List Char} {n : Nat} {done : List String} {a : String}
    (h : argumentFor digits n done = some a) : a ∈ done := by
  induction done generalizing n with
  | nil => cases h
  | cons b rest ih =>
      rw [argumentFor] at h
      split at h
      · cases h
        exact List.mem_cons_self
      · exact List.mem_cons_of_mem _ (ih h)

/-- There is none for a number beyond them. -/
theorem argumentFor_eq_none {n k : Nat} {done : List String} (hk : k ≤ 9)
    (h : n + done.length ≤ k) : argumentFor (digitsOf k) n done = none := by
  induction done generalizing n with
  | nil => rfl
  | cons b rest ih =>
      rw [List.length_cons] at h
      have hne : digitsOf n ≠ digitsOf k := fun heq => by
        have := digitsOf_inj n (by omega) k hk heq
        omega
      rw [argumentFor, if_neg hne]
      exact ih (by omega)

/-- One more argument is one more placeholder filled in. -/
theorem substitute_concat {done : List String} (hlength : done.length + 1 ≤ 9) (a : String)
    (ds : List Char) :
    substitute (done ++ [a]) ds =
      if ds = digitsOf (done.length + 1) then a.toList else substitute done ds := by
  unfold substitute
  rw [argumentFor_concat]
  by_cases hds : ds = digitsOf (done.length + 1)
  · subst hds
    rw [argumentFor_eq_none hlength (by omega)]
    simp [Nat.add_comm]
  · rw [if_neg hds, if_neg (by rw [Nat.add_comm]; exact fun h => hds h.symm), Option.or_none]

/-- **Pasting one argument fills its holes**, and no others, if the arguments before it have left
the text clear. -/
theorem replaceAll_placeholder {bs : List Bit} {done : List String} (a : String)
    (hholes : ∀ ds, Bit.hole ds ∈ bs → ∃ k ≤ 9, ds = digitsOf k)
    (hlength : done.length + 1 ≤ 9) (hdone : ∀ b ∈ done, '$' ∉ b.toList)
    (hclear : Clear (Nat.digitChar (done.length + 1)) (substitute done) bs) :
    replaceAll (placeholder (done.length + 1)) a.toList (bs.flatMap (Bit.fill (substitute done))) =
      bs.flatMap (Bit.fill (substitute (done ++ [a]))) := by
  obtain ⟨hsingle, -, hsign⟩ := digitsOf_single _ hlength
  have hplaceholder : placeholder (done.length + 1) = ['$', Nat.digitChar (done.length + 1)] :=
    congrArg ('$' :: ·) hsingle
  have hfill : substitute (done ++ [a]) = fun ds =>
      if ds = [Nat.digitChar (done.length + 1)] then a.toList else substitute done ds := by
    funext ds
    rw [substitute_concat hlength, hsingle]
  rw [hplaceholder, hfill]
  refine replaceAll_fill hsign _ (fun ds hds => ?_) hclear
  obtain ⟨k, hk, rfl⟩ := hholes ds hds
  cases hargument : argumentFor (digitsOf k) 1 done with
  | none =>
      obtain ⟨hdigits, -, hdigit⟩ := digitsOf_single k hk
      refine .inl ⟨_, hdigits, hdigit, ?_⟩
      rw [substitute, hargument, hdigits]
      rfl
  | some b =>
      refine .inr ⟨?_, ?_⟩
      · rw [← hsingle]
        intro heq
        rw [heq, argumentFor_eq_none hlength (by omega)] at hargument
        cases hargument
      · rw [substitute, hargument]
        exact hdone b (argumentFor_mem hargument)

/-- **Up to nine arguments without dollar signs are pasted as if all at once**, unless a dollar sign
stands directly before a placeholder. -/
theorem pasteFrom_filled {bs : List Bit} (hparted : Parted bs) (hapart : Apart bs)
    (hholes : ∀ ds, Bit.hole ds ∈ bs → ∃ k ≤ 9, ds = digitsOf k) (todo : List String)
    {done : List String} (hlength : done.length + todo.length ≤ 9)
    (hsigns : ∀ b ∈ done ++ todo, '$' ∉ b.toList) :
    pasteFrom (done.length + 1) (bs.flatMap (Bit.fill (substitute done))) (todo.map .text) =
      .ok (bs.flatMap (Bit.fill (substitute (done ++ todo)))) := by
  induction todo generalizing done with
  | nil => rw [List.append_nil, List.map_nil, pasteFrom]
  | cons a rest ih =>
      rw [List.length_cons] at hlength
      have hlength' : done.length + 1 ≤ 9 := by omega
      have hdigit := (digitsOf_single _ hlength').2.1
      have hdone : ∀ b ∈ done, '$' ∉ b.toList :=
        fun b hb => hsigns b (List.mem_append_left _ hb)
      rw [List.map_cons, pasteFrom, replaceAll_placeholder a hholes hlength' hdone
        (hapart.clear hparted hdigit _)]
      have hrest := @ih (done ++ [a]) (by simp; omega) (by simpa using hsigns)
      simpa using hrest

end DronePilot.Skill
