import DronePilot.Proofs.Inference
import DronePilot.Proofs.Placeholders
import DronePilot.Skill.Set
import Mathlib.Tactic.Ring

/-!
# Pasting arguments into a definition

A composed skill has one parameter for each placeholder that is an argument of a call, and is
expanded by pasting one argument after the other.  Neither keeps to the numbers of the placeholders
in all cases: the parameters are in the order of texts, and what one argument brings in is replaced
with the next.

`pasteFrom_baffling` shows the second for every definition with two placeholders.  The first
argument is the text of the second placeholder, and the second argument is a letter; the letter is
counted before and after.
-/

namespace DronePilot.Skill

open DronePilot.Text

/-! ### Arguments that are replaced again -/

/-- How often a dollar sign is directly followed by a character. -/
def pairs (c : Char) : List Char → Nat
  | [] => 0
  | x :: rest => (if x = '$' ∧ rest.head? = some c then 1 else 0) + pairs c rest

/-- A dollar sign with the digit behind it is one pair. -/
theorem pairs_hit {c : Char} (hc : c ≠ '$') (rest : List Char) :
    pairs c ('$' :: c :: rest) = 1 + pairs c rest := by
  simp [pairs, hc]

/-- Anything else begins no pair. -/
theorem pairs_miss {c x : Char} {rest : List Char} (h : ¬(x = '$' ∧ rest.head? = some c)) :
    pairs c (x :: rest) = pairs c rest := by
  rw [pairs, if_neg h, Nat.zero_add]

/-- Texts put together have at least the pairs that they have apart. -/
theorem pairs_append_le (c : Char) (front back : List Char) :
    pairs c front + pairs c back ≤ pairs c (front ++ back) := by
  induction front with
  | nil => simp [pairs]
  | cons x rest ih =>
      rw [List.cons_append, pairs, pairs]
      have hhead : x = '$' ∧ rest.head? = some c → x = '$' ∧ (rest ++ back).head? = some c := by
        rintro ⟨hx, hrest⟩
        exact ⟨hx, by rw [List.head?_append, hrest, Option.some_or]⟩
      by_cases hpair : x = '$' ∧ rest.head? = some c
      · rw [if_pos hpair, if_pos (hhead hpair)]
        omega
      · rw [if_neg hpair]
        omega

/-- Replacing comes upon a placeholder, or upon a character that stays. -/
theorem replaceAll_cases (c : Char) (by_ : List Char) (x : Char) (cs : List Char) :
    (∃ rest, x = '$' ∧ cs = c :: rest ∧
      replaceAll ['$', c] by_ (x :: cs) = by_ ++ replaceAll ['$', c] by_ rest) ∨
    ¬(x = '$' ∧ cs.head? = some c) ∧
      replaceAll ['$', c] by_ (x :: cs) = x :: replaceAll ['$', c] by_ cs := by
  by_cases hx : x = '$'
  · subst hx
    by_cases hcs : cs.head? = some c
    · obtain ⟨rest, rfl⟩ : ∃ rest, cs = c :: rest := by
        cases cs with
        | nil => cases hcs
        | cons d rest =>
            cases hcs
            exact ⟨rest, rfl⟩
      exact .inl ⟨rest, rfl, rfl, replaceAll_hit c by_ rest⟩
    · exact .inr ⟨fun h => hcs h.2, replaceAll_dollar hcs⟩
  · exact .inr ⟨fun h => hx h.1, replaceAll_other hx cs⟩

/-- Every occurrence of a placeholder of one digit brings in the characters of the argument. -/
theorem count_replaceAll {c z : Char} (hc : c ≠ '$') (hz : z ≠ '$') (hcz : c ≠ z)
    (by_ : List Char) : ∀ s,
      (replaceAll ['$', c] by_ s).count z = s.count z + pairs c s * by_.count z := by
  intro s
  induction hlength : s.length using Nat.strong_induction_on generalizing s with
  | _ n ih =>
      cases s with
      | nil => simp [replaceAll, replaceFrom, pairs]
      | cons x cs =>
          rw [List.length_cons] at hlength
          rcases replaceAll_cases c by_ x cs with ⟨rest, rfl, rfl, heq⟩ | ⟨hno, heq⟩
          · rw [List.length_cons] at hlength
            rw [heq, List.count_append, ih rest.length (by omega) rest rfl, pairs_hit hc,
              List.count_cons_of_ne (Ne.symm hz), List.count_cons_of_ne hcz]
            ring
          · rw [heq, List.count_cons, List.count_cons, ih cs.length (by omega) cs rfl,
              pairs_miss hno]
            ring

/-- Replacing by something that begins with a dollar sign keeps the first character. -/
theorem head?_replaceAll {c : Char} (by_ s : List Char) :
    (replaceAll ['$', c] ('$' :: by_) s).head? = s.head? := by
  cases s with
  | nil => rfl
  | cons x cs =>
      rcases replaceAll_cases c ('$' :: by_) x cs with ⟨rest, rfl, rfl, heq⟩ | ⟨hno, heq⟩
      · rw [heq]
        rfl
      · rw [heq]
        rfl

/-- A placeholder that is replaced by another one adds to the occurrences of that. -/
theorem pairs_replaceAll {c e : Char} (hc : c ≠ '$') (he : e ≠ '$') (hce : c ≠ e) :
    ∀ s, pairs e (replaceAll ['$', c] ['$', e] s) = pairs c s + pairs e s := by
  intro s
  induction hlength : s.length using Nat.strong_induction_on generalizing s with
  | _ n ih =>
      cases s with
      | nil => rfl
      | cons x cs =>
          rw [List.length_cons] at hlength
          rcases replaceAll_cases c ['$', e] x cs with ⟨rest, rfl, rfl, heq⟩ | ⟨hno, heq⟩
          · rw [List.length_cons] at hlength
            have hother : pairs e ('$' :: c :: rest) = pairs e rest := by simp [pairs, hc, hce]
            rw [heq, pairs_hit hc, hother, List.cons_append, List.cons_append, List.nil_append,
              pairs_hit he, ih rest.length (by omega) rest rfl]
            omega
          · rw [heq, pairs_miss hno, pairs, pairs, head?_replaceAll, ih cs.length (by omega) cs rfl]
            omega

/-- A placeholder of one digit in a definition is a dollar sign before that digit. -/
theorem count_hole_le_pairs (c : Char) (bs : List Bit) :
    bs.count (.hole [c]) ≤ pairs c (bs.flatMap (Bit.fill ('$' :: ·))) := by
  induction bs with
  | nil => exact Nat.le_refl 0
  | cons b rest ih =>
      rw [List.flatMap_cons, List.count_cons]
      have happend := pairs_append_le c (b.fill ('$' :: ·)) (rest.flatMap (Bit.fill ('$' :: ·)))
      by_cases hb : b = .hole [c]
      · have hpair : 1 ≤ pairs c (b.fill ('$' :: ·)) := by
          subst hb
          simp [Bit.fill, pairs]
        simp only [hb, beq_self_eq_true, if_true] at hpair happend ⊢
        omega
      · have hbeq : (b == Bit.hole [c]) = false := beq_false_of_ne hb
        rw [hbeq]
        simp only [Bool.false_eq_true, if_false]
        omega

/-- Replacing what does not contain a character loses none of its occurrences. -/
theorem count_le_replaceFrom {fragment : List Char} (hsome : fragment ≠ []) {z : Char}
    (hz : z ∉ fragment) (by_ : List Char) (skip : Nat) (s : List Char) (hskip : z ∉ s.take skip) :
    s.count z ≤ (replaceFrom fragment by_ skip s).count z := by
  induction s generalizing skip with
  | nil => simp [replaceFrom]
  | cons x cs ih =>
      cases skip with
      | succ skip =>
          rw [List.take_succ_cons, List.mem_cons, not_or] at hskip
          rw [replaceFrom, List.count_cons_of_ne (Ne.symm hskip.1)]
          exact ih skip hskip.2
      | zero =>
          rw [replaceFrom]
          split
          · rename_i hprefix
            obtain ⟨rest, hrest⟩ := List.isPrefixOf_iff_prefix.mp hprefix
            cases fragment with
            | nil => exact absurd rfl hsome
            | cons y more =>
                rw [List.mem_cons, not_or] at hz
                obtain ⟨rfl, rfl⟩ := List.cons.inj hrest
                have hmore := ih more.length (by simpa using hz.2)
                rw [List.count_append, List.count_cons_of_ne (Ne.symm hz.1), List.length_cons,
                  Nat.add_sub_cancel]
                omega
          · rw [List.count_cons, List.count_cons]
            have := ih 0 (by simp)
            omega

/-- The digits of a number are digits. -/
theorem isDigit_of_mem_digitsOf {k : Nat} {c : Char} (h : c ∈ digitsOf k) : c.isDigit = true := by
  have hdigits : digitsOf k = Nat.toDigits 10 k := String.toList_ofList
  rw [hdigits] at h
  exact Nat.isDigit_of_mem_toDigits (by decide) (by decide) h

theorem not_mem_placeholder (k : Nat) : 'x' ∉ placeholder k := by
  intro h
  rcases List.mem_cons.mp h with h | h
  · revert h
    decide
  · exact absurd (isDigit_of_mem_digitsOf h) (by decide)

/-- Pasting texts gives a text, and loses no letter. -/
theorem exists_pasteFrom (arguments : List String) (n : Nat) (s : List Char) :
    ∃ r, pasteFrom n s (arguments.map .text) = .ok r ∧ s.count 'x' ≤ r.count 'x' := by
  induction arguments generalizing n s with
  | nil => exact ⟨s, rfl, Nat.le_refl _⟩
  | cons a rest ih =>
      obtain ⟨r, hr, hcount⟩ := ih (n + 1) (replaceAll (placeholder n) a.toList s)
      refine ⟨r, hr, Nat.le_trans ?_ hcount⟩
      exact count_le_replaceFrom (List.cons_ne_nil _ _) (not_mem_placeholder n) _ 0 s (by simp)

/-- The arguments `$2`, `x` and so many empty ones. -/
def baffling (m : Nat) : List String := "$2" :: "x" :: List.replicate m ""

/-- Among empty arguments the one for a number is empty. -/
theorem argumentFor_replicate {digits : List Char} {n m : Nat} {a : String}
    (h : argumentFor digits n (List.replicate m "") = some a) : a = "" :=
  List.eq_of_mem_replicate (argumentFor_mem h)

/-- Only the second placeholder is filled with an `x`. -/
theorem count_substitute_baffling (m : Nat) {ds : List Char} (hds : 'x' ∉ ds) :
    (substitute (baffling m) ds).count 'x' = if ds = ['2'] then 1 else 0 := by
  have hone : digitsOf 1 = ['1'] := by decide
  have htwo : digitsOf 2 = ['2'] := by decide
  rw [substitute, baffling, argumentFor, argumentFor, hone, htwo]
  by_cases hds1 : ['1'] = ds
  · subst hds1
    rfl
  · by_cases hds2 : ['2'] = ds
    · subst hds2
      rfl
    · rw [if_neg hds1, if_neg hds2, if_neg fun h => hds2 h.symm]
      cases hrest : argumentFor ds 3 (List.replicate m "") with
      | none => simpa using List.count_eq_zero.mpr hds
      | some a =>
          rw [argumentFor_replicate hrest]
          rfl

/-- So each bit has as many as before, and one more if it is the second placeholder. -/
theorem count_fill_baffling (m : Nat) {b : Bit} (h : ∀ ds, b = .hole ds → 'x' ∉ ds) :
    (b.fill (substitute (baffling m))).count 'x' =
      (b.fill ('$' :: ·)).count 'x' + if b == .hole ['2'] then 1 else 0 := by
  cases b with
  | plain c => simp [Bit.fill]
  | hole ds =>
      have hds := h ds rfl
      have htext : (Bit.fill ('$' :: ·) (.hole ds)).count 'x' = 0 := by
        rw [List.count_eq_zero]
        intro hmem
        rcases List.mem_cons.mp hmem with hsign | hmem
        · cases hsign
        · exact hds hmem
      rw [htext, Bit.fill, count_substitute_baffling m hds]
      by_cases htwo : ds = ['2'] <;> simp [htwo]

/-- And a text has one more for every second placeholder in it. -/
theorem count_filled_baffling (m : Nat) {bs : List Bit} (h : ∀ ds, Bit.hole ds ∈ bs → 'x' ∉ ds) :
    (bs.flatMap (Bit.fill (substitute (baffling m)))).count 'x' =
      (bs.flatMap (Bit.fill ('$' :: ·))).count 'x' + bs.count (.hole ['2']) := by
  induction bs with
  | nil => rfl
  | cons b rest ih =>
      have hfirst := count_fill_baffling m fun ds hb => h ds (hb ▸ List.mem_cons_self)
      have hrest := ih fun ds hds => h ds (List.mem_cons_of_mem _ hds)
      rw [List.flatMap_cons, List.flatMap_cons, List.count_append, List.count_append, hfirst, hrest,
        List.count_cons]
      omega

/-- **Two placeholders can be confused**: some arguments are replaced again once they are pasted. -/
theorem pasteFrom_baffling {n : Nat} {definition : List Char} (h : Numbered n definition)
    (hn : 2 ≤ n) :
    pasteFrom 1 definition ((baffling (n - 2)).map .text) ≠
      .ok (filled (baffling (n - 2)) definition) := by
  have hholes : ∀ ds, Bit.hole ds ∈ bits definition → 'x' ∉ ds := by
    intro ds hds hx
    obtain ⟨k, -, -, rfl⟩ := h.only ds hds
    exact absurd (isDigit_of_mem_digitsOf hx) (by decide)
  have hfilled := count_filled_baffling (n - 2) hholes
  rw [text_bits] at hfilled
  have hone : 1 ≤ (bits definition).count (.hole ['1']) :=
    List.count_pos_iff.mpr (h.all 1 (by omega) (by omega))
  have hpairs₁ := count_hole_le_pairs '1' (bits definition)
  have hpairs₂ := count_hole_le_pairs '2' (bits definition)
  rw [text_bits] at hpairs₁ hpairs₂
  obtain ⟨r, hr, hcount⟩ := exists_pasteFrom (List.replicate (n - 2) "") 3
    (replaceAll (placeholder 2) "x".toList (replaceAll (placeholder 1) "$2".toList definition))
  have hpaste : pasteFrom 1 definition ((baffling (n - 2)).map .text) = .ok r := hr
  -- The second step meets what the first one has brought in.
  have hsecond : (replaceAll ['$', '2'] ['x'] (replaceAll ['$', '1'] ['$', '2'] definition)).count
      'x' = definition.count 'x' + (pairs '1' definition + pairs '2' definition) := by
    rw [count_replaceAll (by decide) (by decide) (by decide),
      count_replaceAll (by decide) (by decide) (by decide),
      pairs_replaceAll (by decide) (by decide) (by decide)]
    simp
  have hcount : definition.count 'x' + (pairs '1' definition + pairs '2' definition) ≤
      r.count 'x' := hsecond ▸ hcount
  rw [hpaste]
  intro heq
  rw [Except.ok.inj heq, filled, hfilled] at hcount
  omega

/-- A composed skill that is added gets the parameters that follow from its definition. -/
theorem addComposed_ok {skills lower skills' : Skills} {short : Abbreviations} {s : ComposedSkill}
    (h : skills.addComposed lower short s = .ok skills') :
    ∃ parameters,
      inferParameters (fun name => (lower.lookup short name).or (skills.lookup short name))
          s.definition = .ok parameters ∧
        skills'.find? s.name =
          some (.composed { s with parameters := parameters, placed := true }) := by
  unfold Skills.addComposed at h
  cases hold : skills.contains s.name with
  | true =>
      rw [hold] at h
      cases h
  | false =>
      cases hinfer : inferParameters
          (fun name => (lower.lookup short name).or (skills.lookup short name)) s.definition with
      | error f =>
          simp only [hold, hinfer, bind, Except.bind] at h
          cases h
      | ok parameters =>
          refine ⟨parameters, rfl, ?_⟩
          have hadd : (skills.insert s.name
              (.composed { s with parameters := parameters, placed := true })) = skills' := by
            simpa [hold, hinfer, bind, Except.bind, pure, Except.pure, Skills.add, Skill.name]
              using h
          rw [← hadd, Table.find?_insert_self]

/-- Placeholders that are numbered up to nine have one digit. -/
theorem Numbered.single {n : Nat} {definition : List Char} (h : Numbered n definition)
    (hn : n ≤ 9) : ∀ ds, Bit.hole ds ∈ bits definition → ∃ k ≤ 9, ds = digitsOf k := by
  intro ds hds
  obtain ⟨k, -, hk, rfl⟩ := h.only ds hds
  exact ⟨k, by omega, rfl⟩

/-- A definition into which nothing is filled stays as it is. -/
theorem fill_substitute_nil (definition : List Char) :
    (bits definition).flatMap (Bit.fill (substitute [])) = definition :=
  text_bits definition

/-- A single placeholder is replaced wherever it stands, and nothing else is. -/
theorem pasteFrom_single {definition : List Char} (h : Numbered 1 definition) (a : String) :
    pasteFrom 1 definition [.text a] = .ok (filled [a] definition) := by
  have hclear := (bits_parted definition).clear (digitsOf_single 1 (by omega)).2.1
  have hstep := @replaceAll_placeholder _ [] a (h.single (by omega)) (by simp) (by simp) hclear
  rw [fill_substitute_nil] at hstep
  exact congrArg Except.ok hstep

/-- A skill that has its place is expanded by pasting, if it is given as much as it asks for. -/
theorem expand_eq {s : ComposedSkill} (hplaced : s.placed = true) (arguments : List String) :
    s.expand (arguments.map .text) =
      if arguments.length = s.parameters.length then
        pasteFrom 1 s.definition.toList (arguments.map .text)
      else .error (.wrongArity s.parameters.length arguments.length) := by
  by_cases hlength : arguments.length = s.parameters.length <;>
    simp [ComposedSkill.expand, hplaced, hlength]

/-- **The placeholders of a composed skill.**  Take a definition that is accepted and whose
placeholders are `$1` to `$n`.

* Its parameters are those at which the placeholders that stand as arguments of calls are first
  used, in the order of the texts of these.
* These texts are `$1` to `$n` in the order of the numbers exactly if `n` is at most nine and each
  of them stands as an argument, and nothing else that begins with a dollar sign does.
* Whatever `n` texts are given, all placeholders are replaced at once by what is given for them,
  exactly if there are `n` parameters and `n` is at most one.  From two on they are not if the first
  text is `$2`, the second `x` and all others are empty.
* For up to nine placeholders they are, if the texts have no dollar signs and none stands directly
  before a placeholder. -/
theorem placeholders_one_for_one {skills lower skills' : Skills} {short : Abbreviations}
    {s : ComposedSkill} {n : Nat} (hadd : skills.addComposed lower short s = .ok skills')
    (hnumbered : Numbered n s.definition.toList) :
    let uses := placeholderUses
      (fun name => (lower.lookup short name).or (skills.lookup short name))
      (callsIn s.definition.toList)
    ∃ placed names, skills'.find? s.name = some (.composed placed) ∧
      names.Pairwise (· < ·) ∧ (∀ name, name ∈ names ↔ name ∈ uses.map Prod.fst) ∧
      placed.parameters.map some = names.map (firstUse? uses) ∧
      (names = numberedNames n ↔
        n ≤ 9 ∧ ∀ name, name ∈ uses.map Prod.fst ↔ name ∈ numberedNames n) ∧
      ((∀ arguments : List String, arguments.length = n →
          placed.expand (arguments.map .text) = .ok (filled arguments s.definition.toList)) ↔
        placed.parameters.length = n ∧ n ≤ 1) ∧
      (2 ≤ n →
        placed.expand (("$2" :: "x" :: List.replicate (n - 2) "").map .text) ≠
          .ok (filled ("$2" :: "x" :: List.replicate (n - 2) "") s.definition.toList)) ∧
      (placed.parameters.length = n → n ≤ 9 → Apart (bits s.definition.toList) →
        ∀ arguments : List String, arguments.length = n → (∀ a ∈ arguments, '$' ∉ a.toList) →
          placed.expand (arguments.map .text) = .ok (filled arguments s.definition.toList)) := by
  intro uses
  obtain ⟨parameters, hinfer, hfind⟩ := addComposed_ok hadd
  obtain ⟨names, hsorted, hmem, hparameters⟩ := inferParameters_uses hinfer
  have hexpand := expand_eq (s := { s with parameters := parameters, placed := true }) rfl
  have hbaffled (hn : 2 ≤ n) :
      ComposedSkill.expand { s with parameters := parameters, placed := true }
        ((baffling (n - 2)).map .text) ≠ .ok (filled (baffling (n - 2)) s.definition.toList) := by
    intro hpasted
    rw [hexpand] at hpasted
    split at hpasted
    · exact pasteFrom_baffling hnumbered hn hpasted
    · cases hpasted
  refine ⟨_, names, hfind, hsorted, hmem, hparameters, ?_, ⟨fun hall => ?_, ?_⟩, hbaffled, ?_⟩
  · rw [eq_numberedNames_iff hsorted]
    simp only [hmem]
    rfl
  · have hlength : parameters.length = n := by
      by_contra hne
      have hempty := hall (List.replicate n "") (by simp)
      rw [hexpand, if_neg (by simpa [eq_comm] using hne)] at hempty
      cases hempty
    refine ⟨hlength, ?_⟩
    by_contra hmany
    exact hbaffled (by omega) (hall (baffling (n - 2)) (by simp [baffling]; omega))
  · rintro ⟨hlength, hfew⟩ arguments harguments
    rw [hexpand, if_pos (harguments.trans hlength.symm)]
    rcases arguments with _ | ⟨a, _ | ⟨b, more⟩⟩
    · exact congrArg Except.ok (fill_substitute_nil _).symm
    · subst harguments
      exact pasteFrom_single hnumbered a
    · simp only [List.length_cons] at harguments
      omega
  · intro hlength hfew hapart arguments harguments hsigns
    rw [hexpand, if_pos (harguments.trans hlength.symm)]
    have hpaste := @pasteFrom_filled _ (bits_parted _) hapart (hnumbered.single hfew) arguments []
      (by simp; omega) hsigns
    rw [fill_substitute_nil] at hpaste
    exact hpaste

/-- A skill with ten parameters. -/
def tenArguments : BasicSkill :=
  { name := "f", abbreviation := "f"
    parameters := ["a", "b", "c", "d", "e", "f", "g", "h", "i", "j"].map fun name =>
      { name := name, kind := .text } }

/-- A composed skill that passes ten arguments on. -/
def passTen : ComposedSkill :=
  { name := "pass", abbreviation := "p", definition := "f($1,$2,$3,$4,$5,$6,$7,$8,$9,$10);" }

theorem numbered_passTen : Numbered 10 passTen.definition.toList := by decide

/-- **Ten placeholders are mixed up.**  The tenth comes second among the parameters, and where it
stands the first argument is pasted before its last digit. -/
theorem passTen_mixed_up :
    Numbered 10 passTen.definition.toList ∧
      filled ["A", "B", "C", "D", "E", "F", "G", "H", "I", "J"] passTen.definition.toList =
        "f(A,B,C,D,E,F,G,H,I,J);".toList ∧
      ∃ skills' placed,
        Skills.addComposed Table.empty (.ofList [("f", .basic tenArguments)]) Table.empty passTen =
          .ok skills' ∧
        skills'.find? "pass" = some (.composed placed) ∧
        placed.parameters.map Parameter.name =
          ["a", "j", "b", "c", "d", "e", "f", "g", "h", "i"] ∧
        placed.expand (["A", "B", "C", "D", "E", "F", "G", "H", "I", "J"].map .text) =
          .ok "f(A,B,C,D,E,F,G,H,I,A0);".toList := by
  refine ⟨numbered_passTen, by decide, ?_⟩
  obtain ⟨skills', hadd⟩ : ∃ skills', Skills.addComposed Table.empty
      (.ofList [("f", .basic tenArguments)]) Table.empty passTen = .ok skills' := ⟨_, rfl⟩
  obtain ⟨parameters, hinfer, hfind⟩ := addComposed_ok hadd
  obtain ⟨names, hsorted, hmem, hparameters⟩ := inferParameters_uses hinfer
  have hnames : names = ["$1", "$10", "$2", "$3", "$4", "$5", "$6", "$7", "$8", "$9"] := by
    have hperm : ["$1", "$2", "$3", "$4", "$5", "$6", "$7", "$8", "$9", "$10"].Perm
        ["$1", "$10", "$2", "$3", "$4", "$5", "$6", "$7", "$8", "$9"] := by decide
    exact eq_of_sorted hsorted (by decide) fun name => (hmem name).trans hperm.mem_iff
  have hten : parameters = ["a", "j", "b", "c", "d", "e", "f", "g", "h", "i"].map fun name =>
      { name := name, kind := .text } := by
    refine List.map_injective_iff.mpr (Option.some_injective _) ?_
    rw [hparameters, hnames]
    rfl
  refine ⟨skills', _, hadd, hfind, ?_, ?_⟩
  · rw [hten]
    rfl
  · rw [expand_eq rfl, hten]
    rfl

/-- A skill with two parameters. -/
def turnAndGo : BasicSkill :=
  { name := "go", abbreviation := "g"
    parameters := [{ name := "degrees", kind := .int }, { name := "distance", kind := .int }] }

/-- A composed skill that gives them in the other order. -/
def goAndTurn : ComposedSkill :=
  { name := "back", abbreviation := "b", definition := "go($2,$1);" }

/-- Two arguments without dollar signs get to their places, and have the parameters of these. -/
theorem placeholders_one_for_one_goAndTurn :
    ∃ skills' placed,
      Skills.addComposed Table.empty (.ofList [("go", .basic turnAndGo)]) Table.empty goAndTurn =
        .ok skills' ∧
      skills'.find? "back" = some (.composed placed) ∧
      placed.parameters.map Parameter.name = ["distance", "degrees"] ∧
      placed.expand [.text "100", .text "45"] = .ok "go(45,100);".toList := by
  obtain ⟨skills', hadd⟩ : ∃ skills', Skills.addComposed Table.empty
      (.ofList [("go", .basic turnAndGo)]) Table.empty goAndTurn = .ok skills' := ⟨_, rfl⟩
  have hnumbered : Numbered 2 goAndTurn.definition.toList := by decide
  obtain ⟨placed, names, hfind, -, -, hparameters, hnames, -, -, hpaste⟩ :=
    placeholders_one_for_one hadd hnumbered
  have hall : names = numberedNames 2 := by
    have hperm : ["$2", "$1"].Perm (numberedNames 2) := by decide
    exact hnames.mpr ⟨by decide, fun name => hperm.mem_iff⟩
  have hboth : placed.parameters =
      [{ name := "distance", kind := .int }, { name := "degrees", kind := .int }] := by
    refine List.map_injective_iff.mpr (Option.some_injective _) ?_
    rw [hparameters, hall]
    rfl
  refine ⟨skills', placed, hadd, hfind, by rw [hboth]; rfl, ?_⟩
  have hbits : bits goAndTurn.definition.toList = [.plain 'g', .plain 'o', .plain '(', .hole ['2'],
      .plain ',', .hole ['1'], .plain ')', .plain ';'] := rfl
  have happart : Apart (bits goAndTurn.definition.toList) := by
    rw [hbits]
    simp [Apart]
  exact hpaste (by rw [hboth]; rfl) (by decide) happart ["100", "45"] rfl (by decide)

end DronePilot.Skill
