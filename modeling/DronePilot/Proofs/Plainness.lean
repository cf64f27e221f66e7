import DronePilot.Plan.Condition

/-!
# Texts without arithmetic

The operators of arithmetic drop the requests of their operands for a new plan.  A *plain* text has
no sign of arithmetic in it, apart from the arrow of a return at its beginning; then the analysis of
the text leads to an expression or a condition in which no operator stands above a call.

* `Expr.direct_ofText` — the expression of a plain text is direct.
* `Condition.direct_ofText` — so is the condition of a plain text.  An arrow before a condition is
  not an arrow: it is a comparison with nothing but a minus sign to its left, which cannot be
  evaluated.
-/

namespace DronePilot.Plan

open DronePilot.Text

/-- The signs of arithmetic. -/
def isOperatorSign (c : Char) : Bool :=
  c == '+' || c == '-' || c == '*' || c == '/'

/-- The text has no sign of arithmetic, apart from an arrow at its beginning. -/
def isPlain (text : List Char) : Bool :=
  let t := trim text
  (if isReturn t then t.drop 2 else t).all fun c => !isOperatorSign c

/-- No sign of arithmetic is in the text. -/
def Signless (text : List Char) : Prop :=
  ∀ c ∈ text, isOperatorSign c = false

/-- The text begins, after blanks, with an arrow, and has no other sign of arithmetic in it. -/
def Arrowed (text : List Char) : Prop :=
  ∃ blanks rest, text = blanks ++ '-' :: '>' :: rest ∧ (∀ c ∈ blanks, isBlank c = true) ∧
    Signless rest

/-- No operand makes a call whose result an operator drops: there is no operator, or evaluation
fails at the left operand. -/
def Expr.Direct : Expr → Prop
  | .give e | .assign _ e => e.Direct
  | .binary _ left _ => left = .empty
  | .const _ | .ambiguous | .empty | .variable _ | .call _ | .literal _ => True

/-- The operands of all comparisons are direct. -/
def Condition.Direct : Condition → Prop
  | .both left right | .either left right => left.Direct ∧ right.Direct
  | .compare left _ right => left.Direct ∧ right.Direct
  | .malformed => True

/-- Fewer characters have no more signs. -/
theorem Signless.mono {s t : List Char} (h : Signless s) (hsub : ∀ c ∈ t, c ∈ s) : Signless t :=
  fun c hc => h c (hsub c hc)

/-- No blank is the sign of an operator. -/
theorem isOperatorSign_of_isBlank {c : Char} (h : isBlank c = true) : isOperatorSign c = false := by
  cases hsign : isOperatorSign c with
  | false => rfl
  | true =>
      simp only [isOperatorSign, Bool.or_eq_true, beq_iff_eq] at hsign
      rcases hsign with ((rfl | rfl) | rfl) | rfl <;> cases h

/-! ## Trimming and cutting -/

/-- Trimming takes blanks from both ends. -/
theorem exists_trim (s : List Char) :
    ∃ before after, s = before ++ trim s ++ after ∧ (∀ c ∈ before, isBlank c = true) ∧
      ∀ c ∈ after, isBlank c = true := by
  refine ⟨s.takeWhile isBlank, ((s.dropWhile isBlank).reverse.takeWhile isBlank).reverse,
    ?_, ?_, ?_⟩
  · rw [trim, trimWhere, List.append_assoc, ← List.reverse_append, List.takeWhile_append_dropWhile,
      List.reverse_reverse, List.takeWhile_append_dropWhile]
  · exact List.all_eq_true.1 List.all_takeWhile
  · intro c hc
    exact List.all_eq_true.1 List.all_takeWhile c (List.mem_reverse.1 hc)

/-- Trimming adds nothing. -/
theorem mem_of_mem_trim {s : List Char} {c : Char} (h : c ∈ trim s) : c ∈ s := by
  obtain ⟨before, after, hs, -⟩ := exists_trim s
  rw [hs]
  simp [h]

/-- The characters of a piece are characters of the text. -/
theorem mem_of_mem_pieces {sep : Char} {s piece : List Char} (h : piece ∈ pieces sep s) {c : Char}
    (hc : c ∈ piece) : c ∈ s := by
  induction s generalizing piece with
  | nil =>
      simp only [pieces, List.mem_singleton] at h
      exact h ▸ hc
  | cons d s ih =>
      rw [pieces] at h
      split at h
      · rcases List.mem_cons.1 h with rfl | h
        · cases hc
        · exact List.mem_cons_of_mem _ (ih h hc)
      · cases hp : pieces sep s with
        | nil => exact absurd hp (pieces_ne_nil sep s)
        | cons first rest =>
            rw [hp] at h ih
            rcases List.mem_cons.1 h with rfl | h
            · rcases List.mem_cons.1 hc with rfl | hc
              · exact List.mem_cons_self
              · exact List.mem_cons_of_mem _ (ih List.mem_cons_self hc)
            · exact List.mem_cons_of_mem _ (ih (List.mem_cons_of_mem _ h) hc)

/-- A beginning without separators belongs to the first piece. -/
theorem pieces_append {sep : Char} {a : List Char} (ha : ∀ c ∈ a, c ≠ sep) {b first : List Char}
    {others : List (List Char)} (hb : pieces sep b = first :: others) :
    pieces sep (a ++ b) = (a ++ first) :: others := by
  induction a with
  | nil => exact hb
  | cons c a ih =>
      obtain ⟨hc, ha⟩ := List.forall_mem_cons.1 ha
      rw [List.cons_append, pieces, if_neg hc, ih ha]
      rfl

/-- The parts of a comparison are parts of the text. -/
theorem mem_of_cutComparator {s left right : List Char} {op : Comparator}
    (h : cutComparator? s = some (left, op, right)) :
    (∀ c ∈ left, c ∈ s) ∧ ∀ c ∈ right, c ∈ s := by
  fun_induction cutComparator? s generalizing left right op with
  | case1 => cases h
  | case2 cs => cases h; simp +contextual
  | case3 cs => cases h; simp +contextual
  | case4 cs => cases h; simp +contextual
  | case5 cs => cases h; simp +contextual
  | case6 c cs _ _ _ _ ih =>
      obtain ⟨⟨before, op', after⟩, hcut, hparts⟩ := Option.map_eq_some_iff.1 h
      cases hparts
      obtain ⟨hbefore, hafter⟩ := ih hcut
      exact ⟨by simpa using fun c hc => Or.inr (hbefore c hc),
        fun c hc => List.mem_cons_of_mem _ (hafter c hc)⟩

/-! ## Expressions -/

/-- What holds of the operands, and passes to two of them joined, holds of a chain of them. -/
theorem Expr.chain_of_forall {P : Expr → Prop} {op : Operator}
    (hbinary : ∀ left right, P left → P right → P (.binary op left right)) {start : Expr}
    (hstart : P start) {operands : List Expr} (h : ∀ e ∈ operands, P e) :
    P (Expr.chain op start operands) := by
  induction operands generalizing start with
  | nil => exact hstart
  | cons e rest ih =>
      obtain ⟨he, hrest⟩ := List.forall_mem_cons.1 h
      exact ih (hbinary start e hstart he) hrest

/-- What holds of the operands holds of their chain, if operators keep it. -/
theorem Expr.chainFirst_of_forall {P : Expr → Prop} (hempty : P .empty) {op : Operator}
    (hbinary : ∀ left right, P left → P right → P (.binary op left right))
    {operands : List Expr} (h : ∀ e ∈ operands, P e) : P (Expr.chainFirst op operands) := by
  cases operands with
  | nil => exact hempty
  | cons first rest =>
      obtain ⟨hfirst, hrest⟩ := List.forall_mem_cons.1 h
      exact Expr.chain_of_forall hbinary hfirst hrest

/-- An atom is direct. -/
theorem Expr.direct_ofAtom (s : List Char) : (Expr.ofAtom s).Direct := by
  unfold Expr.ofAtom
  repeat' split
  all_goals trivial

/-- A text without signs is read as a direct expression. -/
theorem Expr.direct_ofText_of_signless {s : List Char} (h : Signless s) :
    (Expr.ofText s).Direct := by
  have hsign {c : Char} (hc : isOperatorSign c = true) {s : List Char} (h : Signless s) :
      c ∉ trim s := by
    intro hmem
    rw [h c (mem_of_mem_trim hmem)] at hc
    cases hc
  fun_induction Expr.ofText s with
  | case1 s t hr ih =>
      exact ih fun c hc => h c (mem_of_mem_trim ((List.dropWhile_suffix _).subset hc))
  | case2 s t hr he name e hp ih =>
      have hmem : e ∈ pieces '=' t := by simp [hp]
      exact ih fun c hc => h c (mem_of_mem_trim (mem_of_mem_pieces hmem hc))
  | case3 => trivial
  | case4 s t _ _ hplus => exact absurd hplus (hsign rfl h)
  | case5 s t _ _ _ hminus => exact absurd hminus (hsign rfl h)
  | case6 s t _ _ _ _ htimes => exact absurd htimes (hsign rfl h)
  | case7 s t _ _ _ _ _ hover => exact absurd hover (hsign rfl h)
  | case8 s t => exact Expr.direct_ofAtom _

/-- A plain text, trimmed, has no sign of arithmetic in it, or only the arrow at its beginning. -/
theorem trim_of_isPlain {s : List Char} (h : isPlain s = true) :
    Signless (trim s) ∨ ∃ rest, trim s = '-' :: '>' :: rest ∧ Signless rest := by
  simp only [isPlain, List.all_eq_true, Bool.not_eq_true'] at h
  cases hreturn : isReturn (trim s) with
  | false =>
      rw [hreturn] at h
      exact Or.inl h
  | true =>
      rw [hreturn] at h
      unfold isReturn at hreturn
      split at hreturn
      · rename_i rest htrim
        rw [htrim] at h
        exact Or.inr ⟨rest, htrim, h⟩
      · cases hreturn

/-- Blanks have no signs. -/
theorem signless_of_isBlank {s : List Char} (h : ∀ c ∈ s, isBlank c = true) : Signless s :=
  fun c hc => isOperatorSign_of_isBlank (h c hc)

/-- Texts without signs make up a text without signs. -/
theorem Signless.append {s t : List Char} (hs : Signless s) (ht : Signless t) :
    Signless (s ++ t) := by
  intro c hc
  rcases List.mem_append.1 hc with hc | hc
  · exact hs c hc
  · exact ht c hc

/-- A text has no signs if it has none when trimmed. -/
theorem signless_of_trim {s : List Char} (h : Signless (trim s)) : Signless s := by
  obtain ⟨before, after, hs, hbefore, hafter⟩ := exists_trim s
  rw [hs]
  exact ((signless_of_isBlank hbefore).append h).append (signless_of_isBlank hafter)

/-- **The expression of a plain text is direct.** -/
theorem Expr.direct_ofText {s : List Char} (h : isPlain s = true) : (Expr.ofText s).Direct := by
  rcases trim_of_isPlain h with hsignless | ⟨rest, htrim, hrest⟩
  · exact Expr.direct_ofText_of_signless (signless_of_trim hsignless)
  · have hreturn : isReturn ('-' :: '>' :: rest) = true := rfl
    rw [Expr.ofText, htrim, dif_pos hreturn]
    have hinner : (Expr.ofText (rest.dropWhile isArrowChar)).Direct :=
      Expr.direct_ofText_of_signless (hrest.mono fun c hc => (List.dropWhile_suffix _).subset hc)
    exact hinner

/-! ## Conditions -/

/-- A plain text has no signs but those of an arrow in front. -/
theorem signless_or_arrowed {s : List Char} (h : isPlain s = true) : Signless s ∨ Arrowed s := by
  rcases trim_of_isPlain h with hsignless | ⟨rest, htrim, hrest⟩
  · exact Or.inl (signless_of_trim hsignless)
  · obtain ⟨before, after, hs, hbefore, hafter⟩ := exists_trim s
    rw [htrim] at hs
    exact Or.inr ⟨before, rest ++ after, by simpa using hs, hbefore,
      hrest.append (signless_of_isBlank hafter)⟩

/-- What holds of the members of a conjunction, and passes to two of them joined, holds of it. -/
theorem Condition.all_of_forall {P : Condition → Prop} (hmalformed : P .malformed)
    (hboth : ∀ left right, P left → P right → P (.both left right)) {conditions : List Condition}
    (h : ∀ c ∈ conditions, P c) : P (Condition.all conditions) := by
  have hfoldl (rest : List Condition) {first : Condition} (hfirst : P first)
      (hrest : ∀ c ∈ rest, P c) : P (rest.foldl .both first) := by
    induction rest generalizing first with
    | nil => exact hfirst
    | cons next rest ih =>
        obtain ⟨hnext, hrest⟩ := List.forall_mem_cons.1 hrest
        exact ih (hboth first next hfirst hnext) hrest
  cases conditions with
  | nil => exact hmalformed
  | cons first rest =>
      obtain ⟨hfirst, hrest⟩ := List.forall_mem_cons.1 h
      exact hfoldl rest hfirst hrest

/-- What holds of conditions holds of their disjunction, if that keeps it. -/
theorem Condition.any_of_forall {P : Condition → Prop} (hmalformed : P .malformed)
    (heither : ∀ left right, P left → P right → P (.either left right))
    {conditions : List Condition} (h : ∀ c ∈ conditions, P c) : P (Condition.any conditions) := by
  fun_induction Condition.any conditions with
  | case1 => exact hmalformed
  | case2 last => exact h last (by simp)
  | case3 first rest _ ih =>
      obtain ⟨hfirst, hrest⟩ := List.forall_mem_cons.1 h
      exact heither first _ hfirst (ih hrest)

/-- A blank is neither a separator nor the beginning of a comparator. -/
theorem ne_of_isBlank {c d : Char} (h : isBlank c = true) (hd : isBlank d = false) : c ≠ d := by
  rintro rfl
  rw [h] at hd
  cases hd

/-- Cutting a text with an arrow at its beginning cuts it inside the arrow. -/
theorem cutComparator?_arrowed {blanks rest : List Char} (h : ∀ c ∈ blanks, isBlank c = true) :
    cutComparator? (blanks ++ '-' :: '>' :: rest) = some (blanks ++ ['-'], .greater, rest) := by
  induction blanks with
  | nil => rfl
  | cons c blanks ih =>
      obtain ⟨hc, hblanks⟩ := List.forall_mem_cons.1 h
      rw [List.cons_append, cutComparator?, ih hblanks]
      · rfl
      · exact ne_of_isBlank hc rfl
      · exact ne_of_isBlank hc rfl
      · exact fun _ heq _ => ne_of_isBlank hc rfl heq
      · exact fun _ heq _ => ne_of_isBlank hc rfl heq

/-- A minus sign behind blanks is left alone by trimming. -/
theorem trim_lone_minus {blanks : List Char} (h : ∀ c ∈ blanks, isBlank c = true) :
    trim (blanks ++ ['-']) = ['-'] := by
  rw [trim, trimWhere, List.dropWhile_append_of_pos h]
  rfl

/-- The expression to the left of such a cut fails before it calls anything. -/
theorem Expr.ofText_lone_minus {blanks : List Char} (h : ∀ c ∈ blanks, isBlank c = true) :
    Expr.ofText (blanks ++ ['-']) = .binary .sub .empty .empty := by
  have hempty : Expr.ofText [] = .empty := by
    rw [Expr.ofText]
    rfl
  rw [Expr.ofText, trim_lone_minus h]
  change Expr.binary .sub (Expr.ofText []) (Expr.ofText []) = _
  rw [hempty]

/-- The pieces of a text that is signless, or begins with an arrow, are such texts. -/
theorem signless_or_arrowed_of_mem_pieces {sep : Char} (hblank : isBlank sep = false)
    (hminus : sep ≠ '-') (hgreater : sep ≠ '>') {s piece : List Char}
    (h : Signless s ∨ Arrowed s) (hpiece : piece ∈ pieces sep s) :
    Signless piece ∨ Arrowed piece := by
  rcases h with hsignless | ⟨blanks, rest, rfl, hblanks, hrest⟩
  · exact Or.inl (hsignless.mono fun c hc => mem_of_mem_pieces hpiece hc)
  · cases hpieces : pieces sep rest with
    | nil => exact absurd hpieces (pieces_ne_nil sep rest)
    | cons first others =>
        have hpart {t : List Char} (ht : t ∈ first :: others) : Signless t :=
          hrest.mono fun c hc => mem_of_mem_pieces (hpieces ▸ ht) hc
        have hbegin : ∀ c ∈ blanks ++ ['-', '>'], c ≠ sep := by
          intro c hc
          rcases List.mem_append.1 hc with hc | hc
          · exact ne_of_isBlank (hblanks c hc) hblank
          · simp only [List.mem_cons, List.not_mem_nil, or_false] at hc
            rcases hc with rfl | rfl
            · exact hminus.symm
            · exact hgreater.symm
        have hwhole : blanks ++ '-' :: '>' :: rest = (blanks ++ ['-', '>']) ++ rest := by simp
        rw [hwhole, pieces_append hbegin hpieces] at hpiece
        rcases List.mem_cons.1 hpiece with rfl | hpiece
        · exact Or.inr ⟨blanks, first, by simp, hblanks, hpart List.mem_cons_self⟩
        · exact Or.inl (hpart (List.mem_cons_of_mem _ hpiece))

/-- A comparison of plain texts is direct. -/
theorem Condition.direct_ofComparison {s : List Char} (h : Signless s ∨ Arrowed s) :
    (Condition.ofComparison s).Direct := by
  unfold Condition.ofComparison
  split
  · trivial
  · rename_i left op right hcut
    split
    · trivial
    · rcases h with hsignless | ⟨blanks, rest, rfl, hblanks, hrest⟩
      · obtain ⟨hleft, hright⟩ := mem_of_cutComparator hcut
        exact ⟨Expr.direct_ofText_of_signless (hsignless.mono hleft),
          Expr.direct_ofText_of_signless (hsignless.mono hright)⟩
      · rw [cutComparator?_arrowed hblanks] at hcut
        cases hcut
        refine ⟨?_, Expr.direct_ofText_of_signless hrest⟩
        rw [Expr.ofText_lone_minus hblanks]
        rfl

/-- **The condition of a plain text is direct.** -/
theorem Condition.direct_ofText {s : List Char} (h : isPlain s = true) :
    (Condition.ofText s).Direct := by
  refine Condition.all_of_forall trivial (fun _ _ => And.intro)
    (List.forall_mem_map.2 fun group hgroup => ?_)
  refine Condition.any_of_forall trivial (fun _ _ => And.intro)
    (List.forall_mem_map.2 fun part hpart => ?_)
  apply Condition.direct_ofComparison
  have hgroup' := signless_or_arrowed_of_mem_pieces rfl (by decide) (by decide)
    (signless_or_arrowed h) hgroup
  exact signless_or_arrowed_of_mem_pieces rfl (by decide) (by decide) hgroup' hpart

end DronePilot.Plan
