import DronePilot.Proofs.Padding
import DronePilot.Proofs.Quotation
import Mathlib.Data.List.Infix

/-!
# Arguments joined by commas

The arguments of a call are written one after the other with commas between them, and white space
may stand around each of them.  An argument can be a call itself, with commas and brackets of its
own: the reader tells the commas apart by the brackets that are open.

* `splitArgumentsFrom_append` — a stretch of text without a dividing comma goes to the argument under
  way as a whole.
* `IsArgument.passes` — an argument is such a stretch, and closes the brackets that it opens.
* `splitArguments_inverts_joining` — cutting the joined text gives the arguments back.
-/

namespace DronePilot.Plan

open DronePilot.Text

/-! ### What can be joined -/

/-- A text that can stand between the commas: it is trimmed, every bracket in it is matched, and its
commas stand inside brackets. -/
structure IsArgument (a : List Char) : Prop where
  nonempty : a ≠ []
  first : ∀ c, a.head? = some c → isBlank c = false
  last : ∀ c, a.getLast? = some c → isBlank c = false
  closed : a.count '(' = a.count ')'
  opened : ∀ p, p <+: a → p.count ')' ≤ p.count '('
  inside : ∀ p, p ++ [','] <+: a → p.count ')' < p.count '('

/-- The same, as it can be checked: every beginning is looked at. -/
theorem isArgument_iff {a : List Char} :
    IsArgument a ↔ a ≠ [] ∧ a.head?.any isBlank = false ∧ a.getLast?.any isBlank = false ∧
      a.count '(' = a.count ')' ∧ (∀ p ∈ a.inits, p.count ')' ≤ p.count '(') ∧
      ∀ p ∈ a.inits, p ++ [','] ∈ a.inits → p.count ')' < p.count '(' := by
  simp only [List.mem_inits]
  constructor
  · intro h
    refine ⟨h.nonempty, ?_, ?_, h.closed, h.opened, fun p _ hp => h.inside p hp⟩
    · cases hfirst : a.head? with
      | none => rfl
      | some c => exact h.first c hfirst
    · cases hlast : a.getLast? with
      | none => rfl
      | some c => exact h.last c hlast
  · rintro ⟨hne, hfirst, hlast, hclosed, hopened, hinside⟩
    refine ⟨hne, ?_, ?_, hclosed, hopened, ?_⟩
    · intro c hc
      simpa [hc] using hfirst
    · intro c hc
      simpa [hc] using hlast
    · intro p hp
      exact hinside p ((List.prefix_append p [',']).trans hp) hp

instance (a : List Char) : Decidable (IsArgument a) :=
  decidable_of_iff _ isArgument_iff.symm

/-- A text and the same text with white space around it. -/
def Pads (a padded : List Char) : Prop :=
  ∃ lead trail, (∀ c ∈ lead, isBlank c = true) ∧ (∀ c ∈ trail, isBlank c = true) ∧
    padded = lead ++ a ++ trail

/-! ### Passing over a stretch of text -/

/-- The depth behind a text counts its brackets. -/
theorem foldl_bracketDepth (depth : Int) (s : List Char) :
    s.foldl bracketDepth depth = depth + s.count '(' - s.count ')' := by
  induction s generalizing depth with
  | nil => simp
  | cons c s ih =>
      rw [List.foldl_cons, ih, List.count_cons, List.count_cons, bracketDepth]
      by_cases hopen : c = '('
      · subst hopen
        simp
        omega
      · by_cases hclose : c = ')'
        · subst hclose
          simp
          omega
        · simp [hopen, hclose]

/-- **A stretch without a dividing comma** goes to the argument under way. -/
theorem splitArgumentsFrom_append {depth : Int} {s : List Char}
    (hs : ∀ p, p ++ [','] <+: s → p.foldl bracketDepth depth ≠ 0) (argument t : List Char) :
    splitArgumentsFrom depth argument (s ++ t) =
      splitArgumentsFrom (s.foldl bracketDepth depth) (argument ++ s) t := by
  -- The depth changes with every character, so the condition on the commas moves along with it.
  induction s generalizing depth argument with
  | nil => simp
  | cons c s ih =>
      have hfirst : c = ',' → depth ≠ 0 := by
        rintro rfl
        exact hs [] (List.prefix_append [','] s)
      have hrest : ∀ p, p ++ [','] <+: s → p.foldl bracketDepth (bracketDepth depth c) ≠ 0 := by
        intro p hp
        exact hs (c :: p) (List.cons_prefix_cons.2 ⟨rfl, hp⟩)
      rw [List.cons_append, splitArgumentsFrom_cons hfirst, ih hrest, List.append_assoc,
        List.singleton_append, List.foldl_cons]

/-- White space goes to the argument under way and opens nothing. -/
theorem splitArgumentsFrom_blank {b : List Char} (hb : ∀ c ∈ b, isBlank c = true)
    (argument t : List Char) :
    splitArgumentsFrom 0 argument (b ++ t) = splitArgumentsFrom 0 (argument ++ b) t := by
  have hnone {x : Char} (hx : isBlank x = false) : x ∉ b :=
    fun hmem => ne_of_isBlank (hb x hmem) hx rfl
  have hcomma : ∀ p, p ++ [','] <+: b → p.foldl bracketDepth 0 ≠ 0 := by
    intro p hp
    exact absurd (hp.subset (by simp)) (hnone (x := ',') rfl)
  rw [splitArgumentsFrom_append hcomma, foldl_bracketDepth,
    List.count_eq_zero.2 (hnone (x := '(') rfl), List.count_eq_zero.2 (hnone (x := ')') rfl)]
  rfl

/-- An argument goes to the argument under way, and all its brackets are closed behind it. -/
theorem IsArgument.passes {a : List Char} (h : IsArgument a) (argument t : List Char) :
    splitArgumentsFrom 0 argument (a ++ t) = splitArgumentsFrom 0 (argument ++ a) t := by
  have hcomma : ∀ p, p ++ [','] <+: a → p.foldl bracketDepth 0 ≠ 0 := by
    intro p hp
    have hinside := h.inside p hp
    rw [foldl_bracketDepth]
    omega
  have hdepth : a.foldl bracketDepth 0 = 0 := by
    have hclosed := h.closed
    rw [foldl_bracketDepth]
    omega
  rw [splitArgumentsFrom_append hcomma, hdepth]

/-! ### Padded arguments -/

variable {a padded : List Char}

theorem IsArgument.trim_padded (h : IsArgument a) (hpads : Pads a padded) : trim padded = a := by
  obtain ⟨lead, trail, hlead, htrail, rfl⟩ := hpads
  rw [trim, trimWhere_append_right htrail, trimWhere_append_left hlead]
  exact trim_eq_self h.first h.last

theorem IsArgument.padded_ne_nil (h : IsArgument a) (hpads : Pads a padded) : padded ≠ [] := by
  rintro rfl
  exact h.nonempty (h.trim_padded hpads).symm

theorem IsArgument.passes_padded (h : IsArgument a) (hpads : Pads a padded)
    (argument t : List Char) :
    splitArgumentsFrom 0 argument (padded ++ t) = splitArgumentsFrom 0 (argument ++ padded) t := by
  obtain ⟨lead, trail, hlead, htrail, rfl⟩ := hpads
  rw [List.append_assoc, List.append_assoc, splitArgumentsFrom_blank hlead, h.passes,
    splitArgumentsFrom_blank htrail]
  simp

/-- The last argument ends with the text. -/
theorem IsArgument.split_last (h : IsArgument a) (hpads : Pads a padded) :
    splitArgumentsFrom 0 [] padded = [a] := by
  have hpass := h.passes_padded hpads [] []
  rw [List.append_nil, List.nil_append] at hpass
  rw [hpass, splitArgumentsFrom, if_neg (by simpa using h.padded_ne_nil hpads),
    h.trim_padded hpads]

/-- Any other one ends at the comma behind it. -/
theorem IsArgument.split_cons (h : IsArgument a) (hpads : Pads a padded) (t : List Char) :
    splitArgumentsFrom 0 [] (padded ++ ',' :: t) = a :: splitArgumentsFrom 0 [] t := by
  rw [h.passes_padded hpads, List.nil_append, splitArgumentsFrom, if_pos (by simp),
    h.trim_padded hpads]

/-- The scan gives joined arguments back, one after the other. -/
theorem splitArgumentsFrom_glue {args texts : List (List Char)} (hne : args ≠ [])
    (hargs : ∀ a ∈ args, IsArgument a) (hpads : List.Forall₂ Pads args texts) :
    splitArgumentsFrom 0 [] (glue ',' texts) = args := by
  induction hpads with
  | nil => exact absurd rfl hne
  | @cons a text args texts hfirst hrest ih =>
      obtain ⟨ha, hargs⟩ := List.forall_mem_cons.1 hargs
      cases hrest with
      | nil => exact ha.split_last hfirst
      | @cons b next args texts hsecond hlater =>
          change splitArgumentsFrom 0 [] (text ++ ',' :: glue ',' (next :: texts)) = _
          rw [ha.split_cons hfirst, ih (List.cons_ne_nil b args) hargs]

/-- **Cutting an argument list inverts joining it.**  Take any list of arguments that is not empty:
trimmed texts, not empty either, with matched brackets and no comma outside them.  Write white space
around them at will and join them by commas.  Unless the joined text begins and ends with a single
quotation mark, cutting it gives the arguments back; a text that does begin and end so is one
argument, whatever is in it. -/
theorem splitArguments_inverts_joining {args texts : List (List Char)} (hne : args ≠ [])
    (hargs : ∀ a ∈ args, IsArgument a) (hpads : List.Forall₂ Pads args texts) :
    (¬((glue ',' texts).head? = some '\'' ∧ (glue ',' texts).getLast? = some '\'') →
      splitArguments (glue ',' texts) = args) ∧
    ∀ text : List Char, text.head? = some '\'' → text.getLast? = some '\'' →
      splitArguments text = [text] := by
  constructor
  · intro hquoted
    have hbare : ¬isSingleQuoted (glue ',' texts) = true := by
      simpa [isSingleQuoted] using hquoted
    rw [splitArguments, if_neg hbare]
    exact splitArgumentsFrom_glue hne hargs hpads
  · intro text hfirst hlast
    rw [splitArguments, if_pos (by simp [isSingleQuoted, hfirst, hlast])]

/-- A quoted argument, a call of calls and a variable. -/
def nestedArguments : List (List Char) :=
  ["'x'".toList, "f(1, g(2,3))".toList, "_n".toList]

/-- Arguments with brackets in them are split where they were joined, and what stands between
quotation marks is one argument. -/
theorem splitArguments_inverts_joining_nested :
    nestedArguments ≠ [] ∧ (∀ a ∈ nestedArguments, IsArgument a) ∧
    List.Forall₂ Pads nestedArguments ["'x' ".toList, "f(1, g(2,3))".toList, "  _n".toList] ∧
    splitArguments "'x' ,f(1, g(2,3)),  _n".toList = nestedArguments ∧
    splitArguments "'x', y'".toList = ["'x', y'".toList] := by
  have hargs : ∀ a ∈ nestedArguments, IsArgument a := by decide
  have hpads : List.Forall₂ Pads nestedArguments
      ["'x' ".toList, "f(1, g(2,3))".toList, "  _n".toList] :=
    .cons ⟨[], [' '], blanks_nil.isBlank, Blanks.isBlank (by decide), rfl⟩
      (.cons ⟨[], [], blanks_nil.isBlank, blanks_nil.isBlank, rfl⟩
        (.cons ⟨[' ', ' '], [], Blanks.isBlank (by decide), blanks_nil.isBlank, rfl⟩ .nil))
  obtain ⟨hsplit, hquoted⟩ := splitArguments_inverts_joining (by decide) hargs hpads
  exact ⟨by decide, hargs, hpads, hsplit (by decide), hquoted _ rfl rfl⟩

end DronePilot.Plan
