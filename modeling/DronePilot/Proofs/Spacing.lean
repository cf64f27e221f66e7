import DronePilot.Proofs.Grammar
import DronePilot.Proofs.Padding

/-!
# Plans with blanks between their parts

`Spaced` relates the text of a plan, as the grammar writes it, to the same text with spaces and line
ends put between its parts: before and behind every mark, behind a closing bracket, behind an
opening brace, before and behind a closing one, around the equals sign of an assignment and around
the comparators of a condition.

The reader takes every character for a part of some statement.  Blanks become a part of the
statement that follows them, or of the one that they end, and there they do not count.  Only where
no statement is under way and none follows, between the end of a statement or an opening brace and a
mark or a closing brace, do they become a statement of their own.  A `Leeway` says whether such
blanks are allowed, and whether blanks are allowed before an equals sign.

`Spaced.reads` says what a spaced text is read as: statements that stand for the same as those of
the plan (`Loosens`), with statements of blanks among them if the leeway allows them.
-/

namespace DronePilot.Plan

open DronePilot.Text DronePilot.Decimal

/-- Where blanks may stand although they count there. -/
structure Leeway where
  /-- Alone before a mark or a closing brace, with no statement under way. -/
  alone : Bool
  /-- Before the equals sign of an assignment. -/
  beforeSign : Bool

/-- Blanks stand only where they do not count. -/
def Leeway.strict : Leeway := { alone := false, beforeSign := false }

/-- The text of an action with blanks around its equals sign. -/
inductive ActionText.Respaced (leeway : Leeway) (a : ActionText) : List Char → Prop
  | same : Respaced leeway a a.text.toList
  | assigned {x e b b' : List Char} (htext : a.text.toList = x ++ '=' :: e)
      (hx : isAssignable x = true) (he : '=' ∉ e) (hb : Blanks b) (hb' : Blanks b')
      (hleeway : b ≠ [] → leeway.beforeSign = true) :
      Respaced leeway a (x ++ b ++ '=' :: (b' ++ e))

/-- A heading with blanks around its comparators. -/
inductive Heading.Respaced : Heading → List Char → Prop
  | loop (n : LoopCount) : Respaced (.loop n) (toString n.count).toList
  | conditional (c : ConditionText) {s : List Char} (h : ConditionSpaced c.text.toList s) :
      Respaced (.conditional c) ('?' :: s)

/-- `Spaced leeway closing trees text text'`: the first text is one way to write the trees, and the
second one is that text with blanks between its parts.  The flag says that a closing brace
follows. -/
inductive Spaced (leeway : Leeway) : Bool → List Tree → List Char → List Char → Prop
  | none {closing : Bool} {gap : List Char} (hgap : Blanks gap)
      (halone : closing = true → gap ≠ [] → leeway.alone = true) : Spaced leeway closing [] [] gap
  | action {closing : Bool} {rest : List Tree} {text text' lead body trail : List Char}
      (a : ActionText) (hlead : Blanks lead) (hbody : a.Respaced leeway body)
      (htrail : Blanks trail)
      (halone : a.text.toList.getLast? = some ')' → trail ≠ [] → leeway.alone = true)
      (h : Spaced leeway closing rest text text') :
      Spaced leeway closing (.action a :: rest) (a.text.toList ++ ';' :: text)
        (lead ++ body ++ trail ++ ';' :: text')
  | call {closing : Bool} {rest : List Tree} {text text' lead body : List Char} (a : ActionText)
      (hcall : a.text.toList.getLast? = some ')') (hlead : Blanks lead)
      (hbody : a.Respaced leeway body) (h : Spaced leeway closing rest text text') :
      Spaced leeway closing (.action a :: rest) (a.text.toList ++ text) (lead ++ body ++ text')
  | last {lead body trail : List Char} (a : ActionText) (hlead : Blanks lead)
      (hbody : a.Respaced leeway body) (htrail : Blanks trail)
      (halone : a.text.toList.getLast? = some ')' → trail ≠ [] → leeway.alone = true) :
      Spaced leeway true [.action a] a.text.toList (lead ++ body ++ trail)
  | block {closing : Bool} {body rest : List Tree}
      {inner inner' text text' lead opening : List Char} (heading : Heading) (hlead : Blanks lead)
      (hopening : heading.Respaced opening) (hbody : Spaced leeway true body inner inner')
      (h : Spaced leeway closing rest text text') :
      Spaced leeway closing (.block heading body :: rest)
        (heading.chars ++ '{' :: (inner ++ '}' :: text))
        (lead ++ opening ++ '{' :: (inner' ++ '}' :: text'))
  | blockMarked {closing : Bool} {body rest : List Tree}
      {inner inner' text text' lead opening gap : List Char} (heading : Heading)
      (hlead : Blanks lead) (hopening : heading.Respaced opening)
      (hbody : Spaced leeway true body inner inner') (hgap : Blanks gap)
      (halone : gap ≠ [] → leeway.alone = true) (h : Spaced leeway closing rest text text') :
      Spaced leeway closing (.block heading body :: rest)
        (heading.chars ++ '{' :: (inner ++ '}' :: ';' :: text))
        (lead ++ opening ++ '{' :: (inner' ++ '}' :: (gap ++ ';' :: text')))

/-- The text without blanks is a way to write the trees. -/
theorem Spaced.written {leeway : Leeway} {closing : Bool} {trees : List Tree}
    {text text' : List Char} (h : Spaced leeway closing trees text text') :
    Written closing trees text := by
  induction h with
  | none => exact .none _
  | action a _ _ _ _ _ ih => exact .action a ih
  | call a hcall _ _ _ ih => exact .call a hcall ih
  | last a => exact .last a
  | block heading _ _ _ _ ihbody ih => exact .block heading ihbody ih
  | blockMarked heading _ _ _ _ _ _ ihbody ih => exact .blockMarked heading ihbody ih

/-! ### Actions -/

namespace Loose

variable {s t : List Char}

/-- What stands behind something still does. -/
theorem behind (h : Loose s t) {p q : Char → Bool} (hspace : p ' ' = false) (hline : p '\n' = false)
    (hs : Behind p q s) : Behind p q t := by
  -- A character seen among the blanks can only help.
  have hscan : ∀ seen seen' : Bool, (seen = true → seen' = true) → isBehind p q seen s = true →
      isBehind p q seen' t = true := by
    clear hs
    induction h with
    | nil => exact fun _ _ _ _ => rfl
    | keep c _ ih =>
        intro seen seen' hseen hs
        rw [isBehind, Bool.and_eq_true] at hs ⊢
        refine ⟨?_, ih _ _ ?_ hs.2⟩
        · cases hp : p c with
          | false => rfl
          | true => simpa [hp] using hseen (by simpa [hp] using hs.1)
        · intro hor
          rcases Bool.or_eq_true _ _ ▸ hor with hor | hor
          · rw [hseen hor, Bool.true_or]
          · rw [hor, Bool.or_true]
    | @blank s t c hc _ ih =>
        intro seen seen' hseen hs
        have hp : p c = false := by
          rcases hc with rfl | rfl
          · exact hspace
          · exact hline
        rw [isBehind, hp, Bool.not_false, Bool.true_or, Bool.true_and]
        exact ih seen _ (fun h => by rw [hseen h, Bool.true_or]) hs
  have hbehind : isBehind p q false t = true :=
    hscan false false id ((isBehind_iff p q false s).2 fun before c after heq hp =>
      Or.inr (hs before c after heq hp))
  intro before c after heq hp
  exact ((isBehind_iff p q false t).1 hbehind before c after heq hp).resolve_left (by simp)

/-- Loosening leaves the number of every other character. -/
theorem count (h : Loose s t) {c : Char} (hc : isBlank c = false) : t.count c = s.count c := by
  induction h with
  | nil => rfl
  | keep x _ ih => rw [List.count_cons, List.count_cons, ih]
  | blank hx _ ih =>
      rw [List.count_cons_of_ne, ih]
      rcases hx with rfl | rfl <;> exact (ne_of_isBlank rfl hc)

/-- A closing bracket that only may be the last character stays so if it stays the last one. -/
theorem bracket_last (h : Loose s t) (hs : ')' ∉ s.dropLast)
    (hlast : s.getLast? = some ')' → t.getLast? = some ')') : ')' ∉ t.dropLast := by
  have hcount := h.count (c := ')') (by decide)
  cases hend : s.getLast? with
  | none =>
      rw [List.getLast?_eq_none_iff] at hend
      rw [hend, List.count_nil, List.count_eq_zero] at hcount
      exact fun hmem => hcount ((List.dropLast_sublist _).subset hmem)
  | some x =>
      rw [← List.dropLast_append_getLast? x hend, List.count_append,
        List.count_eq_zero.2 hs, Nat.zero_add] at hcount
      by_cases hx : x = ')'
      · rw [hx] at hend hcount
        rw [← List.dropLast_append_getLast? ')' (hlast hend), List.count_append] at hcount
        exact List.count_eq_zero.1 (by simpa using hcount)
      · have hnone : List.count ')' [x] = 0 := List.count_eq_zero.2 (by simpa using Ne.symm hx)
        rw [hnone, List.count_eq_zero] at hcount
        exact fun hmem => hcount ((List.dropLast_sublist _).subset hmem)

/-- Without spaces and line breaks, nothing has been put in. -/
theorem eq_of_unblanked (h : Loose s t) (hspace : ' ' ∉ t) (hline : '\n' ∉ t) : s = t := by
  induction h with
  | nil => rfl
  | keep c _ ih =>
      rw [List.mem_cons, not_or] at hspace hline
      rw [ih hspace.2 hline.2]
  | blank hc _ _ =>
      rcases hc with rfl | rfl
      · exact absurd List.mem_cons_self hspace
      · exact absurd List.mem_cons_self hline

end Loose

/-- The action with more blanks in its text. -/
def ActionText.loosened (a : ActionText) {t : List Char} (h : Loose a.text.toList t)
    (hlast : a.text.toList.getLast? = some ')' → t.getLast? = some ')') : ActionText where
  text := String.ofList t
  nonempty := by
    rw [String.toList_ofList]
    rintro rfl
    cases hs : a.text.toList with
    | nil => exact a.nonempty hs
    | cons c s =>
        rw [hs] at h
        cases h
  unmarked := by
    intro c hc
    rw [String.toList_ofList] at hc
    rcases h.mem hc with hc | rfl | rfl
    · exact a.unmarked c hc
    · decide
    · decide
  bracket_last := by
    rw [String.toList_ofList]
    exact h.bracket_last a.bracket_last hlast
  question_inside := by
    rw [String.toList_ofList]
    exact h.behind rfl rfl a.question_inside
  digit_named := by
    rw [String.toList_ofList]
    exact h.behind rfl rfl a.digit_named
  no_block_word := by
    rw [Bool.eq_false_iff]
    intro hword
    have hsame : a.text.toList = t := by
      simp only [isBlockWord, Bool.or_eq_true, beq_iff_eq] at hword
      rcases hword with hword | hword
      · have ht : t = "if".toList := by rw [← hword, String.toList_ofList]
        exact h.eq_of_unblanked (by rw [ht]; decide) (by rw [ht]; decide)
      · have ht : t = "loop".toList := by rw [← hword, String.toList_ofList]
        exact h.eq_of_unblanked (by rw [ht]; decide) (by rw [ht]; decide)
    rw [← hsame, String.ofList_toList, a.no_block_word] at hword
    cases hword

/-- An action that is loosened is an action, if its last bracket stays last. -/
theorem ActionText.exists_loosened (a : ActionText) {t : List Char} (h : Loose a.text.toList t)
    (hlast : a.text.toList.getLast? = some ')' → t.getLast? = some ')') :
    ∃ a' : ActionText, a'.text.toList = t :=
  ⟨a.loosened h hlast, String.toList_ofList⟩

namespace ActionText.Respaced

variable {leeway : Leeway} {a : ActionText} {body lead trail : List Char}

/-- Spacing an action loosens it. -/
theorem loose (h : a.Respaced leeway body) : Loose a.text.toList body := by
  cases h with
  | same => exact .refl _
  | @assigned x e b b' htext hx he hb hb' hleeway =>
      have hname := (Loose.refl x).append (Loose.of_blanks hb)
      have hvalue := (Loose.of_blanks hb').append (Loose.refl e)
      rw [htext]
      simpa using hname.append (.keep '=' hvalue)

/-- The bracket at the end of a call stays at the end. -/
theorem getLast? (h : a.Respaced leeway body) (hcall : a.text.toList.getLast? = some ')') :
    body.getLast? = some ')' := by
  cases h with
  | same => exact hcall
  | @assigned x e b b' htext hx he hb hb' hleeway =>
      rw [htext, List.getLast?_append_of_ne_nil _ (List.cons_ne_nil _ _)] at hcall
      cases e with
      | nil => cases hcall
      | cons c e =>
          rw [List.getLast?_append_of_ne_nil _ (List.cons_ne_nil _ _), ← List.cons_append,
            List.getLast?_append_of_ne_nil _ (List.cons_ne_nil _ _)]
          simpa using hcall

/-- The action stands for the same, unless there are blanks before its equals sign. -/
theorem ofText (h : a.Respaced leeway body) (hleeway : leeway.beforeSign = false)
    (hlead : Blanks lead) (htrail : Blanks trail) :
    Expr.ofText (lead ++ body ++ trail) = Expr.ofText a.text.toList := by
  rw [Expr.ofText_padded hlead htrail]
  cases h with
  | same => rfl
  | @assigned x e b b' htext hx he hb hb' hallowed =>
      have hnone : b = [] := by
        refine Decidable.byContradiction fun hne => ?_
        rw [hallowed hne] at hleeway
        cases hleeway
      have hwritten := Expr.ofText_assigned hx he blanks_nil blanks_nil
      simp only [List.append_nil, List.nil_append] at hwritten
      rw [htext, hwritten, hnone, List.append_nil]
      simpa using Expr.ofText_assigned hx he blanks_nil hb'

end ActionText.Respaced

/-! ### What blanks are read as -/

/-- Blanks that stand alone are read as code. -/
theorem Body.feed_blanks {p : Program} (hp : p.current = .fresh) {b : List Char} (hb : Blanks b) :
    p.feed b = ({ p with current := .code (.ofChars b) }, .more) := by
  have hbehind : ∀ q r : Char → Bool, q ' ' = false → q '\n' = false → Behind q r b := by
    intro q r hspace hline
    exact (Loose.of_blanks hb).behind hspace hline (by intro before c after h; simp at h)
  refine Body.feed_code_fresh hp (fun c hc => ?_) (hbehind _ _ rfl rfl) (hbehind _ _ rfl rfl)
  exact ⟨hb.ne hc (by decide), hb.ne hc (by decide), hb.ne hc (by decide), hb.ne hc (by decide)⟩

/-- Blanks alone are a statement, if there are any. -/
theorem ReadsAs.blanks {gap : List Char} (hgap : Blanks gap) :
    ReadsAs true gap (Draft.ofChars gap).kept := by
  intro p hp
  exact ⟨[], .ofChars gap, by rw [Body.feed_blanks hp hgap]; simp, rfl, by simp⟩

/-- Whatever was read is kept as an action. -/
theorem Draft.kept_ofChars {cs : List Char} (h : cs ≠ []) :
    (Draft.ofChars cs).kept = [.action (.ofChars cs)] := by
  simp [Draft.kept, Draft.ofChars, h]

/-- `Loosens leeway statements statements'`: the second statements stand for the same as the first
ones, but for statements of blanks among them. -/
inductive Loosens (leeway : Leeway) : List Statement → List Statement → Prop
  | none : Loosens leeway [] []
  | blank {d : Draft} {xs ys : List Statement} (halone : leeway.alone = true)
      (hd : Blanks d.text.toList) (h : Loosens leeway xs ys) : Loosens leeway xs (.action d :: ys)
  | action {d d' : Draft} {xs ys : List Statement} (hword : isBlockWord d.text = false)
      (hword' : isBlockWord d'.text = false)
      (hexpr : leeway.beforeSign = false →
        Expr.ofText d'.text.toList = Expr.ofText d.text.toList)
      (h : Loosens leeway xs ys) : Loosens leeway (.action d :: xs) (.action d' :: ys)
  | block {d d' : Draft} {head : Head} {body body' xs ys : List Statement}
      (hcondition : head = .conditional →
        Condition.ofText d'.text.toList = Condition.ofText d.text.toList)
      (hbody : Loosens leeway body body') (h : Loosens leeway xs ys) :
      Loosens leeway (.block d head (.complete body) :: xs)
        (.block d' head (.complete body') :: ys)

/-- Blanks alone add an action that is nothing but blanks. -/
theorem Loosens.gap {leeway : Leeway} {xs ys : List Statement} (h : Loosens leeway xs ys)
    {gap : List Char} (hgap : Blanks gap) (halone : gap ≠ [] → leeway.alone = true) :
    Loosens leeway xs ((Draft.ofChars gap).kept ++ ys) := by
  cases gap with
  | nil => exact h
  | cons c gap =>
      rw [Draft.kept_ofChars (List.cons_ne_nil _ _)]
      refine .blank (halone (List.cons_ne_nil _ _)) ?_ h
      rw [Draft.ofChars, String.toList_ofList]
      exact hgap

namespace ActionText.Respaced

variable {leeway : Leeway} {a : ActionText} {body lead trail : List Char} {xs ys : List Statement}

/-- An action that is read from the spaced text stands for the same. -/
theorem loosens (h : a.Respaced leeway body) (hlead : Blanks lead) (htrail : Blanks trail)
    {a' : ActionText} (ha' : a'.text.toList = lead ++ body ++ trail)
    (hrest : Loosens leeway xs ys) :
    Loosens leeway (.action a.draft :: xs) (.action a'.draft :: ys) := by
  refine .action a.no_block_word a'.no_block_word (fun hleeway => ?_) hrest
  change Expr.ofText a'.text.toList = Expr.ofText a.text.toList
  rw [ha', h.ofText hleeway hlead htrail]

/-- A spaced action that ends in a closing bracket is complete with it. -/
theorem reads_call (h : a.Respaced leeway body) (hlead : Blanks lead)
    (hcall : a.text.toList.getLast? = some ')') :
    ∃ a' : ActionText, a'.text.toList = lead ++ body ∧
      ReadsAs false (lead ++ body) [.action a'.draft] := by
  have hlast : (lead ++ body).getLast? = some ')' := by
    rw [List.getLast?_append, h.getLast? hcall, Option.some_or]
  have hloose := h.loose.padded hlead blanks_nil
  rw [List.append_nil] at hloose
  obtain ⟨a', ha'⟩ := a.exists_loosened hloose fun _ => hlast
  have hread := ReadsAs.call a' (by rw [ha']; exact hlast)
  rw [ha'] at hread
  exact ⟨a', ha', hread⟩

/-- **Actions.**  A spaced action is read as an action that stands for the same.  Blanks behind its
closing bracket are read as a statement of their own. -/
theorem reads (h : a.Respaced leeway body) (hlead : Blanks lead) (htrail : Blanks trail)
    (halone : a.text.toList.getLast? = some ')' → trail ≠ [] → leeway.alone = true) :
    ∃ statements, ReadsAs true (lead ++ body ++ trail) statements ∧
      ∀ {xs ys : List Statement}, Loosens leeway xs ys →
        Loosens leeway (.action a.draft :: xs) (statements ++ ys) := by
  by_cases hcall : a.text.toList.getLast? = some ')'
  · obtain ⟨a', ha', hread⟩ := h.reads_call hlead hcall
    refine ⟨_, hread.append (ReadsAs.blanks htrail), fun hrest => ?_⟩
    exact h.loosens hlead blanks_nil (by rw [ha', List.append_nil])
      (hrest.gap htrail (halone hcall))
  · obtain ⟨a', ha'⟩ := a.exists_loosened (h.loose.padded hlead htrail) fun hlast =>
      absurd hlast hcall
    have hread := ReadsAs.action a'
    rw [ha'] at hread
    exact ⟨_, hread, fun hrest => h.loosens hlead htrail ha' hrest⟩

end ActionText.Respaced

/-! ### Headings -/

/-- **Headings.**  A spaced heading and an opening brace lead into the body of a block with the same
loop count, or with a condition that stands for the same. -/
theorem Heading.Respaced.opens {heading : Heading} {lead opening : List Char}
    (h : heading.Respaced opening) (hlead : Blanks lead) :
    ∃ d : Draft, (∀ p : Program, p.current = .fresh →
        p.feed (lead ++ opening ++ ['{']) = (p.enclosing d heading.head Body.fresh, .more)) ∧
      (heading.head = .conditional →
        Condition.ofText d.text.toList = Condition.ofText heading.draft.text.toList) := by
  have hunnamed : ∀ x ∈ lead, isNaming x = false := by
    intro x hx
    rcases hlead x hx with rfl | rfl <;> decide
  cases h with
  | loop n =>
      refine ⟨{ text := String.ofList (lead ++ (toString n.count).toList) }, ?_, nofun⟩
      intro p hp
      have hcount := Body.feed_loopCount (p := { p with current := .code (.ofChars lead) }) rfl
        hunnamed (hlead.not_mem (by decide)) n
      rw [List.append_assoc, Body.feed_append_of_more (Body.feed_blanks hp hlead)]
      refine (Body.feed_append_of_more hcount ['{']).trans (Body.feed_opening ?_)
      rw [Statement.step, if_pos rfl, String.toList_ofList, wholeLiteral_indented hlead,
        wholeLiteral_toString n.short]
      rfl
  | @conditional c s hspaced =>
      refine ⟨{ text := String.ofList (lead ++ s) }, ?_, fun _ => ?_⟩
      · intro p hp
        have hdraft : Draft.ofChars lead = { text := String.ofList lead } := by
          have hbracket : '(' ∉ lead := hlead.not_mem (by decide)
          simpa [Draft.ofChars, hbracket] using hunnamed
        have hfirst : Statement.step (.code (.ofChars lead)) '?' =
            .ok (Statement.continuing (.condition { text := String.ofList lead })) := by
          rw [hdraft]
          rfl
        have hunbraced : ∀ x ∈ s, x ≠ '{' ∧ x ≠ '}' := by
          intro x hx
          rcases hspaced.loose.mem hx with hx | rfl | rfl
          · exact c.unbraced x hx
          · decide
          · decide
        have hrest := Body.feed_extending Statement.condition
          (fun d c hc => by rw [Statement.step, if_neg hc]) p { text := String.ofList lead } s
          hunbraced
        simp only [← String.ofList_append] at hrest
        rw [List.append_assoc, Body.feed_append_of_more (Body.feed_blanks hp hlead),
          List.cons_append,
          Body.feed_cons_of_step (Body.step_unbraced hfirst (by decide) (by decide)) rfl]
        exact (Body.feed_append_of_more hrest ['{']).trans (Body.feed_opening rfl)
      · rw [String.toList_ofList, Condition.ofText_indented hlead, Condition.ofText_spaced hspaced]
        rfl

/-- What a spaced text is read as: the statements of the trees, as far as blanks do not count.  Only
at the end of a plan may some blanks be left under way, and they are no statement. -/
def SpacedReading (leeway : Leeway) (closing : Bool) (trees : List Tree) (text : List Char) :
    Prop :=
  ∃ statements before gap, text = before ++ gap ∧ Blanks gap ∧ (closing = true → gap = []) ∧
    ReadsAs closing before statements ∧ Loosens leeway (Tree.statements trees) statements

/-- **Blocks.**  A spaced heading and a body between braces are read as one block. -/
theorem Heading.Respaced.reads {leeway : Leeway} {heading : Heading}
    {lead opening inner : List Char} {body : List Tree} (h : heading.Respaced opening)
    (hlead : Blanks lead) (hbody : SpacedReading leeway true body inner) :
    ∃ d statements, (heading.head = .conditional →
        Condition.ofText d.text.toList = Condition.ofText heading.draft.text.toList) ∧
      Loosens leeway (Tree.statements body) statements ∧
      ReadsAs false (lead ++ opening ++ '{' :: (inner ++ ['}']))
        [.block d heading.head (.complete statements)] := by
  obtain ⟨statements, before, gap, rfl, -, hgap, hread, hloosens⟩ := hbody
  obtain ⟨d, hfeed, hcondition⟩ := h.opens hlead
  rw [hgap rfl, List.append_nil]
  exact ⟨d, statements, hcondition, hloosens, .enclosed hfeed hread⟩

/-- **Every spaced text reads as its trees.** -/
theorem Spaced.reads {leeway : Leeway} {closing : Bool} {trees : List Tree}
    {text text' : List Char} (h : Spaced leeway closing trees text text') :
    SpacedReading leeway closing trees text' := by
  induction h with
  | @none closing gap hgap halone =>
      cases closing with
      | false => exact ⟨[], [], gap, rfl, hgap, nofun, .nil false, .none⟩
      | true =>
          refine ⟨_, gap, [], (List.append_nil _).symm, blanks_nil, fun _ => rfl,
            .blanks hgap, ?_⟩
          simpa [Tree.statements] using Loosens.none.gap hgap (halone rfl)
  | @action closing rest text text' lead body trail a hlead hbody htrail halone _ ih =>
      obtain ⟨ys, before, gap, rfl, hgap, hclosing, hread, hloosens⟩ := ih
      obtain ⟨statements, hfirst, hrest⟩ := hbody.reads hlead htrail halone
      refine ⟨_, _, gap, ?_, hgap, hclosing, hfirst.marked.append hread, hrest hloosens⟩
      simp
  | @call closing rest text text' lead body a hcall hlead hbody _ ih =>
      obtain ⟨ys, before, gap, rfl, hgap, hclosing, hread, hloosens⟩ := ih
      obtain ⟨a', ha', hfirst⟩ := hbody.reads_call hlead hcall
      refine ⟨_, _, gap, ?_, hgap, hclosing, hfirst.append hread, ?_⟩
      · simp
      · exact hbody.loosens hlead blanks_nil (by rw [ha', List.append_nil]) hloosens
  | @last lead body trail a hlead hbody htrail halone =>
      obtain ⟨statements, hfirst, hrest⟩ := hbody.reads hlead htrail halone
      refine ⟨_, _, [], (List.append_nil _).symm, blanks_nil, fun _ => rfl, hfirst, ?_⟩
      simpa [Tree.statements, Tree.statement] using hrest .none
  | @block closing body rest inner inner' text text' lead opening heading hlead hopening _ _ ihbody
      ih =>
      obtain ⟨ys, before, gap, rfl, hgap, hclosing, hread, hloosens⟩ := ih
      obtain ⟨d, body', hcondition, hbody, hblock⟩ := hopening.reads hlead ihbody
      refine ⟨_, _, gap, ?_, hgap, hclosing, hblock.append hread, .block hcondition hbody hloosens⟩
      simp
  | @blockMarked closing body rest inner inner' text text' lead opening behind heading hlead
      hopening _ hbehind halone _ ihbody ih =>
      obtain ⟨ys, before, gap, rfl, hgap, hclosing, hread, hloosens⟩ := ih
      obtain ⟨d, body', hcondition, hbody, hblock⟩ := hopening.reads hlead ihbody
      refine ⟨_, _, gap, ?_, hgap, hclosing,
        (hblock.append (.blanks hbehind)).marked.append hread, ?_⟩
      · simp
      · rw [List.append_assoc]
        exact .block hcondition hbody (hloosens.gap hbehind halone)

end DronePilot.Plan
