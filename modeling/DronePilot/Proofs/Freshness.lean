import DronePilot.Vision.Sight
import Mathlib

/-!
# What is in sight is up to date

The sight decodes each frame once: it notes the time of the frame first and decodes then, and it takes
a frame whose time it has noted for decoded.  So the first refresh after a frame was shared decodes it
to the end, or up to the first report that cannot be decoded, and fails; every later refresh succeeds
and changes nothing.

`Shows` says what a sight ought to hold for a detection result and `ShowsPart` what a failed refresh
leaves.  `stage_after` follows the sight through a run of shared frames and refreshes, some of which
may fail.
-/

namespace DronePilot.Vision

/-! ### Times -/

/-- A number that is less than another one compares as less. -/
theorem compare_eq_lt {x y : Float} (h : x < y) :
    x.toModel.unpack.compare y.toModel.unpack = some .lt :=
  eq_of_beq (of_decide_eq_true h)

/-- A later time is not the same time. -/
theorem beq_eq_false_of_lt {x y : Float} (h : x < y) : (y == x) = false := by
  rw [BEq.comm]
  show (x.toModel.unpack.compare y.toModel.unpack == some .eq) = false
  rw [compare_eq_lt h]
  rfl

/-- A time that is later than another is a number, so it is the same as itself. -/
theorem beq_self_of_lt {x y : Float} (h : x < y) : (y == y) = true := by
  rw [Float.beq_self_iff]
  rintro rfl
  have hlt := compare_eq_lt h
  have hnan : Float.nan.toModel.unpack = .notANumber := rfl
  rw [hnan] at hlt
  generalize x.toModel.unpack = a at hlt
  cases a with
  | notANumber => cases hlt
  | zero s => cases hlt
  | infinity s => cases s <;> cases hlt
  | finite s m e hm => cases s <;> cases hlt

/-! ### What reports show -/

/-- A report shows a sighting: its name, the middle of its box and the differences of the corners. -/
inductive Depicts (report : Document) (s : Sighting) : Prop
  | intro {box : Document} {x1 x2 y1 y2 x y width height : Number}
      (hname : report.field "name" = .ok s.name) (hbox : report.field "box" = .ok box)
      (hx1 : numberField "x1" box = .ok x1) (hx2 : numberField "x2" box = .ok x2)
      (hy1 : numberField "y1" box = .ok y1) (hy2 : numberField "y2" box = .ok y2)
      (hx : midpoint x1 x2 = .ok x) (hy : midpoint y1 y2 = .ok y)
      (hwidth : extent x1 x2 = .ok width) (hheight : extent y1 y2 = .ok height)
      (hsx : x.toFloat = .ok s.x) (hsy : y.toFloat = .ok s.y)
      (hswidth : width.toFloat = .ok s.width) (hsheight : height.toFloat = .ok s.height) :
      Depicts report s

/-- Two fields are read if each of them is. -/
theorem numberFields_eq_ok_iff {first second : String} {d : Document} {a b : Number} :
    numberFields first second d = .ok (a, b) ↔
      numberField first d = .ok a ∧ numberField second d = .ok b := by
  simp only [numberFields, numberField, bind_eq_ok_iff]
  constructor
  · rintro ⟨da, hda, db, hdb, va, hva, vb, hvb, na, hna, nb, hnb, hpair⟩
    obtain ⟨rfl, rfl⟩ := Prod.mk.inj (Except.ok.inj hpair)
    exact ⟨⟨da, hda, va, hva, hna⟩, db, hdb, vb, hvb, hnb⟩
  · rintro ⟨⟨da, hda, va, hva, hna⟩, db, hdb, vb, hvb, hnb⟩
    exact ⟨da, hda, db, hdb, va, hva, vb, hvb, a, hna, b, hnb, rfl⟩

/-- A report depicts a sighting if it is read as a detection that is shown as the sighting. -/
theorem depicts_iff {report : Document} {s : Sighting} :
    Depicts report s ↔ Detection.ofDocument report >>= Detection.toSighting = .ok s := by
  simp only [Detection.ofDocument, Detection.toSighting, bind_eq_ok_iff, Prod.exists,
    numberFields_eq_ok_iff]
  constructor
  · rintro ⟨hname, hbox, hx1, hx2, hy1, hy2, hx, hy, hwidth, hheight, hsx, hsy, hswidth, hsheight⟩
    exact ⟨_, ⟨_, hname, _, hbox, _, _, ⟨hx1, hx2⟩, _, hx, _, _, ⟨hy1, hy2⟩, _, hy, _, hwidth, _,
      hheight, rfl⟩, _, hsx, _, hsy, _, hswidth, _, hsheight, rfl⟩
  · rintro ⟨d, ⟨name, hname, box, hbox, x1, x2, ⟨hx1, hx2⟩, x, hx, y1, y2, ⟨hy1, hy2⟩, y, hy, width,
      hwidth, height, hheight, hd⟩, sx, hsx, sy, hsy, swidth, hswidth, sheight, hsheight, hs⟩
    obtain rfl := Except.ok.inj hd
    obtain rfl := Except.ok.inj hs
    exact ⟨hname, hbox, hx1, hx2, hy1, hy2, hx, hy, hwidth, hheight, hsx, hsy, hswidth, hsheight⟩

/-- The sightings of a detection result: one for each report, in order. -/
def Shows (result : Document) (objects : List Sighting) : Prop :=
  ∃ ds, reports result = .ok ds ∧ List.Forall₂ Depicts ds objects

/-- The sightings of the reports before the first that shows nothing. -/
def ShowsPart (result : Document) (objects : List Sighting) : Prop :=
  (∃ f, reports result = .error f) ∧ objects = [] ∨
    ∃ seen bad rest, reports result = .ok (seen ++ bad :: rest) ∧
      List.Forall₂ Depicts seen objects ∧ ∀ s, ¬Depicts bad s

/-- Every report that takes part depicts something. -/
theorem forall_depicted {ds : List Document} {objects : List Sighting}
    (h : List.Forall₂ Depicts ds objects) : ∀ d ∈ ds, ∃ s, Depicts d s := by
  induction h with
  | nil => simp
  | @cons d s ds objects hd _ ih => simpa using ⟨⟨s, hd⟩, ih⟩

/-- A result that shows only a part shows no whole. -/
theorem ShowsPart.not_shows {result : Document} {objects objects' : List Sighting}
    (h : ShowsPart result objects) : ¬Shows result objects' := by
  rintro ⟨ds, hds, hshows⟩
  obtain ⟨⟨f, hf⟩, -⟩ | ⟨seen, bad, rest, hreports, -, hbad⟩ := h
  · rw [hf] at hds
    cases hds
  · obtain rfl : seen ++ bad :: rest = ds := Except.ok.inj (hreports.symm.trans hds)
    obtain ⟨s, hs⟩ := forall_depicted hshows bad (by simp)
    exact hbad s hs

/-- Decoding goes on to the end, or to the first report that shows nothing. -/
theorem decodeReports_cases (ds : List Document) :
    ((decodeReports ds).2 = .ok () ∧ List.Forall₂ Depicts ds (decodeReports ds).1) ∨
      (∃ f, (decodeReports ds).2 = .error f) ∧ ∃ seen bad rest, ds = seen ++ bad :: rest ∧
        List.Forall₂ Depicts seen (decodeReports ds).1 ∧ ∀ s, ¬Depicts bad s := by
  induction ds with
  | nil => exact .inl ⟨rfl, .nil⟩
  | cons d rest ih =>
      cases hd : Detection.ofDocument d >>= Detection.toSighting with
      | error f =>
          have hnone : ∀ s, ¬Depicts d s := fun s hs => by
            rw [depicts_iff, hd] at hs
            cases hs
          have hstep : decodeReports (d :: rest) = ([], .error f) := by simp only [decodeReports, hd]
          rw [hstep]
          exact .inr ⟨⟨f, rfl⟩, [], d, rest, rfl, .nil, hnone⟩
      | ok s =>
          have hshows : Depicts d s := depicts_iff.mpr hd
          have hstep : decodeReports (d :: rest) =
              (s :: (decodeReports rest).1, (decodeReports rest).2) := by
            simp only [decodeReports, hd]
          rw [hstep]
          obtain ⟨hok, hall⟩ | ⟨hfault, seen, bad, after, hsplit, hall, hbad⟩ := ih
          · exact .inl ⟨hok, .cons hshows hall⟩
          · exact .inr ⟨hfault, d :: seen, bad, after, by rw [hsplit]; rfl, .cons hshows hall, hbad⟩

/-! ### One refresh -/

namespace Sight

/-- A sight that is current is left as it is. -/
theorem refresh_of_isCurrent {s : Sight} (h : s.isCurrent = true) : s.refresh = (.ok (), s) := by
  rw [refresh, if_pos h]

/-- Before the first frame there is nothing to decode. -/
theorem isCurrent_of_blank {s : Sight} (hstamp : s.scene.shared.stamp = none)
    (hlast : s.last = none) : s.isCurrent = true := by
  rw [isCurrent, Shared.time, hstamp, hlast]
  rfl

/-- A refresh that decodes a frame notes its time, whether it succeeds or not. -/
theorem refresh_of_not_isCurrent {s : Sight} (h : s.isCurrent = false) :
    s.refresh.2.scene = s.scene ∧ s.refresh.2.last = s.scene.shared.stamp ∧
      (s.refresh.1 = .ok () ∧ Shows s.scene.shared.result s.refresh.2.objects ∨
        s.refresh.1 ≠ .ok () ∧ ShowsPart s.scene.shared.result s.refresh.2.objects) := by
  cases hreports : reports s.scene.shared.result with
  | error f =>
      have hstep : s.refresh =
          (.error f, { s with last := s.scene.shared.stamp, objects := [] }) := by
        simp only [refresh, h, hreports]
        rfl
      rw [hstep]
      exact ⟨rfl, rfl, .inr ⟨by simp, .inl ⟨⟨f, hreports⟩, rfl⟩⟩⟩
  | ok ds =>
      have hstep : s.refresh = ((decodeReports ds).2,
          { s with last := s.scene.shared.stamp, objects := (decodeReports ds).1 }) := by
        simp only [refresh, h, hreports]
        rfl
      rw [hstep]
      refine ⟨rfl, rfl, ?_⟩
      obtain ⟨hok, hall⟩ | ⟨⟨f, hfault⟩, seen, bad, rest, hsplit, hall, hbad⟩ :=
        decodeReports_cases ds
      · exact .inl ⟨hok, ds, hreports, hall⟩
      · refine .inr ⟨by simp [hfault], .inr ⟨seen, bad, rest, ?_, hall, hbad⟩⟩
        rw [hreports, hsplit]

end Sight

/-! ### Runs -/

/-- What happens around a sight. -/
inductive Move where
  /-- A frame is shared, with what was detected in it, at the time that a clock shows. -/
  | share (clock : Clock) (frame : Frame) (result : Document)
  /-- The sight is brought up to date. -/
  | refresh

namespace Move

/-- The time at which a frame is shared. -/
def stamp? : Move → Option Float
  | share clock _ _ => some clock.reading
  | refresh => none

/-- What was detected in the frame that is shared. -/
def result? : Move → Option Document
  | share _ _ result => some result
  | refresh => none

end Move

/-- Makes a move: how it ends, and the sight then. -/
def Sight.perform (s : Sight) : Move → Except Fault Unit × Sight
  | .share clock frame result =>
    (.ok (), { s with scene := Scene.share { s.scene with clock := clock } frame result })
  | .refresh => s.refresh

/-- The sight after some moves, failed ones included. -/
def Sight.after (moves : List Move) : Sight :=
  moves.foldl (fun s m => (s.perform m).2) {}

/-- The last move is made from where the others led. -/
theorem Sight.after_append (moves : List Move) (m : Move) :
    Sight.after (moves ++ [m]) = ((Sight.after moves).perform m).2 := by
  simp [Sight.after]

/-- The times at which frames are shared. -/
def stamps (moves : List Move) : List Float := moves.filterMap Move.stamp?

/-- Every frame is shared later than the frames before it, and later than the time zero that a sight
notes at first. -/
def Ticking (moves : List Move) : Prop := (0 :: stamps moves).Pairwise (· < ·)

instance (moves : List Move) : Decidable (Ticking moves) :=
  inferInstanceAs (Decidable ((0 :: stamps moves).Pairwise (· < ·)))

/-- What was detected in the frame shared last. -/
def latest? (moves : List Move) : Option Document := (moves.filterMap Move.result?).getLast?

/-- Some refresh has failed since the last frame was shared. -/
def FailedSince (moves : List Move) : Prop :=
  ∃ earlier later, moves = earlier ++ .refresh :: later ∧ (∀ m ∈ later, m = .refresh) ∧
    (Sight.after earlier).refresh.1 ≠ .ok ()

/-- The clock ticked before the last move, too. -/
theorem Ticking.of_append {moves : List Move} {m : Move} (h : Ticking (moves ++ [m])) :
    Ticking moves := by
  unfold Ticking stamps at h
  rw [List.filterMap_append, ← List.cons_append] at h
  exact (List.pairwise_append.mp h).1

/-- What is shared last is later than all before. -/
theorem Ticking.lt_reading {moves : List Move} {clock : Clock} {frame : Frame} {result : Document}
    (h : Ticking (moves ++ [.share clock frame result])) :
    ∀ time ∈ 0 :: stamps moves, time < clock.reading := by
  unfold Ticking stamps at h
  rw [List.filterMap_append, ← List.cons_append] at h
  exact fun time htime =>
    (List.pairwise_append.mp h).2.2 time htime clock.reading (by simp [Move.stamp?])

/-- A move in a sequence is the last one or comes before it. -/
theorem eq_or_exists_of_concat_eq {moves earlier later : List Move} {m m' : Move}
    (h : moves ++ [m] = earlier ++ m' :: later) :
    later = [] ∧ m = m' ∧ moves = earlier ∨
      ∃ between, later = between ++ [m] ∧ moves = earlier ++ m' :: between := by
  rcases List.eq_nil_or_concat later with rfl | ⟨between, last, rfl⟩
  · obtain ⟨hmoves, hm⟩ := List.append_inj' h rfl
    exact .inl ⟨rfl, by simpa using hm, hmoves⟩
  · rw [List.concat_eq_append, ← List.cons_append, ← List.append_assoc] at h
    obtain ⟨hmoves, hm⟩ := List.append_inj' h rfl
    obtain rfl : m = last := by simpa using hm
    exact .inr ⟨between, List.concat_eq_append, hmoves⟩

/-- Nothing has failed since what was shared just now. -/
theorem not_failedSince_share (moves : List Move) (clock : Clock) (frame : Frame)
    (result : Document) : ¬FailedSince (moves ++ [.share clock frame result]) := by
  rintro ⟨earlier, later, hsplit, hlater, -⟩
  obtain ⟨-, hm, -⟩ | ⟨between, rfl, -⟩ := eq_or_exists_of_concat_eq hsplit
  · cases hm
  · cases hlater (.share clock frame result) (by simp)

/-- A refresh has failed since if one had before, or if this one does. -/
theorem failedSince_refresh_iff (moves : List Move) :
    FailedSince (moves ++ [.refresh]) ↔
      FailedSince moves ∨ (Sight.after moves).refresh.1 ≠ .ok () := by
  constructor
  · rintro ⟨earlier, later, hsplit, hlater, hfault⟩
    obtain ⟨-, -, rfl⟩ | ⟨between, rfl, rfl⟩ := eq_or_exists_of_concat_eq hsplit
    · exact .inr hfault
    · exact .inl ⟨earlier, between, rfl, fun m hm => hlater m (List.mem_append_left _ hm), hfault⟩
  · rintro (⟨earlier, later, rfl, hlater, hfault⟩ | hfault)
    · refine ⟨earlier, later ++ [.refresh], by simp, fun m hm => ?_, hfault⟩
      rcases List.mem_append.mp hm with hm | hm
      · exact hlater m hm
      · exact List.mem_singleton.mp hm
    · exact ⟨moves, [], rfl, by simp, hfault⟩

/-- What is shared last is the latest. -/
@[simp]
theorem latest?_share (moves : List Move) (clock : Clock) (frame : Frame) (result : Document) :
    latest? (moves ++ [.share clock frame result]) = some result := by
  simp [latest?, Move.result?]

/-- A refresh shares nothing. -/
@[simp]
theorem latest?_refresh (moves : List Move) : latest? (moves ++ [.refresh]) = latest? moves := by
  simp [latest?, Move.result?]

/-- How far a sight is with the frame shared last: there is none, it has not been looked at, or it has
been decoded, perhaps in part. -/
inductive Stage (moves : List Move) (s : Sight) : Prop
  | blank (hlatest : latest? moves = none) (hstamp : s.scene.shared.stamp = none)
      (hlast : s.last = none) (hobjects : s.objects = []) (hsound : ¬FailedSince moves) :
      Stage moves s
  | unseen {result : Document} (hlatest : latest? moves = some result)
      (hresult : s.scene.shared.result = result) (hstale : s.isCurrent = false)
      (hself : (s.scene.shared.time == s.scene.shared.time) = true)
      (hsound : ¬FailedSince moves) : Stage moves s
  | whole {result : Document} (hlatest : latest? moves = some result)
      (hcurrent : s.isCurrent = true) (hobjects : Shows result s.objects)
      (hsound : ¬FailedSince moves) : Stage moves s
  | part {result : Document} (hlatest : latest? moves = some result)
      (hcurrent : s.isCurrent = true) (hobjects : ShowsPart result s.objects)
      (hfailed : FailedSince moves) : Stage moves s

/-- Sharing something new makes the sight stale. -/
theorem Stage.share {moves : List Move} {s : Sight} {clock : Clock} (frame : Frame)
    (result : Document) (hstale : (clock.reading == s.last.getD 0) = false)
    (hself : (clock.reading == clock.reading) = true) :
    Stage (moves ++ [.share clock frame result]) (s.perform (.share clock frame result)).2 :=
  .unseen (latest?_share ..) rfl hstale hself (not_failedSince_share moves clock frame result)

/-- A refresh leads from one stage to another. -/
theorem Stage.refresh {moves : List Move} (h : Stage moves (Sight.after moves)) :
    Stage (moves ++ [.refresh]) (Sight.after moves).refresh.2 := by
  have hsound : ∀ {r}, (Sight.after moves).refresh = (.ok (), r) →
      (FailedSince (moves ++ [.refresh]) ↔ FailedSince moves) := by
    intro r hok
    rw [failedSince_refresh_iff, hok]
    simp
  cases h with
  | blank hlatest hstamp hlast hobjects hfailed =>
      have hok := Sight.refresh_of_isCurrent (Sight.isCurrent_of_blank hstamp hlast)
      rw [hok]
      exact .blank (by simpa using hlatest) hstamp hlast hobjects (by rwa [hsound hok])
  | @unseen result hlatest hresult hstale hself hfailed =>
      obtain ⟨hscene, hlast, houtcome⟩ := Sight.refresh_of_not_isCurrent hstale
      have hcurrent : (Sight.after moves).refresh.2.isCurrent = true := by
        rw [Sight.isCurrent, hscene, hlast]
        exact hself
      rw [hresult] at houtcome
      obtain ⟨hok, hshows⟩ | ⟨hfault, hpart⟩ := houtcome
      · exact .whole (by simpa using hlatest) hcurrent hshows
          (by simp [failedSince_refresh_iff, hfailed, hok])
      · exact .part (by simpa using hlatest) hcurrent hpart
          (by simp [failedSince_refresh_iff, hfault])
  | whole hlatest hcurrent hobjects hfailed =>
      have hok := Sight.refresh_of_isCurrent hcurrent
      rw [hok]
      exact .whole (by simpa using hlatest) hcurrent hobjects (by rwa [hsound hok])
  | part hlatest hcurrent hobjects hfailed =>
      have hok := Sight.refresh_of_isCurrent hcurrent
      rw [hok]
      exact .part (by simpa using hlatest) hcurrent hobjects (by rwa [hsound hok])

/-- The times that a sight knows are zero or times at which frames were shared. -/
theorem times_mem (moves : List Move) :
    (Sight.after moves).last.getD 0 ∈ 0 :: stamps moves ∧
      (Sight.after moves).scene.shared.time ∈ 0 :: stamps moves := by
  induction moves using List.reverseRecOn with
  | nil => exact ⟨List.mem_cons_self, List.mem_cons_self⟩
  | append_singleton moves m ih =>
      have hmore : ∀ {time}, time ∈ 0 :: stamps moves → time ∈ 0 :: stamps (moves ++ [m]) := by
        intro time htime
        rw [stamps, List.filterMap_append, ← List.cons_append]
        exact List.mem_append_left _ htime
      rw [Sight.after_append]
      cases m with
      | share clock frame result =>
          refine ⟨hmore ih.1, ?_⟩
          rw [stamps, List.filterMap_append, ← List.cons_append]
          refine List.mem_append_right _ ?_
          simp [Move.stamp?, Sight.perform, Scene.share, Scene.readClock, Shared.time]
      | refresh =>
          cases hcurrent : (Sight.after moves).isCurrent with
          | true =>
              rw [Sight.perform, Sight.refresh_of_isCurrent hcurrent]
              exact ⟨hmore ih.1, hmore ih.2⟩
          | false =>
              obtain ⟨hscene, hlast, -⟩ := Sight.refresh_of_not_isCurrent hcurrent
              rw [Sight.perform, hscene, hlast]
              exact ⟨hmore ih.2, hmore ih.2⟩

/-- The stage that a run of frames and refreshes leads to. -/
theorem stage_after {moves : List Move} (h : Ticking moves) : Stage moves (Sight.after moves) := by
  induction moves using List.reverseRecOn with
  | nil =>
      refine .blank rfl rfl rfl rfl ?_
      rintro ⟨earlier, later, hsplit, -⟩
      simp at hsplit
  | append_singleton moves m ih =>
      rw [Sight.after_append]
      cases m with
      | share clock frame result =>
          have hlater := h.lt_reading
          exact .share frame result (beq_eq_false_of_lt (hlater _ (times_mem moves).1))
            (beq_self_of_lt (hlater 0 List.mem_cons_self))
      | refresh => exact (ih h.of_append).refresh

/-- What a sight ought to hold: the sightings of the frame shared last, or nothing before the first
one. -/
def UpToDate : Option Document → List Sighting → Prop
  | none, objects => objects = []
  | some result, objects => Shows result objects

/-- A refresh that succeeds leaves what the sight ought to hold exactly if no refresh has failed since
the last frame was shared.  If one has, it leaves the sightings of the reports before the first that
shows nothing. -/
theorem refreshed_upToDate_iff {moves : List Move} (hticking : Ticking moves) {s : Sight}
    (hrefresh : (Sight.after moves).refresh = (.ok (), s)) :
    (UpToDate (latest? moves) s.objects ↔ ¬FailedSince moves) ∧
      (FailedSince moves → ∃ result, latest? moves = some result ∧ ShowsPart result s.objects) := by
  cases stage_after hticking with
  | blank hlatest hstamp hlast hobjects hsound =>
      rw [Sight.refresh_of_isCurrent (Sight.isCurrent_of_blank hstamp hlast)] at hrefresh
      obtain rfl := (Prod.mk.inj hrefresh).2
      rw [hlatest]
      exact ⟨iff_of_true hobjects hsound, fun hfailed => absurd hfailed hsound⟩
  | unseen hlatest hresult hstale _ hsound =>
      obtain ⟨-, -, ⟨-, hshows⟩ | ⟨hfault, -⟩⟩ := Sight.refresh_of_not_isCurrent hstale
      · rw [hrefresh, hresult] at hshows
        rw [hlatest]
        exact ⟨iff_of_true hshows hsound, fun hfailed => absurd hfailed hsound⟩
      · exact absurd (congrArg Prod.fst hrefresh) hfault
  | whole hlatest hcurrent hobjects hsound =>
      rw [Sight.refresh_of_isCurrent hcurrent] at hrefresh
      obtain rfl := (Prod.mk.inj hrefresh).2
      rw [hlatest]
      exact ⟨iff_of_true hobjects hsound, fun hfailed => absurd hfailed hsound⟩
  | part hlatest hcurrent hobjects hfailed =>
      rw [Sight.refresh_of_isCurrent hcurrent] at hrefresh
      obtain rfl := (Prod.mk.inj hrefresh).2
      rw [hlatest]
      exact ⟨iff_of_false hobjects.not_shows (not_not_intro hfailed),
        fun _ => ⟨_, rfl, hobjects⟩⟩

/-- A report of a person in the left half of the picture. -/
def personReport : Document :=
  .dict [("name", .text "person"), ("box", .dict [("x1", .float 0), ("y1", .float 0),
    ("x2", .float 0.5), ("y2", .float 1)])]

/-- Two persons in one place. -/
def pairResult : Document := .dict [("result", .list [personReport, personReport])]

/-- A person, and a report that is none. -/
def brokenResult : Document := .dict [("result", .list [personReport, .int 5])]

/-- A frame that cannot be decoded, a refresh that fails, and a frame a second later that can. -/
def recovery : List Move :=
  [.share { now := 1000 } .blank brokenResult, .refresh, .share { now := 1001 } .blank pairResult]

/-- A frame that can be decoded is shown whole, though the refresh before it failed. -/
theorem refreshed_upToDate_iff_recovery :
    Ticking recovery ∧ (Sight.after recovery).refresh.1 = .ok () ∧
      (UpToDate (some pairResult) (Sight.after recovery).refresh.2.objects ↔
        ¬FailedSince recovery) :=
  have hticking : Ticking recovery := by decide
  ⟨hticking, rfl, (refreshed_upToDate_iff hticking (Prod.ext rfl rfl)).1⟩

/-- After a frame that cannot be decoded the first refresh fails and the second one succeeds, though
no list of sightings is that of the frame. -/
theorem refresh_trusts_broken_frame :
    Ticking [.share {} .blank brokenResult, .refresh] ∧
      (Sight.after [.share {} .blank brokenResult]).refresh.1 = .error .wrongKind ∧
      (Sight.after [.share {} .blank brokenResult, .refresh]).refresh.1 = .ok () ∧
      ¬Shows brokenResult
        (Sight.after [.share {} .blank brokenResult, .refresh]).refresh.2.objects := by
  refine ⟨by decide, rfl, rfl, ?_⟩
  rintro ⟨ds, hds, hshows⟩
  obtain rfl : [personReport, .int 5] = ds := Except.ok.inj hds
  obtain ⟨s, hs⟩ := forall_depicted hshows (.int 5) (by simp)
  rw [depicts_iff] at hs
  cases hs

end DronePilot.Vision
