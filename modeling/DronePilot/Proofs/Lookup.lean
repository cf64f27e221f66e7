import DronePilot.Proofs.Publication

/-!
# Looking for a class of objects

Somebody who looks for an object looks at the frame shared last, and again after each of a few pauses,
until the name of some object begins with the text asked for.  The name that is published begins with
the name of the class, so an object of the class is found.  So is an object of another class whose name
goes on after the text, and one whose name with its track does: a carrot is taken for a car.

* `Scene.polled` — the frames that are shared at the looks, and `Shown` the objects on each.
* `Sight.Faithful` — the sight holds what the frame shared last shows, if it takes that frame for
  decoded.  `Sight.faithful_after`: every run of published frames leads to such a sight.
* `Sight.findWithin_eq` — looking finds the first object with the name on some of these frames.  Only
  frames shared at the same time as the one before are passed over.
* `answer_of_class` — what is found is of the class asked for, or mistaken for it.
-/

namespace DronePilot.Vision

open DronePilot.Service

/-! ### The frames that are looked at -/

namespace Scene

/-- The scene after a pause between two looks. -/
def rested (s : Scene) : Scene :=
  (s.record (.sleep (.float Sight.lookInterval))).pass Sight.lookInterval

/-- What is shared at each of a number of looks. -/
def polled : Nat → Scene → List (Shared Frame)
  | 0, _ => []
  | n + 1, s => s.shared :: s.rested.polled n

/-- Frames on their way have results that the service publishes. -/
def Announced (arrivals : List Arrival) : Prop :=
  ∀ a ∈ arrivals, ∃ f, Publishes a.result f

/-- The frame shared last, if there is one, and the frames on their way have results that the service
publishes. -/
structure Published (s : Scene) : Prop where
  shared : s.shared.stamp ≠ none → ∃ f, Publishes s.shared.result f
  arrivals : Announced s.arrivals

/-- A scene stays published when what arrives was announced. -/
theorem Published.deliver {time : Float} {arrivals : List Arrival} {s : Scene} (hs : s.Published)
    (ha : Announced arrivals) : (Scene.deliver time arrivals s).Published := by
  induction arrivals generalizing s with
  | nil => exact hs
  | cons a rest ih =>
      obtain ⟨hhead, hrest⟩ := List.forall_mem_cons.mp ha
      rw [Scene.deliver]
      split
      · exact ih ⟨fun _ => hhead, hs.arrivals⟩ hrest
      · refine ih ⟨hs.shared, ?_⟩ hrest
        exact List.forall_mem_append.mpr ⟨hs.arrivals, List.forall_mem_singleton.mpr hhead⟩

/-- So it does while time passes. -/
theorem Published.rested {s : Scene} (h : s.Published) : s.rested.Published :=
  Published.deliver ⟨h.shared, fun _ ha => absurd ha List.not_mem_nil⟩ h.arrivals

/-- Once a frame has been shared, there is always one. -/
theorem deliver_stamp_ne_none {time : Float} {arrivals : List Arrival} {s : Scene}
    (h : s.shared.stamp ≠ none) : (Scene.deliver time arrivals s).shared.stamp ≠ none := by
  induction arrivals generalizing s with
  | nil => exact h
  | cons a rest ih =>
      rw [Scene.deliver]
      split
      · exact ih (Option.some_ne_none _)
      · exact ih h

/-- A scene that is blank after a rest was blank before. -/
theorem stamp_eq_none_of_rested {s : Scene} (h : s.rested.shared.stamp = none) :
    s.shared.stamp = none := by
  by_contra hstamp
  exact absurd h (deliver_stamp_ne_none hstamp)

end Scene

/-- The objects on the frame shared last; there are none before the first frame. -/
def Shown (shared : Shared Frame) (view : List Spotted) : Prop :=
  shared.stamp = none ∧ view = [] ∨ shared.stamp ≠ none ∧ Exhibits shared.result view

/-- Whatever is shown is named by its name. -/
theorem Shown.named {shared : Shared Frame} {view : List Spotted} (h : Shown shared view) :
    ∀ o ∈ view, o.sighting.name = .text o.name := by
  obtain ⟨-, rfl⟩ | ⟨-, hview⟩ := h
  · simp
  · exact hview.named

/-- Published frames can be looked at. -/
theorem Scene.Published.exists_shown (n : Nat) {s : Scene} (h : s.Published) :
    ∃ views, List.Forall₂ Shown (s.polled n) views := by
  induction n generalizing s with
  | zero => exact ⟨[], .nil⟩
  | succ n ih =>
      obtain ⟨views, hviews⟩ := ih h.rested
      by_cases hstamp : s.shared.stamp = none
      · exact ⟨[] :: views, .cons (.inl ⟨hstamp, rfl⟩) hviews⟩
      · obtain ⟨f, hf⟩ := h.shared hstamp
        obtain ⟨view, hview⟩ := hf.exists_exhibits
        exact ⟨view :: views, .cons (.inr ⟨hstamp, hview⟩) hviews⟩

/-- Of two frames after one another, the second is the first or was shared at another time. -/
def TellsApart (frames : List (Shared Frame)) : Prop :=
  frames.IsChain fun a b => b = a ∨ (b.time == a.time) = false

/-! ### One look -/

/-- Among published names, the first that begins with a text. -/
theorem firstNamed_map_sighting {c : String} {view : List Spotted}
    (h : ∀ o ∈ view, o.sighting.name = .text o.name) :
    firstNamed (.text c) (view.map Spotted.sighting) =
      .ok ((view.find? (Spotted.begins c)).map Spotted.sighting) := by
  induction view with
  | nil => rfl
  | cons o rest ih =>
      obtain ⟨ho, hrest⟩ := List.forall_mem_cons.mp h
      have hnamed : o.sighting.isNamed (.text c) = .ok (o.begins c) := by
        unfold Sighting.isNamed
        rw [ho]
        rfl
      rw [List.map_cons, firstNamed, hnamed, List.find?_cons, ih hrest]
      cases o.begins c <;> rfl

namespace Sight

/-- Before the first frame nothing has been noted. -/
def StartsBlank (s : Sight) : Prop :=
  s.scene.shared.stamp = none → s.last = none ∧ s.objects = []

/-- If the sight takes the frame shared last for decoded, it holds what that frame shows. -/
structure Faithful (s : Sight) : Prop where
  blank : s.StartsBlank
  current : s.scene.shared.stamp ≠ none → s.isCurrent = true →
    Shows s.scene.shared.result s.objects

/-- The sight takes the frame shared last for decoded, and nothing that it holds has the name asked
for. -/
structure Searched (c : String) (s : Sight) : Prop where
  blank : s.StartsBlank
  current : s.isCurrent = true
  nothing : firstNamed (.text c) s.objects = .ok none

/-- A faithful sight that is brought up to date succeeds and holds what the frame shared last shows. -/
theorem Faithful.refresh {s : Sight} {view : List Spotted} (hs : s.Faithful)
    (hview : Shown s.scene.shared view) :
    ∃ s', s.refresh = (.ok (), s') ∧ s'.scene = s.scene ∧
      s'.objects = view.map Spotted.sighting ∧ s'.Faithful ∧
      (s'.isCurrent = true ∨ s'.last = s'.scene.shared.stamp) := by
  obtain ⟨hstamp, rfl⟩ | ⟨hstamp, hview⟩ := hview
  · obtain ⟨hlast, hobjects⟩ := hs.blank hstamp
    have hcurrent := isCurrent_of_blank hstamp hlast
    exact ⟨s, refresh_of_isCurrent hcurrent, rfl, hobjects, hs, .inl hcurrent⟩
  · cases hcurrent : s.isCurrent with
    | true =>
        have hobjects := (hs.current hstamp hcurrent).eq hview.shows
        exact ⟨s, refresh_of_isCurrent hcurrent, rfl, hobjects, hs, .inl hcurrent⟩
    | false =>
        obtain ⟨hscene, hlast, ⟨hok, hshows⟩ | ⟨-, hpart⟩⟩ := refresh_of_not_isCurrent hcurrent
        · refine ⟨s.refresh.2, Prod.ext hok rfl, hscene, hshows.eq hview.shows, ?_, .inr ?_⟩
          · rw [← hscene] at hstamp hshows
            exact ⟨fun hnone => absurd hnone hstamp, fun _ _ => hshows⟩
          · rw [hscene, hlast]
        · exact absurd hview.shows hpart.not_shows

theorem pause_scene (s : Sight) : s.pause.scene = s.scene.rested := rfl

/-- A sight that starts blank still does after a pause. -/
theorem StartsBlank.pause {s : Sight} (h : s.StartsBlank) : s.pause.StartsBlank :=
  fun hstamp => h (Scene.stamp_eq_none_of_rested hstamp)

/-- After a look in vain and a pause, either the sight is faithful to the frame shared then, or it
passes that frame over. -/
theorem pause_cases {c : String} {s : Sight} (hblank : s.StartsBlank)
    (hnothing : firstNamed (.text c) s.objects = .ok none) :
    s.pause.Faithful ∨ s.pause.Searched c := by
  by_cases hcurrent : s.pause.isCurrent = true
  · exact .inr ⟨hblank.pause, hcurrent, hnothing⟩
  · exact .inl ⟨hblank.pause, fun _ h => absurd h hcurrent⟩

/-- A sight that is up to date stays faithful over a pause if the next frame can be told apart. -/
theorem Faithful.pause {s : Sight} (hs : s.Faithful)
    (hdone : s.isCurrent = true ∨ s.last = s.scene.shared.stamp)
    (hnext : s.scene.rested.shared = s.scene.shared ∨
      (s.scene.rested.shared.time == s.scene.shared.time) = false) : s.pause.Faithful := by
  refine ⟨hs.blank.pause, ?_⟩
  intro hstamp hcurrent
  obtain hsame | hother := hnext
  · rw [pause_scene, hsame] at hstamp ⊢
    refine hs.current hstamp ?_
    rwa [isCurrent, pause_scene, hsame] at hcurrent
  · -- The time noted is that of the frame before, so the next frame would have to share it.
    exfalso
    have hnoted : (s.scene.rested.shared.time == s.last.getD 0) = true := hcurrent
    obtain hdone | hlast := hdone
    · have heq := PartialEquivBEq.trans hnoted (BEq.symm hdone)
      rw [hother] at heq
      cases heq
    · rw [hlast] at hnoted
      exact absurd hnoted (by rw [← Shared.time, hother]; simp)

/-! ### All looks -/

/-- One more look finds what is there, or is followed by a pause and the other looks. -/
theorem findWithin_succ {wanted : Value} {n : Nat} {s s' : Sight} {found : Option Sighting}
    (hrefresh : s.refresh = (.ok (), s')) (hfound : firstNamed wanted s'.objects = .ok found) :
    s.findWithin wanted (n + 1) =
      found.elim (s'.pause.findWithin wanted n) fun o => (.ok (some o), s') := by
  rw [findWithin, hrefresh]
  cases found with
  | none => simp only [hfound, Option.elim_none]
  | some o => simp only [hfound, Option.elim_some]

/-- Looking finds the first object with the name on the frames that are looked at, some of which are
passed over: none of them if they can be told apart. -/
theorem findWithin_eq {c : String} (n : Nat) {s : Sight} {views : List (List Spotted)}
    (hs : s.Faithful ∨ s.Searched c) (hviews : List.Forall₂ Shown (s.scene.polled n) views) :
    ∃ looked : List (List Spotted), looked.Sublist views ∧
      (s.Faithful → TellsApart (s.scene.polled n) → looked = views) ∧
      (s.findWithin (.text c) n).1 =
        .ok ((looked.flatten.find? (Spotted.begins c)).map Spotted.sighting) := by
  induction n generalizing s views with
  | zero =>
      cases hviews
      exact ⟨[], .slnil, fun _ _ => rfl, rfl⟩
  | succ n ih =>
      obtain ⟨view, later, hview, hlater, rfl⟩ := List.forall₂_cons_left_iff.mp hviews
      -- A sight that is both faithful and searched counts as faithful: its frame is not passed over.
      by_cases hfaithful : s.Faithful
      · obtain ⟨s', hrefresh, hscene, hobjects, hs', hdone⟩ := hfaithful.refresh hview
        have hfirst : firstNamed (.text c) s'.objects =
            .ok ((view.find? (Spotted.begins c)).map Spotted.sighting) := by
          rw [hobjects]
          exact firstNamed_map_sighting hview.named
        cases hfind : view.find? (Spotted.begins c) with
        | some o =>
            rw [hfind] at hfirst
            refine ⟨view :: later, .refl _, fun _ _ => rfl, ?_⟩
            rw [findWithin_succ hrefresh hfirst, List.flatten_cons, List.find?_append, hfind]
            rfl
        | none =>
            rw [hfind] at hfirst
            rw [← hscene] at hlater
            obtain ⟨looked, hsub, hall, hlook⟩ := ih (pause_cases hs'.blank hfirst) hlater
            refine ⟨view :: looked, hsub.cons_cons view, fun _ hapart => ?_, ?_⟩
            · -- The last look is followed by a pause, too, but nobody looks at the frame after it.
              cases n with
              | zero =>
                  cases hlater
                  rw [List.sublist_nil.mp hsub]
              | succ n =>
                  obtain ⟨hnext, hrest⟩ := List.isChain_cons_cons.mp hapart
                  rw [← hscene] at hnext hrest
                  rw [hall (hs'.pause hdone hnext) hrest]
            · rw [findWithin_succ hrefresh hfirst, List.flatten_cons, List.find?_append, hfind]
              exact hlook
      · have hsearched := hs.resolve_left hfaithful
        have hrefresh := refresh_of_isCurrent hsearched.current
        obtain ⟨looked, hsub, -, hlook⟩ :=
          ih (pause_cases hsearched.blank hsearched.nothing) hlater
        refine ⟨looked, hsub.cons view, fun h => absurd h hfaithful, ?_⟩
        rw [findWithin_succ hrefresh hsearched.nothing]
        exact hlook

/-- What is found is an object with the name on the frames that are looked at; the first one, if they
can be told apart. -/
theorem find_among (c : String) {s : Sight} (hs : s.Faithful) {views : List (List Spotted)}
    (hviews : List.Forall₂ Shown (s.scene.polled lookCount) views) :
    ∃ found : Option Spotted, (s.find (.text c)).1 = .ok (found.map Spotted.sighting) ∧
      (∀ o, found = some o → o ∈ views.flatten ∧ o.begins c = true) ∧
      (TellsApart (s.scene.polled lookCount) →
        found = views.flatten.find? (Spotted.begins c)) := by
  obtain ⟨looked, hsub, hall, hfind⟩ := findWithin_eq lookCount (.inl hs) hviews
  refine ⟨_, hfind, fun o ho => ?_, fun hapart => by rw [hall hs hapart]⟩
  exact ⟨hsub.flatten.subset (List.mem_of_find?_eq_some ho), List.find?_some ho⟩

/-- The answers to the questions about a class are those about an object, or that there is none. -/
def Reports (s : Sight) (c : String) (found : Option Spotted) : Prop :=
  (s.answer .visible (.text c)).1 = .ok (.ofValue (.bool found.isSome)) ∧
    ∀ m : Measure, (s.answer (.measure m) (.text c)).1 =
      .ok (found.elim (m.missing (.text c)) fun o => .ofValue (.float (m.of o.sighting)))

/-- What is found is what the sight reports. -/
theorem reports_of_find {s : Sight} {c : String} {found : Option Spotted}
    (h : (s.find (.text c)).1 = .ok (found.map Spotted.sighting)) : s.Reports c found := by
  obtain ⟨s', hfind⟩ : ∃ s', s.find (.text c) = (.ok (found.map Spotted.sighting), s') :=
    ⟨_, Prod.ext h rfl⟩
  cases found with
  | none =>
      refine ⟨?_, fun m => ?_⟩
      · rw [answer, isVisible, hfind]
        rfl
      · rw [answer, measure, hfind]
        rfl
  | some o =>
      refine ⟨?_, fun m => ?_⟩
      · rw [answer, isVisible, hfind]
        rfl
      · rw [answer, measure, hfind]
        rfl

end Sight

/-! ### Sights that are faithful -/

/-- A refresh leaves the scene as it is. -/
theorem Sight.refresh_scene (s : Sight) : s.refresh.2.scene = s.scene := by
  cases hcurrent : s.isCurrent with
  | true => rw [refresh_of_isCurrent hcurrent]
  | false => exact (refresh_of_not_isCurrent hcurrent).1

/-- The frame that a sight has before it is the one shared last. -/
theorem shared_after {moves : List Move} {result : Document} (h : latest? moves = some result) :
    (Sight.after moves).scene.shared.stamp ≠ none ∧
      (Sight.after moves).scene.shared.result = result := by
  induction moves using List.reverseRecOn with
  | nil => cases h
  | append_singleton moves m ih =>
      rw [Sight.after_append]
      cases m with
      | share clock frame result' =>
          rw [latest?_share] at h
          cases h
          exact ⟨Option.some_ne_none _, rfl⟩
      | refresh =>
          rw [latest?_refresh] at h
          rw [Sight.perform, Sight.refresh_scene]
          exact ih h

/-- A run of published frames and refreshes leads to a faithful sight, whatever else happens in the
scene meanwhile. -/
theorem Sight.faithful_after {moves : List Move} (hticking : Ticking moves)
    (hpublished : ∀ result ∈ moves.filterMap Move.result?, ∃ f, Publishes result f) {scene : Scene}
    (hscene : scene.shared = (Sight.after moves).scene.shared) :
    Faithful { Sight.after moves with scene := scene } := by
  have hsame : isCurrent { Sight.after moves with scene := scene } =
      (Sight.after moves).isCurrent := by
    rw [isCurrent, isCurrent, hscene]
  cases stage_after hticking with
  | blank _ hstamp hlast hobjects _ =>
      exact ⟨fun _ => ⟨hlast, hobjects⟩, fun h => absurd (hscene ▸ hstamp) h⟩
  | unseen hlatest _ hstale _ _ =>
      have hstamp := (shared_after hlatest).1
      rw [← hsame] at hstale
      exact ⟨fun h => absurd (hscene ▸ h) hstamp, fun _ h => absurd h (by rw [hstale]; simp)⟩
  | whole hlatest _ hobjects _ =>
      obtain ⟨hstamp, hresult⟩ := shared_after hlatest
      rw [← hresult, ← hscene] at hobjects
      exact ⟨fun h => absurd (hscene ▸ h) hstamp, fun _ _ => hobjects⟩
  | @part result hlatest _ hobjects _ =>
      obtain ⟨f, hf⟩ := hpublished result (List.mem_of_getLast? hlatest)
      obtain ⟨view, hview⟩ := hf.exists_exhibits
      exact absurd hview.shows hobjects.not_shows

/-! ### What is found -/

/-- Whoever asks about a class is told about the first object on the frames looked at whose name begins
with that of the class: an object of the class, or one that is mistaken for it.  So what is found is of
the class if no object can be mistaken for it.  If the frames can be told apart by their times, none is
passed over. -/
theorem answer_of_class (c : String) {s : Sight} (hs : s.Faithful) (hpublished : s.scene.Published) :
    (∃ views, List.Forall₂ Shown (s.scene.polled Sight.lookCount) views) ∧
      ∀ views, List.Forall₂ Shown (s.scene.polled Sight.lookCount) views →
        ∃ found, s.Reports c found ∧
          (∀ o, found = some o → o ∈ views.flatten ∧ (o.className = c ∨ o.Mistaken c)) ∧
          ((∀ o ∈ views.flatten, ¬o.Mistaken c) → ∀ o, found = some o → o.className = c) ∧
          (TellsApart (s.scene.polled Sight.lookCount) →
            found = views.flatten.find? (Spotted.begins c) ∧
              (found.isSome ↔ ∃ o ∈ views.flatten, o.className = c ∨ o.Mistaken c)) := by
  refine ⟨hpublished.exists_shown Sight.lookCount, fun views hviews => ?_⟩
  obtain ⟨found, hfind, hamong, hfirst⟩ := Sight.find_among c hs hviews
  have hfound : ∀ o, found = some o → o ∈ views.flatten ∧ (o.className = c ∨ o.Mistaken c) := by
    intro o ho
    obtain ⟨hmem, hbegins⟩ := hamong o ho
    exact ⟨hmem, Spotted.begins_iff.mp hbegins⟩
  refine ⟨found, Sight.reports_of_find hfind, hfound, ?_, ?_⟩
  · intro hclear o ho
    obtain ⟨hmem, hclass⟩ := hfound o ho
    exact hclass.resolve_right (hclear o hmem)
  · intro hapart
    refine ⟨hfirst hapart, ?_⟩
    rw [hfirst hapart]
    simp only [List.find?_isSome, Spotted.begins_iff]

/-- The detection result that the service publishes about a finding. -/
def publication (f : Finding) : Document :=
  match f.format with
  | .ok d => .dict [("result", d)]
  | .error _ => .dict []

/-- A finding that was not classified is published as it is. -/
theorem publishes_publication {f : Finding} (hwhole : f.classified = false)
    (hok : f.format.isOk = true) : Publishes (publication f) f := by
  cases hformat : f.format with
  | error fault =>
      rw [hformat] at hok
      cases hok
  | ok d =>
      have hdocs := hformat
      rw [Finding.format, hwhole] at hdocs
      obtain ⟨docs, -, rfl⟩ := map_eq_ok hdocs
      refine ⟨docs, hformat, ?_⟩
      rw [publication, hformat]
      rfl

/-- A carrot in the left half of the picture. -/
def carrot : Finding :=
  { rows := [[.float 10, .float 20, .float 30, .float 40, .float 0.9, .int 0]]
    names := [("0", "carrot")] }

theorem publishes_carrot : Publishes (publication carrot) carrot :=
  publishes_publication rfl (by decide +kernel)

/-- A person that is followed. -/
def follower : Finding :=
  { rows := [[.float 50, .float 0, .float 90, .float 80, .int 7, .float 0.8, .int 0]]
    tracked := true }

theorem publishes_follower : Publishes (publication follower) follower :=
  publishes_publication rfl (by decide +kernel)

/-- A carrot is in sight, and a person comes during the second pause. -/
def visitor : Sight :=
  { Sight.after [.share {} .blank (publication carrot), .refresh] with
    scene :=
      { shared := { frame := .blank, stamp := some 1000, result := publication carrot }
        arrivals := [{ due := 1000.3, frame := .blank, result := publication follower }] } }

/-- Asked for a person, the sight reports nothing or something that came into view: a person, or
what is taken for one. -/
theorem answer_of_class_visitor :
    visitor.Faithful ∧ visitor.scene.Published ∧
      ∀ views, List.Forall₂ Shown (visitor.scene.polled Sight.lookCount) views →
        ∃ found, visitor.Reports "person" found ∧
          ∀ o, found = some o → o ∈ views.flatten ∧ (o.className = "person" ∨ o.Mistaken "person") := by
  have hfaithful : visitor.Faithful := by
    refine Sight.faithful_after (by decide) ?_ rfl
    simpa [Move.result?] using ⟨carrot, publishes_carrot⟩
  have hpublished : visitor.scene.Published :=
    ⟨fun _ => ⟨carrot, publishes_carrot⟩, by
      simpa [Scene.Announced, visitor] using ⟨follower, publishes_follower⟩⟩
  refine ⟨hfaithful, hpublished, fun views hviews => ?_⟩
  obtain ⟨found, hreports, hfound, -, -⟩ :=
    (answer_of_class "person" hfaithful hpublished).2 views hviews
  exact ⟨found, hreports, hfound⟩

/-- Whatever is spotted there is a carrot without a track. -/
theorem spots_carrot {i : Nat} {row : List Value} {o : Spotted} (h : Spots carrot i row o) :
    o.className = "carrot" ∧ o.track = none := by
  obtain ⟨v, n, -, -, hclass⟩ := h.ofClass
  obtain ⟨-, htrack⟩ | ⟨htracked, -⟩ := h.onTrack
  · refine ⟨?_, htrack⟩
    rw [Finding.className, carrot, List.lookup_cons] at hclass
    cases hnumber : toString n == "0" with
    | true =>
        rw [hnumber] at hclass
        exact (Except.ok.inj hclass).symm
    | false =>
        rw [hnumber] at hclass
        cases hclass
  · cases htracked

/-- A sight that has a carrot before it and nothing else. -/
def carrotSight : Sight := Sight.after [.share {} .blank (publication carrot)]

/-- Whoever asks for a car is told that one is in sight, and where, though every frame shows a carrot
and nothing else. -/
theorem carrot_taken_for_car :
    ∃ o, o.className = "carrot" ∧
      (∀ frame ∈ carrotSight.scene.polled Sight.lookCount, Shown frame [o]) ∧
      carrotSight.Reports "car" (some o) := by
  obtain ⟨docs, hformat, -⟩ := publishes_carrot
  obtain ⟨view, hspots⟩ := exists_spots_of_reportsFrom (reportsFrom_eq_format hformat)
  obtain ⟨o, rest, ho, hnone, rfl⟩ := List.forall₂_cons_left_iff.mp hspots
  cases hnone
  obtain ⟨hclass, htrack⟩ := spots_carrot ho
  have hshown : Shown carrotSight.scene.shared [o] :=
    .inr ⟨Option.some_ne_none _, carrot, publishes_carrot, hspots⟩
  have hticking : Ticking [.share {} .blank (publication carrot)] := by decide
  have hfaithful : carrotSight.Faithful := by
    refine Sight.faithful_after hticking ?_ rfl
    simpa [Move.result?] using ⟨carrot, publishes_carrot⟩
  have hbegins : o.begins "car" = true := by
    rw [Spotted.begins, Spotted.name, htrack, hclass]
    decide
  refine ⟨o, hclass, ?_, Sight.reports_of_find ?_⟩
  · have hpolled : carrotSight.scene.polled Sight.lookCount =
        List.replicate 10 carrotSight.scene.shared := rfl
    intro frame hframe
    rw [hpolled] at hframe
    rwa [List.eq_of_mem_replicate hframe]
  · obtain ⟨s, hrefresh, -, hobjects, -, -⟩ := hfaithful.refresh hshown
    have hfirst := firstNamed_map_sighting (c := "car") hshown.named
    rw [← hobjects, List.find?_cons, hbegins] at hfirst
    rw [Sight.find, Sight.lookCount, Sight.findWithin_succ hrefresh hfirst]
    rfl

end DronePilot.Vision
