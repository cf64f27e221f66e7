import DronePilot.Proofs.Freshness

/-!
# Following objects from frame to frame

A frame is followed by entering its detections one after the other into a new table, each under the
key of the tracker that it is matched with or under a new one, and by asking the trackers of that
table where their objects are.  The table has one place for each key, so a detection is lost when a
later one of the same frame is entered under its key.

A key is a name and a number (`numbered`).  The number of a new key is that of the trackers before
the frame: it is the same for all new keys of a frame, and an old tracker may have it, too.

* `Matching.run_detections` — what the detections of a frame are entered under, and as what.
* `Sight.follow_view` — what is in sight after a frame, and what the trackers hold.
* `followed_whole_iff` — in a sequence of frames, which frames are in sight as a whole.
-/

namespace DronePilot.Vision

/-! ### Keys -/

/-- A name with a number. -/
def numbered (name : String) (n : Nat) : String := name ++ "_" ++ toString n

/-- A number has no low line, so the name is what stands before the last one. -/
theorem name_eq_of_numbered_eq {a b : String} {m n : Nat} (h : numbered a m = numbered b n) :
    a = b := by
  have hdigits : ∀ k : Nat, '_' ∉ (toString k).toList := by
    intro k hmem
    rw [Nat.toString_eq_repr, Nat.toList_repr] at hmem
    exact absurd (Nat.isDigit_of_mem_toDigits (by decide) (by decide) hmem) (by decide)
  have hsplit :
      a.toList ++ '_' :: (toString m).toList = b.toList ++ '_' :: (toString n).toList := by
    simpa [numbered] using congrArg String.toList h
  obtain ⟨mid, hb, hrest⟩ | ⟨mid, ha, hrest⟩ := List.append_eq_append_iff.mp hsplit
  · cases mid with
    | nil => exact String.toList_inj.mp (by simpa using hb.symm)
    | cons c mid =>
        have hm : (toString m).toList = mid ++ '_' :: (toString n).toList := by simp_all
        exact absurd (hm ▸ by simp) (hdigits m)
  · cases mid with
    | nil => exact String.toList_inj.mp (by simpa using ha)
    | cons c mid =>
        have hn : (toString n).toList = mid ++ '_' :: (toString m).toList := by simp_all
        exact absurd (hn ▸ by simp) (hdigits n)

/-- The key is the name of the detection with a number. -/
def Detection.Keyed (d : Detection) (key : String) : Prop :=
  ∃ n, key = numbered d.name.display n

/-- Two texts are the same document exactly if they are equal. -/
theorem same_text_iff {a b : String} : (Document.text a).same (.text b) = true ↔ a = b := by
  show (a == b) = true ↔ a = b
  exact beq_iff_eq

/-! ### Detections and the trackers that hold them -/

/-- A tracker that holds a detection since a given time. -/
def Detection.held (d : Detection) (stamp : Float) : Tracker :=
  { name := d.name, x := d.x.toValue, y := d.y.toValue, width := d.width.toValue,
    height := d.height.toValue, stamp := stamp }

/-- The distance of a detection from an earlier one of the same name is a double. -/
def Detection.Comparable (e d : Detection) : Prop :=
  e.name = d.name → ∃ x, (e.held 0).distance d = .ok x

/-- Detections whose distance can be computed are comparable. -/
theorem comparable_of_isOk {e d : Detection} (h : ((e.held 0).distance d).isOk = true) :
    e.Comparable d := by
  intro _
  cases hx : (e.held 0).distance d with
  | ok x => exact ⟨x, rfl⟩
  | error f =>
      rw [hx] at h
      cases h

theorem Number.toReal_toValue (n : Number) : n.toValue.toReal = n.toFloat := by
  cases n with
  | int n => rfl
  | float x => rfl

/-- Where a tracker has its object, as a sighting. -/
def Tracker.sighting (t : Tracker) : Sighting :=
  match Sighting.ofValues t.name t.x t.y t.width t.height with
  | .ok s => s
  | .error _ => default

/-- A tracker holds the values of the detection that it was made from. -/
theorem ofValues_held (d : Detection) (stamp : Float) :
    Sighting.ofValues (d.held stamp).name (d.held stamp).x (d.held stamp).y (d.held stamp).width
      (d.held stamp).height = d.toSighting := by
  simp only [Sighting.ofValues, Detection.held, Number.toReal_toValue]
  rfl

/-- What a tracker sees is what its detection shows. -/
theorem sighting_held {d : Detection} {s : Sighting} (h : d.toSighting = .ok s) (stamp : Float) :
    (d.held stamp).sighting = s := by
  rw [Tracker.sighting, ofValues_held, h]

/-- A tracker predicts what it holds until its life is over. -/
theorem predict_held {d : Detection} {s : Sighting} (h : d.toSighting = .ok s) {stamp time : Float}
    (hsoon : ¬time - stamp > trackerLife) : (d.held stamp).predict time = .ok (some s) := by
  have hstamp : (d.held stamp).stamp = stamp := rfl
  rw [Tracker.predict, hstamp, if_neg hsoon, ofValues_held, h]
  rfl

/-- Every tracker holds one of the detections seen, under its name and a number. -/
def Trackers.Hold (ts : Trackers) (seen : List Detection) : Prop :=
  ∀ e ∈ ts.entries, ∃ d ∈ seen, (∃ stamp, e.2 = d.held stamp) ∧ d.Keyed e.1

/-! ### Finding the tracker of a detection -/

/-- A tracker with the name of a detection becomes the nearest one or leaves the nearest one. -/
theorem nearestFrom_cons {d : Detection} (key : String) {t : Tracker} {x : Float}
    (hx : t.name.same d.name = true → t.distance d = .ok x) (best : Option (String × Float))
    (rest : List (String × Tracker)) :
    ∃ best', nearestFrom d best ((key, t) :: rest) = nearestFrom d best' rest ∧
      (best' = best ∨ t.name.same d.name = true ∧ best' = some (key, x)) := by
  cases hname : t.name.same d.name with
  | false => exact ⟨best, by simp [nearestFrom, hname], .inl rfl⟩
  | true =>
      have hchoice : ∀ bound : Float, (if x < bound then some (key, x) else best) = best ∨
          (if x < bound then some (key, x) else best) = some (key, x) := by
        intro bound
        split
        · exact .inr rfl
        · exact .inl rfl
      cases best with
      | none =>
          rw [nearestFrom, if_pos hname, hx hname]
          exact ⟨_, rfl, (hchoice _).imp_right fun h => ⟨rfl, h⟩⟩
      | some nearest =>
          rw [nearestFrom, if_pos hname, hx hname]
          exact ⟨_, rfl, (hchoice _).imp_right fun h => ⟨rfl, h⟩⟩

/-- If the distances are doubles, the search succeeds.  What it finds is a tracker with the name of
the detection. -/
theorem exists_nearestFrom {d : Detection} {entries : List (String × Tracker)}
    (h : ∀ e ∈ entries, e.2.name.same d.name = true → ∃ x, e.2.distance d = .ok x)
    (best : Option (String × Float)) :
    ∃ found, nearestFrom d best entries = .ok found ∧
      (found = best ∨ ∃ e ∈ entries, e.2.name.same d.name = true ∧ ∃ x, found = some (e.1, x)) := by
  induction entries generalizing best with
  | nil => exact ⟨best, rfl, .inl rfl⟩
  | cons e rest ih =>
      obtain ⟨x, hx⟩ : ∃ x, e.2.name.same d.name = true → e.2.distance d = .ok x := by
        by_cases hname : e.2.name.same d.name = true
        · obtain ⟨x, hx⟩ := h e List.mem_cons_self hname
          exact ⟨x, fun _ => hx⟩
        · exact ⟨0, fun hsame => absurd hsame hname⟩
      obtain ⟨best', hstep, hbest⟩ := nearestFrom_cons e.1 hx best rest
      obtain ⟨found, hfound, horigin⟩ := ih (fun e' he' => h e' (List.mem_cons_of_mem e he')) best'
      refine ⟨found, hstep.trans hfound, ?_⟩
      obtain rfl | ⟨e', he', hname, hkey⟩ := horigin
      · obtain rfl | ⟨hname, rfl⟩ := hbest
        · exact .inl rfl
        · exact .inr ⟨e, List.mem_cons_self, hname, x, rfl⟩
      · exact .inr ⟨e', List.mem_cons_of_mem e he', hname, hkey⟩

/-- The tracker that a detection belongs to, if there is one that can be told. -/
def Trackers.ownerOf (ts : Trackers) (d : Detection) : Option String :=
  match ts.owner? d with
  | .ok owner => owner
  | .error _ => none

/-- The owner of a detection, where finding it does not fail. -/
theorem Trackers.ownerOf_eq {ts : Trackers} {d : Detection} {owner : Option String}
    (h : ts.owner? d = .ok owner) : ts.ownerOf d = owner := by
  rw [Trackers.ownerOf, h]

/-- The names of detections are texts. -/
def Named (ds : List Detection) : Prop := ∀ d ∈ ds, ∃ name, d.name = .text name

/-- Detections that are named by texts have the same name only if the names are equal. -/
theorem name_eq_of_same {ds : List Detection} (hnamed : Named ds) {e d : Detection} (he : e ∈ ds)
    (hd : d ∈ ds) (h : e.name.same d.name = true) : e.name = d.name := by
  obtain ⟨a, ha⟩ := hnamed e he
  obtain ⟨b, hb⟩ := hnamed d hd
  rw [ha, hb] at h ⊢
  rw [same_text_iff.mp h]

/-- The owner is the nearest tracker, if that is near enough. -/
theorem owner?_of_nearestFrom {ts : Trackers} {d : Detection} {found : Option (String × Float)}
    (h : nearestFrom d none ts.entries = .ok found) :
    ∃ owner, ts.owner? d = .ok owner ∧ ∀ key, owner = some key → ∃ x, found = some (key, x) := by
  rw [Trackers.owner?, h]
  cases found with
  | none => exact ⟨none, rfl, fun key hkey => by cases hkey⟩
  | some best =>
      obtain ⟨key, x⟩ := best
      refine ⟨if x < matchingDistance then some key else none, rfl, fun key' hkey => ⟨x, ?_⟩⟩
      split at hkey
      · rw [Option.some.inj hkey]
      · cases hkey

/-- A detection has an owner or not; the owner holds a detection with its name. -/
theorem owner_of_hold {ts : Trackers} {seen : List Detection} {d : Detection} (hhold : ts.Hold seen)
    (hnamed : Named (seen ++ [d])) (hcomparable : ∀ e ∈ seen, e.Comparable d) :
    ts.owner? d = .ok (ts.ownerOf d) ∧ ∀ key, ts.ownerOf d = some key →
      ∃ t, ts.find? key = some t ∧ t.name = d.name ∧ d.Keyed key := by
  have hsame : ∀ e ∈ seen, e.name.same d.name = true → e.name = d.name := fun e he =>
    name_eq_of_same hnamed (List.mem_append_left _ he) (by simp)
  have hdistance : ∀ e ∈ ts.entries, e.2.name.same d.name = true → ∃ x, e.2.distance d = .ok x := by
    intro e he h
    obtain ⟨d', hd', ⟨stamp, hheld⟩, -⟩ := hhold e he
    rw [hheld] at h ⊢
    exact hcomparable d' hd' (hsame d' hd' h)
  obtain ⟨found, hfound, horigin⟩ := exists_nearestFrom hdistance none
  obtain ⟨owner, howner, hnearest⟩ := owner?_of_nearestFrom hfound
  rw [Trackers.ownerOf_eq howner]
  refine ⟨howner, fun key hkey => ?_⟩
  obtain ⟨x, rfl⟩ := hnearest key hkey
  obtain hnone | ⟨e, he, hname, x', hbest⟩ := horigin
  · cases hnone
  · obtain ⟨rfl, -⟩ := Prod.mk.inj (Option.some.inj hbest)
    obtain ⟨d', hd', ⟨stamp, hheld⟩, hkeyed⟩ := hhold e he
    rw [hheld] at hname
    have hname' : d'.name = d.name := hsame d' hd' hname
    refine ⟨e.2, Table.find?_eq_some_iff.mpr he, ?_, ?_⟩
    · rw [hheld]
      exact hname'
    · rw [Detection.Keyed, ← hname']
      exact hkeyed

/-- A detection with a new name has no owner. -/
theorem ownerOf_eq_none {ts : Trackers} {seen : List Detection} {d : Detection}
    (hhold : ts.Hold seen) (hnamed : Named (seen ++ [d])) (hcomparable : ∀ e ∈ seen, e.Comparable d)
    (hnew : ∀ e ∈ seen, e.name ≠ d.name) : ts.ownerOf d = none := by
  cases howner : ts.ownerOf d with
  | none => rfl
  | some key =>
      obtain ⟨t, hfind, hname, -⟩ := (owner_of_hold hhold hnamed hcomparable).2 key howner
      obtain ⟨e, he, ⟨stamp, rfl⟩, -⟩ := hhold (key, t) (Table.find?_eq_some_iff.mp hfind)
      exact absurd hname (hnew e he)

/-! ### Entering the detections of a frame -/

/-- The clock after a number of readings. -/
def afterReadings (c : Clock) (n : Nat) : Clock := Clock.afterReading^[n] c

/-- Readings of the clock one after the other. -/
theorem afterReadings_add (c : Clock) (m n : Nat) :
    afterReadings c (m + n) = afterReadings (afterReadings c n) m :=
  Function.iterate_add_apply Clock.afterReading m n c

namespace Matching

/-- The key that a detection is entered under. -/
def key (m : Matching) (d : Detection) : String :=
  (m.before.ownerOf d).getD (newKey d m.before)

/-- The frame after a detection was entered. -/
def next (m : Matching) (d : Detection) : Matching := m.enter d (m.before.ownerOf d)

/-- The keys that detections are entered under, one after the other. -/
def keys : List Detection → Matching → List String
  | [], _ => []
  | d :: ds, m => m.key d :: keys ds (m.next d)

/-- A detection that has an owner takes the place of what that held. -/
theorem enter_some {m : Matching} {d : Detection} {key : String} {t : Tracker}
    (hfind : m.before.find? key = some t) (hname : t.name = d.name) :
    m.enter d (some key) =
      { before := m.before.insert key (d.held m.scene.clock.reading),
        found := m.found.insert key (d.held m.scene.clock.reading),
        scene := m.scene.readClock.2 } := by
  have hupdate : t.update d.x.toValue d.y.toValue d.width.toValue d.height.toValue
      m.scene.clock.reading = d.held m.scene.clock.reading := by
    rw [Tracker.update, hname]
    rfl
  simp only [enter, Option.bind_some, hfind, Option.map_some, Scene.readClock, hupdate]

/-- Entering a detection brings its tracker up to date, or founds one. -/
theorem next_detection {m : Matching} {seen : List Detection} {d : Detection}
    (hhold : m.before.Hold seen) (hnamed : Named (seen ++ [d]))
    (hcomparable : ∀ e ∈ seen, e.Comparable d) :
    (m.next d).found = m.found.insert (m.key d) (d.held m.scene.clock.reading) ∧
      (m.next d).scene = m.scene.readClock.2 ∧ (m.next d).before.Hold (seen ++ [d]) ∧
      d.Keyed (m.key d) := by
  obtain ⟨-, howner⟩ := owner_of_hold hhold hnamed hcomparable
  have hmore : m.before.Hold (seen ++ [d]) := fun e he => by
    obtain ⟨d', hd', hheld⟩ := hhold e he
    exact ⟨d', List.mem_append_left _ hd', hheld⟩
  unfold next key
  cases hkey : m.before.ownerOf d with
  | none => exact ⟨rfl, rfl, hmore, m.before.size, rfl⟩
  | some key =>
      obtain ⟨t, hfind, hname, hkeyed⟩ := howner key hkey
      rw [enter_some hfind hname]
      -- The tracker is brought up to date among those of the frames before as well.
      refine ⟨rfl, rfl, fun e he => ?_, hkeyed⟩
      obtain rfl | hold := Table.mem_entries_insert he
      · exact ⟨d, by simp, ⟨_, rfl⟩, hkeyed⟩
      · exact hmore e hold

/-- Detections without owners are entered under new keys, with one number for all of them. -/
theorem keys_of_new {ds : List Detection} {m : Matching}
    (h : ∀ d ∈ ds, m.before.ownerOf d = none) :
    keys ds m = (ds.map Detection.name).map fun name => numbered name.display m.before.size := by
  induction ds generalizing m with
  | nil => rfl
  | cons d ds ih =>
      have hd : m.before.ownerOf d = none := h d List.mem_cons_self
      have hbefore : (m.next d).before = m.before := by
        rw [next, hd]
        rfl
      have hrest : ∀ d' ∈ ds, (m.next d).before.ownerOf d' = none := by
        rw [hbefore]
        exact fun d' hd' => h d' (List.mem_cons_of_mem d hd')
      rw [keys, ih hrest, hbefore, key, hd]
      rfl

/-- The trackers that hold detections entered one after the other. -/
def held : Clock → List Detection → List Tracker
  | _, [] => []
  | c, d :: ds => d.held c.reading :: held c.afterReading ds

/-- The detections of a frame are all entered, each under its key.  The keys are names with
numbers. -/
theorem run_detections {m : Matching} {seen : List Detection} {reps : List Document}
    {ds : List Detection} (hreps : List.Forall₂ (fun r d => Detection.ofDocument r = .ok d) reps ds)
    (hhold : m.before.Hold seen) (hnamed : Named (seen ++ ds))
    (hcomparable : (seen ++ ds).Pairwise Detection.Comparable) :
    (∃ before, run reps m = (.ok (),
        { before := before
          found := m.found.insertAll ((keys ds m).zip (held m.scene.clock ds))
          scene := { m.scene with clock := afterReadings m.scene.clock ds.length } })) ∧
      List.Forall₂ Detection.Keyed ds (keys ds m) := by
  -- A tracker that was matched holds a detection of this frame, so `seen` grows with every step.
  induction hreps generalizing m seen with
  | nil => exact ⟨⟨m.before, rfl⟩, .nil⟩
  | @cons r d reps ds hr hreps ih =>
      rw [List.append_cons] at hnamed hcomparable
      obtain ⟨hfirst, -, -⟩ := List.pairwise_append.mp hcomparable
      have hd : ∀ e ∈ seen, e.Comparable d := fun e he =>
        (List.pairwise_append.mp hfirst).2.2 e he d List.mem_cons_self
      have hnamed' : Named (seen ++ [d]) := fun e he => hnamed e (List.mem_append_left _ he)
      obtain ⟨howner, -⟩ := owner_of_hold hhold hnamed' hd
      obtain ⟨hfound, hscene, hhold', hkeyed⟩ := next_detection hhold hnamed' hd
      obtain ⟨⟨before, hrun⟩, hkeys⟩ := ih hhold' hnamed hcomparable
      refine ⟨⟨before, ?_⟩, .cons hkeyed hkeys⟩
      have hstep : run (r :: reps) m = run reps (m.next d) := by
        simp only [run, hr, bind, Except.bind, howner, pure, Except.pure]
        rfl
      rw [hstep, hrun, hfound, hscene]
      rfl

/-- What is entered holds a detection since its turn, under its name and a number. -/
theorem held_of_mem {ks : List String} {ds : List Detection}
    (hkeys : List.Forall₂ Detection.Keyed ds ks) {c : Clock} {e : String × Tracker}
    (he : e ∈ ks.zip (held c ds)) :
    ∃ d ∈ ds, (∃ i < ds.length, e.2 = d.held (afterReadings c i).reading) ∧ d.Keyed e.1 := by
  induction hkeys generalizing c with
  | nil => cases he
  | @cons d key ds ks hkey _ ih =>
      rcases List.mem_cons.mp he with rfl | he
      · exact ⟨d, List.mem_cons_self, ⟨0, by simp, rfl⟩, hkey⟩
      · obtain ⟨d', hd', ⟨i, hi, hheld⟩, hn⟩ := ih he
        exact ⟨d', List.mem_cons_of_mem d hd', ⟨i + 1, by simpa using hi, hheld⟩, hn⟩

/-- The trackers held for some detections see what these show. -/
theorem map_sighting_held {ds : List Detection} {sightings : List Sighting}
    (h : List.Forall₂ (fun d s => d.toSighting = .ok s) ds sightings) (c : Clock) :
    (held c ds).map Tracker.sighting = sightings := by
  induction h generalizing c with
  | nil => rfl
  | cons hd _ ih => rw [held, List.map_cons, sighting_held hd, ih]

/-- What the trackers of a frame show: of several detections with one key, the last one. -/
theorem sightings_found {ds : List Detection} {sightings : List Sighting}
    (h : List.Forall₂ (fun d s => d.toSighting = .ok s) ds sightings) (ks : List String)
    (c : Clock) :
    ((Table.empty.insertAll (ks.zip (held c ds))).entries.map fun e => e.2.sighting) =
      (Table.ofList (ks.zip sightings)).values := by
  have hpairs : (ks.zip (held c ds)).map (fun e => (e.1, e.2.sighting)) = ks.zip sightings := by
    rw [← map_sighting_held h c, List.zip_map_right]
    rfl
  calc ((Table.empty.insertAll (ks.zip (held c ds))).entries.map fun e => e.2.sighting)
      = ((Table.empty.insertAll (ks.zip (held c ds))).mapValues fun _ => Tracker.sighting).values :=
        by simp [Table.values, Table.mapValues]
    _ = (Table.ofList (ks.zip sightings)).values := by
        rw [Table.mapValues_insertAll, hpairs]
        rfl

/-- Detections with different names are entered under different keys. -/
theorem nodup_keys {ks : List String} {ds : List Detection}
    (hkeys : List.Forall₂ Detection.Keyed ds ks) (hnamed : Named ds)
    (hnames : (ds.map Detection.name).Nodup) : ks.Nodup := by
  induction hkeys with
  | nil => exact List.nodup_nil
  | @cons d key ds ks hkey hkeys ih =>
      rw [List.map_cons, List.nodup_cons] at hnames
      obtain ⟨hfirst, hrest⟩ := hnames
      refine List.nodup_cons.mpr
        ⟨fun hmem => hfirst ?_, ih (fun e he => hnamed e (List.mem_cons_of_mem d he)) hrest⟩
      obtain ⟨n, rfl⟩ := hkey
      obtain ⟨i, hi, hget⟩ := List.mem_iff_getElem.mp hmem
      have hi' : i < ds.length := hkeys.length_eq ▸ hi
      obtain ⟨n', hn'⟩ := hkeys.get hi' hi
      have hdisplay : d.name.display = ds[i].name.display :=
        name_eq_of_numbered_eq (hget.symm.trans hn')
      obtain ⟨a, ha⟩ := hnamed d List.mem_cons_self
      obtain ⟨b, hb⟩ := hnamed ds[i] (List.mem_cons_of_mem d (List.getElem_mem hi'))
      have hname : d.name = ds[i].name := by
        rw [ha, hb] at hdisplay ⊢
        have hab : a = b := hdisplay
        rw [hab]
      exact hname ▸ List.mem_map_of_mem (List.getElem_mem hi')

end Matching

/-- Trackers that are asked in time all say where their objects are. -/
theorem Forecast.run_entries (entries : List (String × Tracker)) (f : Forecast)
    (h : ∀ e ∈ entries, ∀ i < entries.length,
      e.2.predict (afterReadings f.scene.clock i).reading = .ok (some e.2.sighting)) :
    Forecast.run entries f = (.ok (), { f with
      sightings := f.sightings ++ entries.map fun e => e.2.sighting
      scene := { f.scene with clock := afterReadings f.scene.clock entries.length } }) := by
  induction entries generalizing f with
  | nil => simp [Forecast.run, afterReadings]
  | cons e rest ih =>
      obtain ⟨key, t⟩ := e
      have hfirst : t.predict f.scene.clock.reading = .ok (some t.sighting) :=
        h (key, t) List.mem_cons_self 0 (by simp)
      have hrest : ∀ e ∈ rest, ∀ i < rest.length,
          e.2.predict (afterReadings f.scene.readClock.2.clock i).reading =
            .ok (some e.2.sighting) :=
        fun e he i hi => h e (List.mem_cons_of_mem _ he) (i + 1) (by simpa using hi)
      have hstep : Forecast.run ((key, t) :: rest) f = Forecast.run rest
          { f with sightings := f.sightings ++ [t.sighting], scene := f.scene.readClock.2 } := by
        simp only [Forecast.run, Scene.readClock, hfirst]
      rw [hstep, ih { f with
        sightings := f.sightings ++ [t.sighting], scene := f.scene.readClock.2 } hrest]
      simp only [List.append_assoc]
      rfl

/-! ### Frames one after the other -/

/-- A frame as a detection service ought to report it, and the clock when it is shared: every report
describes a detection, names are texts, and middles and sizes are doubles.  Following the frame
takes less time than a tracker lasts: the clock is read when the frame is shared, when a detection
is entered and when a tracker is asked. -/
structure View where
  clock : Clock
  frame : Frame
  result : Document
  detections : List Detection
  sightings : List Sighting
  reported : ∃ reps, reports result = .ok reps ∧
    List.Forall₂ (fun r d => Detection.ofDocument r = .ok d) reps detections
  named : Named detections
  sighted : List.Forall₂ (fun d s => d.toSighting = .ok s) detections sightings
  prompt : ∀ i < detections.length, ∀ j < detections.length,
    ¬(afterReadings clock (j + (detections.length + 1))).reading -
      (afterReadings clock (i + 1)).reading > trackerLife

/-- All that a result shows has the same number of objects. -/
theorem Shows.length_eq {result : Document} {objects objects' : List Sighting}
    (h : Shows result objects) (h' : Shows result objects') : objects.length = objects'.length := by
  obtain ⟨ds, hds, hall⟩ := h
  obtain ⟨ds', hds', hall'⟩ := h'
  obtain rfl : ds = ds' := Except.ok.inj (hds.symm.trans hds')
  exact hall.length_eq.symm.trans hall'.length_eq

/-- The result of a view shows its sightings. -/
theorem View.shows (v : View) : Shows v.result v.sightings := by
  obtain ⟨reps, hreports, hreps⟩ := v.reported
  refine ⟨reps, hreports, List.forall₂_iff_get.mpr ⟨?_, fun i hi hi' => ?_⟩⟩
  · exact hreps.length_eq.trans v.sighted.length_eq
  · have hd : i < v.detections.length := hreps.length_eq ▸ hi
    rw [depicts_iff, bind_eq_ok_iff]
    exact ⟨_, hreps.get hi hd, v.sighted.get hd hi'⟩

/-- Every detection of a view can be shown. -/
theorem View.exists_toSighting (v : View) (d : Detection) (hd : d ∈ v.detections) :
    ∃ s, d.toSighting = .ok s := by
  obtain ⟨i, hi, rfl⟩ := List.mem_iff_getElem.mp hd
  exact ⟨_, v.sighted.get hi (v.sighted.length_eq ▸ hi)⟩

namespace Sight

/-- Shares a frame and brings the trackers up to date with it. -/
def follow (s : Sight) (v : View) : Except Fault Unit × Sight :=
  (s.perform (.share v.clock v.frame v.result)).2.track

/-- The sight after some frames. -/
def following (views : List View) : Sight :=
  views.foldl (fun s v => (s.follow v).2) {}

/-- The keys that the detections of a frame are entered under. -/
def keysFor (s : Sight) (v : View) : List String :=
  Matching.keys v.detections
    { before := s.trackers, scene := (s.perform (.share v.clock v.frame v.result)).2.scene }

/-- The trackers of a frame. -/
def trackersFor (s : Sight) (v : View) : Trackers :=
  Table.empty.insertAll ((s.keysFor v).zip (Matching.held v.clock.afterReading v.detections))

/-- A frame whose detections are all entered, and whose trackers all say where their objects are. -/
theorem track_of_run {s : Sight} {reps : List Document} {m : Matching} {f : Forecast}
    (hstale : s.isCurrent = false) (hreports : reports s.scene.shared.result = .ok reps)
    (hrun : Matching.run reps { before := s.trackers, scene := s.scene } = (.ok (), m))
    (hforecast : Forecast.run m.found.entries { scene := m.scene } = (.ok (), f))
    (hexpired : f.expired = []) :
    ∃ s', s.track = (.ok (), s') ∧ s'.last = s.scene.shared.stamp ∧ s'.trackers = m.found ∧
      s'.objects = f.sightings := by
  have hkeep : m.found.filter (fun key _ => !f.expired.contains key) = m.found :=
    Table.filter_eq_self (by simp [hexpired])
  simp only [track, hstale, hreports, hrun, hforecast, hkeep, Bool.false_eq_true, if_false]
  exact ⟨_, rfl, rfl, rfl, rfl⟩

section
variable {s : Sight} {v : View}
  (hkeys : List.Forall₂ Detection.Keyed v.detections (s.keysFor v))
include hkeys

/-- Every tracker for a view holds one of its detections, under a key made from its name. -/
theorem held_of_mem_trackersFor {e : String × Tracker} (he : e ∈ (s.trackersFor v).entries) :
    ∃ d ∈ v.detections,
      (∃ i < v.detections.length, e.2 = d.held (afterReadings v.clock.afterReading i).reading) ∧
        d.Keyed e.1 := by
  rcases Table.mem_entries_insertAll he with hmem | hmem
  · exact Matching.held_of_mem hkeys hmem
  · cases hmem

/-- There are at most as many trackers as detections. -/
theorem length_trackersFor_le : (s.trackersFor v).entries.length ≤ v.detections.length := by
  have hle : (s.trackersFor v).entries.length ≤ 0 + ((s.keysFor v).zip
      (Matching.held v.clock.afterReading v.detections)).length := Table.size_insertAll_le _ _
  rw [List.length_zip, ← hkeys.length_eq] at hle
  omega

/-- The trackers of a frame are asked while they last. -/
theorem predict_trackersFor {e : String × Tracker} (he : e ∈ (s.trackersFor v).entries) {j : Nat}
    (hj : j < (s.trackersFor v).entries.length) :
    e.2.predict (afterReadings (afterReadings v.clock.afterReading v.detections.length) j).reading =
      .ok (some e.2.sighting) := by
  obtain ⟨d, hd, ⟨i, hi, hheld⟩, -⟩ := held_of_mem_trackersFor hkeys he
  obtain ⟨sighting, hsighting⟩ := v.exists_toSighting d hd
  rw [hheld, sighting_held hsighting]
  refine predict_held hsighting ?_
  have hprompt := v.prompt i hi j (Nat.lt_of_lt_of_le hj (length_trackersFor_le hkeys))
  rw [afterReadings_add] at hprompt
  exact hprompt

end

/-- One frame: its detections are in sight as far as later ones with the same key do not take their
places, and the trackers hold them. -/
theorem follow_view {s : Sight} {v : View} {seen : List Detection} (hhold : s.trackers.Hold seen)
    (hnamed : Named (seen ++ v.detections))
    (hcomparable : (seen ++ v.detections).Pairwise Detection.Comparable)
    (hdistinct : (v.clock.reading == s.last.getD 0) = false) :
    ∃ s', s.follow v = (.ok (), s') ∧ s'.last = some v.clock.reading ∧
      s'.trackers.Hold v.detections ∧
      s'.objects = (Table.ofList ((s.keysFor v).zip v.sightings)).values ∧
      List.Forall₂ Detection.Keyed v.detections (s.keysFor v) := by
  obtain ⟨reps, hreports, hreps⟩ := v.reported
  obtain ⟨⟨before, hrun⟩, hkeys⟩ := Matching.run_detections
    (m := { before := s.trackers
            scene := (s.perform (.share v.clock v.frame v.result)).2.scene })
    hreps hhold hnamed hcomparable
  have hforecast := Forecast.run_entries (s.trackersFor v).entries
    { scene := { (s.perform (.share v.clock v.frame v.result)).2.scene with
      clock := afterReadings v.clock.afterReading v.detections.length } }
    fun e he j hj => predict_trackersFor hkeys he hj
  obtain ⟨s', htrack, hlast, htrackers, hobjects⟩ :=
    track_of_run (s := (s.perform (.share v.clock v.frame v.result)).2) hdistinct hreports hrun
      hforecast rfl
  refine ⟨s', htrack, hlast, fun e he => ?_, ?_, hkeys⟩
  · rw [htrackers] at he
    obtain ⟨d, hd, ⟨i, -, hheld⟩, hn⟩ := held_of_mem_trackersFor hkeys he
    exact ⟨d, hd, ⟨_, hheld⟩, hn⟩
  · rw [hobjects]
    exact Matching.sightings_found v.sighted (s.keysFor v) v.clock.afterReading

end Sight

/-- Frames that are shared at different times, none of them the time zero that a sight notes at
first, and between whose detections distances are doubles. -/
structure Followable (views : List View) : Prop where
  distinct : (0 :: views.map fun v => v.clock.reading).Pairwise fun a b => (b == a) = false
  comparable : (views.flatMap View.detections).Pairwise Detection.Comparable

/-- The detections of all views are named by texts. -/
theorem named_flatMap (views : List View) : Named (views.flatMap View.detections) := by
  intro d hd
  obtain ⟨v, -, hv⟩ := List.mem_flatMap.mp hd
  exact v.named d hv

namespace Followable

variable {views : List View} {v : View}

/-- Views that can be followed could be followed before the last one. -/
theorem of_append (h : Followable (views ++ [v])) : Followable views := by
  obtain ⟨hdistinct, hcomparable⟩ := h
  rw [List.map_append, ← List.cons_append] at hdistinct
  rw [List.flatMap_append] at hcomparable
  exact ⟨(List.pairwise_append.mp hdistinct).1, (List.pairwise_append.mp hcomparable).1⟩

/-- The last view comes at a time of its own. -/
theorem reading_ne (h : Followable (views ++ [v])) :
    ∀ time ∈ 0 :: views.map (fun v => v.clock.reading), (v.clock.reading == time) = false := by
  have hdistinct := h.distinct
  rw [List.map_append, ← List.cons_append] at hdistinct
  exact fun time htime =>
    (List.pairwise_append.mp hdistinct).2.2 time htime v.clock.reading (by simp)

/-- What follows from one more frame. -/
theorem follow (h : Followable (views ++ [v])) {s : Sight}
    (hhold : s.trackers.Hold (views.flatMap View.detections))
    (hlast : s.last.getD 0 ∈ 0 :: views.map fun v => v.clock.reading) :
    ∃ s', s.follow v = (.ok (), s') ∧ s'.last = some v.clock.reading ∧
      s'.trackers.Hold v.detections ∧
      s'.objects = (Table.ofList ((s.keysFor v).zip v.sightings)).values ∧
      List.Forall₂ Detection.Keyed v.detections (s.keysFor v) := by
  have hnamed := named_flatMap (views ++ [v])
  have hcomparable := h.comparable
  rw [List.flatMap_append, List.flatMap_singleton] at hnamed hcomparable
  exact Sight.follow_view hhold hnamed hcomparable (h.reading_ne _ hlast)

/-- Detections with names that no frame before had have no owners. -/
theorem ownerOf_eq_none (h : Followable (views ++ [v])) {ts : Trackers}
    (hhold : ts.Hold (views.flatMap View.detections))
    (hnew : ∀ e ∈ views.flatMap View.detections, ∀ d ∈ v.detections, e.name ≠ d.name) :
    ∀ d ∈ v.detections, ts.ownerOf d = none := by
  intro d hd
  have hcomparable := h.comparable
  rw [List.flatMap_append, List.flatMap_singleton] at hcomparable
  refine Vision.ownerOf_eq_none hhold (fun e he => ?_)
    (fun e he => (List.pairwise_append.mp hcomparable).2.2 e he d hd) (fun e he => hnew e he d hd)
  rcases List.mem_append.mp he with he | he
  · exact named_flatMap views e he
  · exact v.named e (List.mem_singleton.mp he ▸ hd)

end Followable

/-- After any frames the trackers hold detections of these frames. -/
theorem hold_following {views : List View} (h : Followable views) :
    (Sight.following views).trackers.Hold (views.flatMap View.detections) ∧
      (Sight.following views).last.getD 0 ∈ 0 :: views.map fun v => v.clock.reading := by
  induction views using List.reverseRecOn with
  | nil => exact ⟨fun e he => absurd he List.not_mem_nil, List.mem_cons_self⟩
  | append_singleton views v ih =>
      obtain ⟨hhold, hlast⟩ := ih h.of_append
      obtain ⟨s', hfollow, hlast', hhold', -⟩ := h.follow hhold hlast
      have hs' : Sight.following (views ++ [v]) = s' := by
        rw [Sight.following, List.foldl_append]
        exact congrArg Prod.snd hfollow
      rw [hs']
      refine ⟨fun e he => ?_, by simp [hlast']⟩
      obtain ⟨d, hd, hheld⟩ := hhold' e he
      exact ⟨d, by simp [hd], hheld⟩

/-- In a sequence of frames, what is in sight after each is the last sighting for each key.  So the
frame is in sight as a whole exactly if its detections are entered under different keys; otherwise
there are fewer objects in sight than detections.  Different names are enough, and in a frame without
a name of the frames before they are needed. -/
theorem followed_whole_iff {views : List View} {v : View} (h : Followable (views ++ [v])) :
    ∃ s, (Sight.following views).follow v = (.ok (), s) ∧
      s.objects = (Table.ofList (((Sight.following views).keysFor v).zip v.sightings)).values ∧
      (Shows v.result s.objects ↔ ((Sight.following views).keysFor v).Nodup) ∧
      (¬((Sight.following views).keysFor v).Nodup → s.objects.length < v.detections.length) ∧
      ((v.detections.map Detection.name).Nodup → Shows v.result s.objects) ∧
      ((∀ e ∈ views.flatMap View.detections, ∀ d ∈ v.detections, e.name ≠ d.name) →
        Shows v.result s.objects → (v.detections.map Detection.name).Nodup) := by
  obtain ⟨hhold, hlast⟩ := hold_following h.of_append
  obtain ⟨s, hfollow, -, -, hobjects, hkeys⟩ := h.follow hhold hlast
  have hlength : ((Sight.following views).keysFor v).length = v.sightings.length :=
    hkeys.length_eq.symm.trans v.sighted.length_eq
  have hwhole : ((Sight.following views).keysFor v).Nodup → Shows v.result s.objects := by
    intro hnodup
    rw [hobjects, Table.values_ofList_zip hlength hnodup]
    exact v.shows
  have hfewer : ¬((Sight.following views).keysFor v).Nodup →
      s.objects.length < v.detections.length := by
    intro hnodup
    rw [hobjects, v.sighted.length_eq]
    exact Table.length_values_ofList_zip_lt hlength hnodup
  have hkeep : Shows v.result s.objects → ((Sight.following views).keysFor v).Nodup := by
    intro hshows
    by_contra hnodup
    have hsame : s.objects.length = v.detections.length := by
      rw [v.sighted.length_eq]
      exact hshows.length_eq v.shows
    exact absurd hsame (Nat.ne_of_lt (hfewer hnodup))
  refine ⟨s, hfollow, hobjects, ⟨hkeep, hwhole⟩, hfewer, fun hnames => ?_, fun hnew hshows => ?_⟩
  · exact hwhole (Matching.nodup_keys hkeys v.named hnames)
  · have hnodup := hkeep hshows
    rw [Sight.keysFor, Matching.keys_of_new (h.ownerOf_eq_none hhold hnew)] at hnodup
    exact hnodup.of_map

/-- A report of an object ten wide and ten high, a given distance from the left. -/
def reportAt (name : String) (x : Int) : Document :=
  .dict [("name", .text name), ("box", .dict [("x1", .int x), ("y1", .int 0), ("x2", .int (x + 10)),
    ("y2", .int 10)])]

/-- A person. -/
def personView : View where
  clock := { now := 1000 }
  frame := .blank
  result := .dict [("result", .list [reportAt "person" 0])]
  detections := [⟨.text "person", .float 5, .float 5, .int 10, .int 10⟩]
  sightings := [⟨.text "person", 5, 5, 10, 10⟩]
  reported := ⟨[reportAt "person" 0], rfl, .cons rfl .nil⟩
  named := by simp [Named]
  sighted := .cons rfl .nil
  prompt := by decide +kernel

/-- Two dogs, far from each other. -/
def dogsView : View where
  clock := { now := 1001 }
  frame := .blank
  result := .dict [("result", .list [reportAt "dog" 0, reportAt "dog" 100])]
  detections := [⟨.text "dog", .float 5, .float 5, .int 10, .int 10⟩,
    ⟨.text "dog", .float 105, .float 5, .int 10, .int 10⟩]
  sightings := [⟨.text "dog", 5, 5, 10, 10⟩, ⟨.text "dog", 105, 5, 10, 10⟩]
  reported := ⟨[reportAt "dog" 0, reportAt "dog" 100], rfl, .cons rfl (.cons rfl .nil)⟩
  named := by simp [Named]
  sighted := .cons rfl (.cons rfl .nil)
  prompt := by decide +kernel

/-- Two dogs come under one key, so one of them is lost. -/
theorem followed_whole_iff_dogs :
    Followable [personView, dogsView] ∧
      (Sight.following [personView]).keysFor dogsView = ["dog_1", "dog_1"] ∧
      ∃ s, (Sight.following [personView]).follow dogsView = (.ok (), s) ∧ s.objects.length < 2 := by
  have hfollowable : Followable ([personView] ++ [dogsView]) := by
    refine ⟨by decide, ?_⟩
    show List.Pairwise _ [_, _, _]
    refine .cons ?_ (.cons ?_ (List.pairwise_singleton _ _))
    · intro d hd hname
      rcases List.mem_pair.mp hd with rfl | rfl <;> simp [Document.text] at hname
    · intro d hd
      obtain rfl := List.mem_singleton.mp hd
      exact comparable_of_isOk (by decide +kernel)
  have hkeys : (Sight.following [personView]).keysFor dogsView = ["dog_1", "dog_1"] := rfl
  obtain ⟨s, hfollow, -, -, hfewer, -⟩ := followed_whole_iff hfollowable
  exact ⟨hfollowable, hkeys, s, hfollow, hfewer (by rw [hkeys]; decide)⟩

/-- Of two dogs in the first frame, one is in sight. -/
theorem follow_loses_dog :
    (Sight.follow {} dogsView).1 = .ok () ∧
      (Sight.follow {} dogsView).2.trackers.keys = ["dog_0"] ∧
      (Sight.follow {} dogsView).2.objects = [⟨.text "dog", 105, 5, 10, 10⟩] :=
  ⟨rfl, rfl, rfl⟩

end DronePilot.Vision
