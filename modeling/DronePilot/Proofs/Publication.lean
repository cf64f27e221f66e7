import DronePilot.Proofs.Freshness
import DronePilot.Service.Detection

/-!
# What is published about an object

The detection service publishes what the network found in a picture: for each object a name, which is
that of its class, with a low line and the number of its track if objects are tracked, and a box.
Whoever looks for an object later has nothing but this name to go by.

* `Spotted` — an object that the network found, with the class that it has and the name that is
  published.
* `Publishes.exists_exhibits`, `Exhibits.shows` — a published result always has objects, and what is
  decoded from it later is where they are seen.
* `Spotted.begins_iff` — which texts the published name begins with: those that stand for the class
  of the object, and those by which it is mistaken for another.
-/

namespace DronePilot.Vision

open DronePilot.Service

/-! ### Objects and their names -/

/-- An object that the network found: its class, its track if it has one, and where it is seen. -/
structure Spotted where
  className : String
  track : Option Int
  sighting : Sighting

namespace Spotted

/-- The name that is published. -/
def name (o : Spotted) : String :=
  match o.track with
  | none => o.className
  | some t => o.className ++ "_" ++ toString t

/-- Whether the published name begins with a text. -/
def begins (c : String) (o : Spotted) : Bool :=
  c.toList.isPrefixOf o.name.toList

/-- The object is taken for one of class `c` though its class is another: `c` is the beginning of the
name of its class, or that name with a low line and the first digits of its track. -/
def Mistaken (c : String) (o : Spotted) : Prop :=
  o.className ≠ c ∧
    (c.toList <+: o.className.toList ∨
      ∃ t digits, o.track = some t ∧ digits <+: (toString t).toList ∧
        c.toList = o.className.toList ++ '_' :: digits)

end Spotted

/-- A beginning of a list ends before a given element or goes beyond it. -/
theorem prefix_append_cons_iff {α : Type} {s a b : List α} {x : α} :
    s <+: a ++ x :: b ↔ s <+: a ∨ ∃ t, t <+: b ∧ s = a ++ x :: t := by
  constructor
  · intro h
    obtain hshort | ⟨rest, rfl⟩ := List.prefix_or_prefix_of_prefix h (List.prefix_append a (x :: b))
    · exact .inl hshort
    · rw [List.prefix_append_right_inj, List.prefix_cons_iff] at h
      obtain rfl | ⟨t, rfl, ht⟩ := h
      · exact .inl (by rw [List.append_nil])
      · exact .inr ⟨t, ht, rfl⟩
  · intro h
    obtain hshort | ⟨t, ht, rfl⟩ := h
    · exact hshort.trans (List.prefix_append a (x :: b))
    · rw [List.prefix_append_right_inj, List.cons_prefix_cons]
      exact ⟨rfl, ht⟩

/-- The published name begins with the name of the class of the object, and with the texts by which
the object is mistaken for another. -/
theorem Spotted.begins_iff {c : String} {o : Spotted} :
    o.begins c = true ↔ o.className = c ∨ o.Mistaken c := by
  have hbegins : o.begins c = true ↔ c.toList <+: o.className.toList ∨
      ∃ t digits, o.track = some t ∧ digits <+: (toString t).toList ∧
        c.toList = o.className.toList ++ '_' :: digits := by
    rw [Spotted.begins, List.isPrefixOf_iff_prefix, Spotted.name]
    cases o.track with
    | none => simp
    | some t =>
        have hname : (o.className ++ "_" ++ toString t).toList =
            o.className.toList ++ '_' :: (toString t).toList := by simp
        rw [hname, prefix_append_cons_iff]
        simp
  rw [hbegins, Spotted.Mistaken]
  by_cases h : o.className = c
  · simp [h]
  · simp [h]

/-! ### Reports -/

/-- A value in another form comes from a value. -/
theorem map_eq_ok {α β : Type} {g : α → β} {x : Except Fault α} {b : β} (h : g <$> x = .ok b) :
    ∃ a, x = .ok a ∧ g a = b := by
  cases x with
  | error f => cases h
  | ok a => exact ⟨a, rfl, Except.ok.inj h⟩

/-- A quotient of numbers is a floating-point number. -/
theorem div_onNumbers_eq_ok {a b k : Number} (h : Operator.div.onNumbers a b = .ok k) :
    ∃ x, k = .float x := by
  unfold Operator.onNumbers at h
  split at h
  · obtain ⟨x, -, rfl⟩ := map_eq_ok h
    exact ⟨x, rfl⟩
  · simp only [bind_eq_ok_iff] at h
    obtain ⟨y, -, z, -, hdiv⟩ := h
    obtain ⟨x, -, rfl⟩ := map_eq_ok hdiv
    exact ⟨x, rfl⟩

/-- So is a quotient of values. -/
theorem div_apply_eq_ok {a b q : Value} (h : Operator.div.apply a b = .ok q) :
    ∃ x, q = .float x := by
  unfold Operator.apply at h
  split at h
  · obtain ⟨k, hk, rfl⟩ := map_eq_ok h
    obtain ⟨x, rfl⟩ := div_onNumbers_eq_ok hk
    exact ⟨x, rfl⟩
  · contradiction
  · contradiction
  · cases h

/-- Parts of a picture are doubles. -/
theorem share_eq_ok {v whole u : Value} (h : Service.share v whole = .ok u) :
    ∃ x, u = .float x := by
  obtain ⟨q, hq, hrounded⟩ := bind_eq_ok_iff.mp h
  obtain ⟨x, rfl⟩ := div_apply_eq_ok hq
  cases hrounded
  exact ⟨_, rfl⟩

/-- A box with four doubles. -/
def floatBox (x1 y1 x2 y2 : Float) : Document :=
  .dict [("x1", .float x1), ("y1", .float y1), ("x2", .float x2), ("y2", .float y2)]

/-- So the sides of a box that is reported are. -/
theorem box_eq_ok {f : Finding} {row : List Value} {box : Document} (h : f.box row = .ok box) :
    ∃ x1 y1 x2 y2, box = floatBox x1 y1 x2 y2 := by
  simp only [Finding.box, bind_eq_ok_iff] at h
  obtain ⟨_, -, u1, hu1, _, -, v1, hv1, _, -, u2, hu2, _, -, v2, hv2, hbox⟩ := h
  obtain ⟨x1, rfl⟩ := share_eq_ok hu1
  obtain ⟨y1, rfl⟩ := share_eq_ok hv1
  obtain ⟨x2, rfl⟩ := share_eq_ok hu2
  obtain ⟨y2, rfl⟩ := share_eq_ok hv2
  exact ⟨x1, y1, x2, y2, (Except.ok.inj hbox).symm⟩

/-- What a report with a name and such a box shows. -/
def floatSighting (name : String) (x1 y1 x2 y2 : Float) : Sighting :=
  { name := .text name, x := (x1 + x2) / 2, y := (y1 + y2) / 2, width := x2 - x1, height := y2 - y1 }

/-- A report with a name and such a box depicts the sighting of that name there. -/
theorem depicts_floatSighting {report : Document} {name : String} {x1 y1 x2 y2 : Float}
    (hname : report.field "name" = .ok (.text name))
    (hbox : report.field "box" = .ok (floatBox x1 y1 x2 y2)) :
    Depicts report (floatSighting name x1 y1 x2 y2) :=
  ⟨hname, hbox, rfl, rfl, rfl, rfl, rfl, rfl, rfl, rfl, rfl, rfl, rfl, rfl⟩

/-- A row of what the network gives is an object: its class is that of the number in the last column,
its track, if objects are tracked, the number in the third column from the end, and it is seen where
its report says, under its name. -/
structure Spots (f : Finding) (i : Nat) (row : List Value) (o : Spotted) : Prop where
  ofClass : ∃ v n, column row (-1) = .ok v ∧ v.toWhole = .ok n ∧ f.className n = .ok o.className
  onTrack : f.tracked = false ∧ o.track = none ∨
    f.tracked = true ∧ ∃ v t, column row (-3) = .ok v ∧ v.toWhole = .ok t ∧ o.track = some t
  reported : ∃ report, f.report i row = .ok report ∧ Depicts report o.sighting
  named : o.sighting.name = .text o.name

/-- The name of an object is made from its class, and from its track if it has one. -/
theorem objectName_eq_ok {f : Finding} {row : List Value} {n : Int} {name : String}
    (h : f.objectName row n = .ok name) :
    ∃ className track, f.className n = .ok className ∧
      (f.tracked = false ∧ track = none ∨
        f.tracked = true ∧ ∃ v t, column row (-3) = .ok v ∧ v.toWhole = .ok t ∧ track = some t) ∧
      ∀ sighting, name = Spotted.name ⟨className, track, sighting⟩ := by
  rw [Finding.objectName, bind_eq_ok_iff] at h
  obtain ⟨className, hclass, h⟩ := h
  cases htracked : f.tracked with
  | false =>
      rw [htracked] at h
      cases h
      exact ⟨name, none, hclass, .inl ⟨rfl, rfl⟩, fun _ => rfl⟩
  | true =>
      simp only [htracked, if_true, bind_eq_ok_iff] at h
      obtain ⟨v, hv, t, ht, hname⟩ := h
      cases hname
      exact ⟨className, some t, hclass, .inr ⟨rfl, v, t, hv, ht, rfl⟩, fun _ => rfl⟩

/-- Every report shows an object. -/
theorem spots_of_report {f : Finding} {i : Nat} {row : List Value} {report : Document}
    (h : f.report i row = .ok report) : ∃ o, Spots f i row o := by
  have hreport := h
  simp only [Finding.report, bind_eq_ok_iff] at h
  obtain ⟨box, hbox, _, -, v, hv, n, hn, name, hname, _, -, _, -, _, -, hdoc⟩ := h
  obtain ⟨x1, y1, x2, y2, rfl⟩ := box_eq_ok hbox
  obtain ⟨className, track, hclass, htrack, hsplit⟩ := objectName_eq_ok hname
  have hdepicts : Depicts report (floatSighting name x1 y1 x2 y2) := by
    cases hdoc
    exact depicts_floatSighting rfl rfl
  exact ⟨⟨className, track, floatSighting name x1 y1 x2 y2⟩,
    { ofClass := ⟨v, n, hv, hn, hclass⟩
      onTrack := htrack
      reported := ⟨report, hreport, hdepicts⟩
      named := congrArg Document.text (hsplit _) }⟩

/-! ### Results -/

/-- A detection result is what the service publishes about a finding. -/
def Publishes (result : Document) (f : Finding) : Prop :=
  ∃ docs, f.format = .ok (.list docs) ∧ result.field "result" = .ok (.list docs)

/-- The objects of a published result, in order: one for each row of the finding. -/
def Exhibits (result : Document) (view : List Spotted) : Prop :=
  ∃ f, Publishes result f ∧ List.Forall₂ (fun row o => Spots f row.2 row.1 o) f.rows.zipIdx view

/-- A finding that is formatted as a list is reported row by row. -/
theorem reportsFrom_eq_format {f : Finding} {docs : List Document}
    (h : f.format = .ok (.list docs)) : f.reportsFrom 0 f.rows = .ok docs := by
  unfold Finding.format at h
  split at h
  · cases h
  · obtain ⟨ds, hds, hlist⟩ := map_eq_ok h
    cases hlist
    exact hds

/-- Every row that is reported spots an object. -/
theorem exists_spots_of_reportsFrom {f : Finding} {i : Nat} {rows : List (List Value)}
    {docs : List Document} (h : f.reportsFrom i rows = .ok docs) :
    ∃ view, List.Forall₂ (fun row o => Spots f row.2 row.1 o) (rows.zipIdx i) view := by
  induction rows generalizing i docs with
  | nil => exact ⟨[], .nil⟩
  | cons row rest ih =>
      simp only [Finding.reportsFrom, bind_eq_ok_iff] at h
      obtain ⟨report, hreport, ds, hds, -⟩ := h
      obtain ⟨o, ho⟩ := spots_of_report hreport
      obtain ⟨view, hview⟩ := ih hds
      exact ⟨o :: view, .cons ho hview⟩

/-- Every published result has objects to decode. -/
theorem Publishes.exists_exhibits {result : Document} {f : Finding} (h : Publishes result f) :
    ∃ view, Exhibits result view := by
  obtain ⟨docs, hformat, -⟩ := id h
  obtain ⟨view, hview⟩ := exists_spots_of_reportsFrom (reportsFrom_eq_format hformat)
  exact ⟨view, f, h, hview⟩

/-- The reports depict the objects that are spotted. -/
theorem depicts_of_spots {f : Finding} {i : Nat} {rows : List (List Value)} {docs : List Document}
    {view : List Spotted} (h : f.reportsFrom i rows = .ok docs)
    (hview : List.Forall₂ (fun row o => Spots f row.2 row.1 o) (rows.zipIdx i) view) :
    List.Forall₂ Depicts docs (view.map Spotted.sighting) := by
  induction rows generalizing i docs view with
  | nil =>
      cases hview
      cases h
      exact .nil
  | cons row rest ih =>
      simp only [Finding.reportsFrom, bind_eq_ok_iff] at h
      obtain ⟨report, hreport, ds, hds, hdocs⟩ := h
      cases hdocs
      obtain ⟨o, others, ho, hothers, rfl⟩ := List.forall₂_cons_left_iff.mp hview
      obtain ⟨report', hreport', hdepicts⟩ := ho.reported
      obtain rfl : report = report' := Except.ok.inj (hreport.symm.trans hreport')
      exact .cons hdepicts (ih hds hothers)

/-- What is decoded from a published result is where its objects are seen. -/
theorem Exhibits.shows {result : Document} {view : List Spotted} (h : Exhibits result view) :
    Shows result (view.map Spotted.sighting) := by
  obtain ⟨f, ⟨docs, hformat, hfield⟩, hview⟩ := h
  refine ⟨docs, ?_, depicts_of_spots (reportsFrom_eq_format hformat) hview⟩
  rw [reports, hfield]
  rfl

/-- Whatever is exhibited is named by its name. -/
theorem Exhibits.named {result : Document} {view : List Spotted} (h : Exhibits result view) :
    ∀ o ∈ view, o.sighting.name = .text o.name := by
  obtain ⟨f, -, hview⟩ := h
  generalize f.rows.zipIdx = rows at hview
  induction hview with
  | nil => simp
  | cons ho _ ih => exact List.forall_mem_cons.mpr ⟨ho.named, ih⟩

/-- A report shows one sighting only. -/
theorem Depicts.eq {report : Document} {s t : Sighting} (hs : Depicts report s)
    (ht : Depicts report t) : s = t :=
  Except.ok.inj ((depicts_iff.mp hs).symm.trans (depicts_iff.mp ht))

/-- A result shows one list of sightings only. -/
theorem Shows.eq {result : Document} {objects objects' : List Sighting} (h : Shows result objects)
    (h' : Shows result objects') : objects = objects' := by
  obtain ⟨ds, hds, hall⟩ := h
  obtain ⟨ds', hds', hall'⟩ := h'
  obtain rfl : ds = ds' := Except.ok.inj (hds.symm.trans hds')
  have hunique : Relator.RightUnique Depicts := fun _ _ _ hs ht => Depicts.eq hs ht
  exact hunique.forall₂ hall hall'

end DronePilot.Vision
