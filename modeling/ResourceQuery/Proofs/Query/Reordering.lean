import ResourceQuery.Proofs.Query.Course
import ResourceQuery.Proofs.Query.RowByRow

/-!
# Selections in any order

A selection adds to every node that it goes through: properties, a range of time, children.  What
has been added is never taken away, so two selections can be made in either order, and a second
time without effect, as long as no property is given one range by the one and another range by
the other.  Then the query that many selections lead to depends on the selections alone, and not
on their order or on how often each is made.
-/

namespace ResourceQuery

/-! ## Updates that commute -/

section Updates

variable {α β : Type} {f : β → α → β} {xs ys : List α}

/-- An update that comes anyhow can be made in advance. -/
theorem foldl_of_mem (hself : ∀ x ∈ xs, ∀ b, f (f b x) x = f b x)
    (hcomm : ∀ x ∈ xs, ∀ y ∈ xs, ∀ b, f (f b x) y = f (f b y) x) {x : α} (hx : x ∈ xs) (b : β) :
    xs.foldl f (f b x) = xs.foldl f b := by
  induction xs generalizing b with
  | nil => cases hx
  | cons y ys ih =>
    rw [List.foldl_cons, List.foldl_cons]
    rcases List.mem_cons.1 hx with rfl | hx'
    · rw [hself x hx]
    · rw [hcomm x hx y List.mem_cons_self]
      exact ih (fun x hx => hself x (List.mem_cons_of_mem y hx))
        (fun x hx x' hx' => hcomm x (List.mem_cons_of_mem y hx) x' (List.mem_cons_of_mem y hx'))
        hx' (f b y)

theorem foldl_of_subset (hself : ∀ x ∈ xs, ∀ b, f (f b x) x = f b x)
    (hcomm : ∀ x ∈ xs, ∀ y ∈ xs, ∀ b, f (f b x) y = f (f b y) x) (hsubset : ys ⊆ xs) (b : β) :
    xs.foldl f (ys.foldl f b) = xs.foldl f b := by
  induction ys generalizing b with
  | nil => rfl
  | cons y ys ih =>
    obtain ⟨hy, hys⟩ := List.cons_subset.1 hsubset
    rw [List.foldl_cons, ih hys, foldl_of_mem hself hcomm hy]

/-- Updates that commute, and that change nothing the second time, lead to one state whenever the
same updates are made. -/
theorem foldl_eq_of_subset (hself : ∀ x ∈ xs, ∀ b, f (f b x) x = f b x)
    (hcomm : ∀ x ∈ xs, ∀ y ∈ xs, ∀ b, f (f b x) y = f (f b y) x) (hsubset : xs ⊆ ys)
    (hsubset' : ys ⊆ xs) (b : β) : xs.foldl f b = ys.foldl f b := by
  have hmem {x : α} (hx : x ∈ ys ++ xs) : x ∈ xs := by
    rcases List.mem_append.1 hx with hx | hx
    · exact hsubset' hx
    · exact hx
  calc xs.foldl f b
    _ = xs.foldl f (ys.foldl f b) := (foldl_of_subset hself hcomm hsubset' b).symm
    _ = (ys ++ xs).foldl f b := List.foldl_append.symm
    _ = (xs ++ ys).foldl f b := List.perm_append_comm.foldl_eq'
        (fun x hx y hy b => hcomm x (hmem hx) y (hmem hy) b) b
    _ = ys.foldl f (xs.foldl f b) := List.foldl_append
    _ = ys.foldl f b := foldl_of_subset (fun x hx => hself x (hsubset' hx))
        (fun x hx y hy => hcomm x (hsubset' hx) y (hsubset' hy)) hsubset b

end Updates

/-! ## What a selection adds to a node -/

/-- What a selection adds to one node. -/
structure Gain where
  properties : List PropertyId
  range : Option (PropertyId × TimeRange)
  children : List String
  allProperties : Bool
  defaultRange : Option TimeRange

/-- No property is given different ranges. -/
structure Gain.Fits (g h : Gain) : Prop where
  range : ∀ {id r r'}, g.range = some (id, r) → h.range = some (id, r') → r = r'
  defaultRange : ∀ {r r'}, g.defaultRange = some r → h.defaultRange = some r' → r = r'

/-- What is added on the way to a child. -/
def Gain.ofChild (keys : List PropertyId) (name : String) : Gain := ⟨keys, none, [name], false, none⟩

theorem Gain.fits_ofChild (g : Gain) (keys : List PropertyId) (name : String) :
    g.Fits (ofChild keys name) := ⟨nofun, nofun⟩

/-- What an aim adds to the node whose children have the given names. -/
def Aim.gain (range : Option TimeRange) (names : List String) : Aim → Gain
  | .nothing => ⟨[], none, [], false, none⟩
  | .all => ⟨[], none, names, true, range⟩
  | .property id => ⟨[id], range.map (id, ·), [], false, none⟩

namespace Aim

variable {a : Aim} {range : Option TimeRange} {names : List String} {r : TimeRange}

theorem range_gain_eq_some_iff {id : PropertyId} :
    (a.gain range names).range = some (id, r) ↔ a = .property id ∧ range = some r := by
  cases a with
  | nothing => exact iff_of_false nofun nofun
  | all => exact iff_of_false nofun nofun
  | property id' =>
    constructor
    · intro h
      obtain ⟨r', hr', heq⟩ := Option.map_eq_some_iff.1 h
      obtain ⟨rfl, rfl⟩ := Prod.mk.inj heq
      exact ⟨rfl, hr'⟩
    · rintro ⟨⟨⟩, rfl⟩
      rfl

theorem defaultRange_gain_eq_some_iff :
    (a.gain range names).defaultRange = some r ↔ a = .all ∧ range = some r := by
  cases a with
  | nothing => exact iff_of_false nofun nofun
  | all => exact (and_iff_right rfl).symm
  | property id => exact iff_of_false nofun nofun

end Aim

namespace QueryNode

variable (n : QueryNode) {g h : Gain}

/-- The node with a gain added. -/
def gain (g : Gain) : QueryNode :=
  { n with
    propertyIds := n.propertyIds.insertMany g.properties
    timeRanges := g.range.elim n.timeRanges fun p => n.timeRanges.insert p.1 p.2
    selected := n.selected.insertMany g.children
    allProperties := g.allProperties || n.allProperties
    defaultRange := g.defaultRange <|> n.defaultRange }

theorem gain_comm (hfits : g.Fits h) : (n.gain g).gain h = (n.gain h).gain g := by
  have hranges : h.range.elim (g.range.elim n.timeRanges fun p => n.timeRanges.insert p.1 p.2)
        (fun q => (g.range.elim n.timeRanges fun p => n.timeRanges.insert p.1 p.2).insert q.1 q.2) =
      g.range.elim (h.range.elim n.timeRanges fun q => n.timeRanges.insert q.1 q.2)
        fun p => (h.range.elim n.timeRanges fun q => n.timeRanges.insert q.1 q.2).insert p.1 p.2 := by
    cases hg : g.range with
    | none => rfl
    | some p =>
      cases hh : h.range with
      | none => rfl
      | some q =>
        obtain ⟨id, r⟩ := p
        obtain ⟨id', r'⟩ := q
        ext id'' : 1
        simp only [Option.elim_some, SortedMap.get?_insert]
        by_cases hid : id = id'
        · obtain rfl := hid
          rw [hfits.range hg hh]
        · by_cases hid' : id'' = id'
          · simp [hid', Ne.symm hid]
          · simp [hid']
  have hdefault : (h.defaultRange <|> g.defaultRange <|> n.defaultRange) =
      (g.defaultRange <|> h.defaultRange <|> n.defaultRange) := by
    cases hg : g.defaultRange with
    | none => rfl
    | some r =>
      cases hh : h.defaultRange with
      | none => rfl
      | some r' => exact congrArg some (hfits.defaultRange hg hh).symm
  simp only [gain, hranges, hdefault, SortedSet.insertMany_comm _ g.properties,
    SortedSet.insertMany_comm _ g.children, Bool.or_left_comm]

theorem gain_self (g : Gain) : (n.gain g).gain g = n.gain g := by
  have hranges : g.range.elim (g.range.elim n.timeRanges fun p => n.timeRanges.insert p.1 p.2)
        (fun q => (g.range.elim n.timeRanges fun p => n.timeRanges.insert p.1 p.2).insert q.1 q.2) =
      g.range.elim n.timeRanges fun p => n.timeRanges.insert p.1 p.2 := by
    cases g.range with
    | none => rfl
    | some p =>
      ext id : 1
      simp only [Option.elim_some, SortedMap.get?_insert]
      split <;> rfl
  have hdefault : (g.defaultRange <|> g.defaultRange <|> n.defaultRange) =
      (g.defaultRange <|> n.defaultRange) := by
    cases g.defaultRange with
    | none => rfl
    | some r => rfl
  simp only [gain, hranges, hdefault, SortedSet.insertMany_self, Bool.or_self_left]

/-- Of the children that are selected only the names count. -/
theorem gain_aim_congr (range : Option TimeRange) (a : Aim) {names names' : List String}
    (h : ∀ name, name ∈ names ↔ name ∈ names') :
    n.gain (a.gain range names) = n.gain (a.gain range names') := by
  cases a with
  | nothing => rfl
  | all => simp only [gain, Aim.gain, SortedSet.insertMany_congr _ h]
  | property id => rfl

end QueryNode

namespace Query

variable {c : Cluster} {f g : Query → Query} {q : Query} {range range' : Option TimeRange}

/-- The query with a gain added to its node, and with the given children. -/
def grow (g : Gain) (children : List (String × Query)) (q : Query) : Query :=
  mk (q.node.gain g) (some children)

@[simp] theorem childrenIn_grow (g : Gain) (children : List (String × Query)) (q : Query) :
    (q.grow g children).childrenIn c = children := rfl

@[simp] theorem keyIds_grow (g : Gain) (children : List (String × Query)) (q : Query) :
    (q.grow g children).node.keyIds c = q.node.keyIds c := rfl

theorem grow_comm {g h : Gain} (hfits : g.Fits h) (q : Query)
    (between between' children : List (String × Query)) :
    (q.grow g between).grow h children = (q.grow h between').grow g children :=
  congrArg (mk · (some children)) (q.node.gain_comm hfits)

theorem grow_grow_self (g : Gain) (q : Query) (between children : List (String × Query)) :
    (q.grow g between).grow g children = q.grow g children :=
  congrArg (mk · (some children)) (q.node.gain_self g)

theorem selectChild_eq (c : Cluster) (q : Query) (name : String) (child : Query) :
    q.selectChild c name child =
      q.grow (.ofChild (q.node.keyIds c) name) (Entries.insert name child (q.childrenIn c)) := rfl

theorem selectAim_eq (range : Option TimeRange) {a : Aim} (ha : a ≠ .nothing) (q : Query) :
    selectAim c range a q =
      q.grow (a.gain range ((q.childrenIn c).map (·.1))) (q.childrenIn c) := by
  cases a with
  | nothing => exact absurd rfl ha
  | all => rfl
  | property id =>
    cases range with
    | none => rfl
    | some r => rfl

theorem get?_selectChild (q : Query) (name name' : String) (child : Query) :
    Entries.get? name' ((q.selectChild c name child).childrenIn c) =
      if name' = name then some child else Entries.get? name' (q.childrenIn c) :=
  Entries.get?_insert name name' child (q.childrenIn c)

/-- Of a child that is selected twice the later state counts. -/
theorem selectChild_selectChild_self (q : Query) (name : String) (child child' : Query) :
    (q.selectChild c name child').selectChild c name child = q.selectChild c name child := by
  simp only [selectChild_eq, childrenIn_grow, keyIds_grow, grow_grow_self,
    Entries.insert_insert_self]

theorem selectChild_comm (q : Query) {name name' : String} (hname : name ≠ name')
    (child child' : Query) :
    (q.selectChild c name' child').selectChild c name child =
      (q.selectChild c name child).selectChild c name' child' := by
  simp only [selectChild_eq, childrenIn_grow, keyIds_grow,
    Entries.insert_comm hname child child' (q.childrenIn c)]
  exact grow_comm (Gain.fits_ofChild _ _ name) q _ _ _

/-! ## Two selections -/

/-- A change of a node alone: the children stay, and it does not matter whether one of them is
replaced before or after. -/
structure Local (c : Cluster) (f : Query → Query) : Prop where
  childrenIn : ∀ q, (f q).childrenIn c = q.childrenIn c
  selectChild : ∀ {q : Query} {name : String}, Entries.get? name (q.childrenIn c) ≠ none →
    ∀ child, f (q.selectChild c name child) = (f q).selectChild c name child

theorem local_selectAim (c : Cluster) (range : Option TimeRange) (a : Aim) :
    Local c (selectAim c range a) := by
  by_cases ha : a = .nothing
  · rw [ha]
    exact ⟨fun _ => rfl, fun _ _ => rfl⟩
  constructor
  · intro q
    rw [selectAim_eq range ha]
    rfl
  · intro q name hname child
    -- The child has had its name before, so what is selected now has the names of before.
    have hnames : ∀ name', name' ∈ ((q.selectChild c name child).childrenIn c).map (·.1) ↔
        name' ∈ (q.childrenIn c).map (·.1) := by
      intro name'
      rw [← Entries.get?_ne_none_iff, ← Entries.get?_ne_none_iff, get?_selectChild]
      split
      · rename_i heq
        exact iff_of_true nofun (heq ▸ hname)
      · rfl
    have hgain : selectAim c range a (q.selectChild c name child) =
        (q.selectChild c name child).grow (a.gain range ((q.childrenIn c).map (·.1)))
          (Entries.insert name child (q.childrenIn c)) := by
      rw [selectAim_eq range ha]
      exact congrArg (mk · _) (QueryNode.gain_aim_congr _ range a hnames)
    rw [hgain, selectAim_eq range ha]
    exact (grow_comm (Gain.fits_ofChild _ (q.node.keyIds c) name) q _ _ _).symm

theorem selectAim_self (range : Option TimeRange) (a : Aim) (q : Query) :
    selectAim c range a (selectAim c range a q) = selectAim c range a q := by
  by_cases ha : a = .nothing
  · rw [ha]
    rfl
  · simp only [selectAim_eq range ha, childrenIn_grow, grow_grow_self]

/-- What is selected of one node can be selected in either order, unless it is the same and is
given two ranges. -/
theorem selectAim_comm {a a' : Aim}
    (hranges : a = a' → a ≠ .nothing → ∀ r ∈ range, ∀ r' ∈ range', r = r') (q : Query) :
    selectAim c range a (selectAim c range' a' q) =
      selectAim c range' a' (selectAim c range a q) := by
  by_cases ha : a = .nothing
  · rw [ha]
    rfl
  by_cases ha' : a' = .nothing
  · rw [ha']
    rfl
  have hfits : ∀ names, (a'.gain range' names).Fits (a.gain range names) := by
    intro names
    constructor
    · intro id r r' hr hr'
      obtain ⟨haim', hr⟩ := Aim.range_gain_eq_some_iff.1 hr
      obtain ⟨haim, hr'⟩ := Aim.range_gain_eq_some_iff.1 hr'
      exact (hranges (haim.trans haim'.symm) ha r' hr' r hr).symm
    · intro r r' hr hr'
      obtain ⟨haim', hr⟩ := Aim.defaultRange_gain_eq_some_iff.1 hr
      obtain ⟨haim, hr'⟩ := Aim.defaultRange_gain_eq_some_iff.1 hr'
      exact (hranges (haim.trans haim'.symm) ha r' hr' r hr).symm
  simp only [selectAim_eq range ha, selectAim_eq range' ha', childrenIn_grow]
  exact grow_comm (hfits _) q _ _ _

/-- A change of the node itself and a change beneath it can be made in either order. -/
theorem Local.follow_cons (hf : Local c f) (name : String) (path : List String) (q : Query) :
    f (follow c g (name :: path) q) = follow c g (name :: path) (f q) := by
  have hchildren : Entries.get? name ((f q).childrenIn c) = Entries.get? name (q.childrenIn c) := by
    rw [hf.childrenIn]
  cases hchild : Entries.get? name (q.childrenIn c) with
  | none => rw [follow_cons_of_none hchild, follow_cons_of_none (hchildren.trans hchild)]
  | some child =>
    rw [follow_cons_of_some hchild, follow_cons_of_some (hchildren.trans hchild)]
    exact hf.selectChild (hchild ▸ Option.some_ne_none child) _

/-- Two changes along paths can be made in either order if this holds of changes at the same
place. -/
theorem follow_comm (hf : Local c f) (hg : Local c g) (path path' : List String)
    (hplace : path = path' → ∀ q, f (g q) = g (f q)) (q : Query) :
    follow c f path (follow c g path' q) = follow c g path' (follow c f path q) := by
  induction path generalizing path' q with
  | nil =>
    cases path' with
    | nil => exact hplace rfl q
    | cons name' path' => exact hf.follow_cons name' path' q
  | cons name path ih =>
    cases path' with
    | nil => exact (hg.follow_cons name path q).symm
    | cons name' path' =>
      cases hchild : Entries.get? name (q.childrenIn c) with
      | none =>
        cases hchild' : Entries.get? name' (q.childrenIn c) with
        | none =>
          rw [follow_cons_of_none hchild, follow_cons_of_none hchild', follow_cons_of_none hchild]
        | some child' =>
          have hname : name ≠ name' := fun h => by simp [h, hchild'] at hchild
          rw [follow_cons_of_none hchild, follow_cons_of_some hchild']
          exact follow_cons_of_none (by rw [get?_selectChild, if_neg hname, hchild])
      | some child =>
        cases hchild' : Entries.get? name' (q.childrenIn c) with
        | none =>
          have hname : name' ≠ name := fun h => by simp [h, hchild] at hchild'
          rw [follow_cons_of_none hchild', follow_cons_of_some hchild]
          exact (follow_cons_of_none (by rw [get?_selectChild, if_neg hname, hchild'])).symm
        | some child' =>
          rw [follow_cons_of_some hchild, follow_cons_of_some hchild']
          by_cases hname : name = name'
          · -- Both go into one child, and meet there or further down.
            obtain rfl := hname
            obtain rfl : child = child' := Option.some.inj (hchild.symm.trans hchild')
            rw [follow_cons_of_some (by rw [get?_selectChild, if_pos rfl]),
              follow_cons_of_some (by rw [get?_selectChild, if_pos rfl]),
              selectChild_selectChild_self, selectChild_selectChild_self,
              ih path' (fun h => hplace (congrArg _ h))]
          · rw [follow_cons_of_some (by rw [get?_selectChild, if_neg hname, hchild]),
              follow_cons_of_some (by rw [get?_selectChild, if_neg (Ne.symm hname), hchild']),
              selectChild_comm q hname]

theorem follow_self (hf : ∀ q, f (f q) = f q) (path : List String) (q : Query) :
    follow c f path (follow c f path q) = follow c f path q := by
  induction path generalizing q with
  | nil => exact hf q
  | cons name path ih =>
    cases hchild : Entries.get? name (q.childrenIn c) with
    | none => rw [follow_cons_of_none hchild, follow_cons_of_none hchild]
    | some child =>
      rw [follow_cons_of_some hchild,
        follow_cons_of_some (by rw [get?_selectChild, if_pos rfl]),
        selectChild_selectChild_self, ih]

/-! ## Many selections -/

/-- No property of a node, and no node for the rest of its properties, is given two ranges.  Where
a selection leads is decided by the query that the first selection is made of. -/
def RangesAgree (c : Cluster) (q : Query) (calls : List Selection) : Prop :=
  ∀ s ∈ calls, ∀ s' ∈ calls, q.course c s = q.course c s' → (q.course c s).aim ≠ .nothing →
    ∀ r ∈ s.range, ∀ r' ∈ s'.range, r = r'

instance (c : Cluster) (q : Query) (calls : List Selection) : Decidable (RangesAgree c q calls) :=
  inferInstanceAs (Decidable (∀ s ∈ calls, ∀ s' ∈ calls, _ → _ → ∀ r ∈ s.range, ∀ r' ∈ s'.range, _))

/-- All selections lead where they would lead if they were made first. -/
theorem foldl_select_eq (calls : List Selection) {q q' : Query} (h : SameNames c q q') :
    calls.foldl (fun q s => q.select c s) q' =
      calls.foldl (fun q' s => q'.take c s.range (q.course c s)) q' := by
  induction calls generalizing q' with
  | nil => rfl
  | cons s calls ih =>
    have hstep : q'.select c s = q'.take c s.range (q.course c s) := by
      rw [select_eq_take, course_congr s h]
    rw [List.foldl_cons, List.foldl_cons, ← hstep]
    exact ih ((sameNames_select s q').trans h)

/-- The query that selections lead to depends on the selections alone: not on their order, and not
on how often each of them is made. -/
theorem foldl_select_eq_of_subset (q : Query) {calls calls' : List Selection}
    (hsubset : calls ⊆ calls') (hsubset' : calls' ⊆ calls) (hranges : RangesAgree c q calls) :
    calls.foldl (fun q s => q.select c s) q = calls'.foldl (fun q s => q.select c s) q := by
  have hsame : SameNames c q q := rfl
  rw [foldl_select_eq calls hsame, foldl_select_eq calls' hsame]
  refine foldl_eq_of_subset (fun s _ q' => ?_) (fun s hs s' hs' q' => ?_) hsubset hsubset' q
  · exact follow_self (selectAim_self s.range (q.course c s).aim) _ q'
  · refine follow_comm (local_selectAim c s'.range _) (local_selectAim c s.range _) _ _ ?_ q'
    intro hpath
    refine selectAim_comm fun haim ha => ?_
    exact hranges s' hs' s hs (Course.ext hpath haim) ha

open Datacenter

/-- Everything of the racks and of the virtual machines, and the loads of the hosts, for ranges of
time. -/
def loadSelections : List Selection :=
  [⟨some "hosts", some "load", some ⟨0, none, none⟩⟩, ⟨none, some "hosts/machines/name", none⟩,
    ⟨some "hosts/machines", some "*", none⟩, ⟨none, some "*", some ⟨100, none, none⟩⟩]

theorem foldl_select_reverse_twice :
    loadSelections ⊆ loadSelections.reverse ++ loadSelections ∧
      loadSelections.reverse ++ loadSelections ⊆ loadSelections ∧
      RangesAgree datacenter (leaf (.fresh racks anyRack)) loadSelections ∧
      loadSelections.foldl (fun q s => q.select datacenter s) (leaf (.fresh racks anyRack)) =
        (loadSelections.reverse ++ loadSelections).foldl (fun q s => q.select datacenter s)
          (leaf (.fresh racks anyRack)) := by
  have hranges : RangesAgree datacenter (leaf (.fresh racks anyRack)) loadSelections := by
    decide +kernel
  have hsubset : loadSelections ⊆ loadSelections.reverse ++ loadSelections :=
    List.subset_append_right _ _
  have hsubset' : loadSelections.reverse ++ loadSelections ⊆ loadSelections :=
    List.append_subset.2 ⟨(List.reverse_subset).2 (List.Subset.refl _), List.Subset.refl _⟩
  exact ⟨hsubset, hsubset', hranges, foldl_select_eq_of_subset _ hsubset hsubset' hranges⟩

end Query
end ResourceQuery
