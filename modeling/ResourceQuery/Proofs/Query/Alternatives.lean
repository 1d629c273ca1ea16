import ResourceQuery.Proofs.Query.Asking
import ResourceQuery.Proofs.Query.Carrying

/-!
# The number of alternatives

A node can be asked under many key maps, and each of its rows is bound beneath each of them that it
does not contradict.  Where the key maps bind the same types and the row has a key for all that they
bind to an instance, this makes no difference: all key maps that are left bind the same beneath the
row.  So a row gives at most one key map to its children, and a read of a child has at most as many
alternatives as there are rows above it.
-/

namespace ResourceQuery

theorem nodup_eraseDups {α : Type} [BEq α] [LawfulBEq α] : ∀ xs : List α, xs.eraseDups.Nodup
  | [] => by simp
  | x :: xs => by
    have hshorter : (xs.filter fun y => !y == x).length < xs.length + 1 :=
      Nat.lt_succ_of_le (List.length_filter_le _ _)
    rw [List.eraseDups_cons, List.nodup_cons, List.mem_eraseDups]
    exact ⟨by simp, nodup_eraseDups _⟩
termination_by xs => xs.length

/-! ## One row -/

namespace KeyMap

variable {m : KeyMap} {t : ResourceType} {key : String}

/-- The types that are bound to an instance. -/
def boundTypes (m : KeyMap) : List ResourceType := m.keys.filter fun t => (m.bound? t).isSome

theorem mem_boundTypes_of_bound (h : m.get? t = some (.bound key)) : t ∈ m.boundTypes := by
  refine List.mem_filter.2 ⟨SortedMap.mem_keys_iff.2 ⟨_, h⟩, ?_⟩
  rw [bound?_eq_some_iff.2 h]
  rfl

theorem AllBound.boundTypes_eq (h : m.AllBound) : m.boundTypes = m.keys := by
  refine List.filter_eq_self.2 fun t ht => ?_
  obtain ⟨b, hb⟩ := SortedMap.mem_keys_iff.1 ht
  cases b with
  | unbound => exact absurd hb (h t)
  | bound key => rw [bound?_eq_some_iff.2 hb, Option.isSome_some]

end KeyMap

namespace Cluster

variable {c : Cluster} {row : Resource} {m m' : KeyMap}

/-- A row that does not contradict a key map, and has a key for all that the map binds, binds its
own keys beneath it. -/
theorem get?_rowKeyMap_of_keys (hfree : c.conflicts row m = false)
    (hkeys : ∀ t ∈ m.boundTypes, c.rowKey? row t ≠ none) (t : ResourceType) :
    (c.rowKeyMap row m).get? t =
      (if t = row.type then (c.rowKey? row t).map .bound else none).or
        (if t ∈ m.keys then (c.rowKey? row t).map .bound else none) := by
  rw [get?_rowKeyMap]
  congr 1
  cases hm : m.get? t with
  | none =>
    have hmem : t ∉ m.keys := fun hmem => by
      obtain ⟨b, hb⟩ := SortedMap.mem_keys_iff.1 hmem
      cases hm.symm.trans hb
    rw [if_neg hmem, Option.bind_none]
  | some b =>
    rw [if_pos (SortedMap.mem_keys_iff.2 ⟨b, hm⟩), Option.bind_some]
    cases b with
    | unbound => simp [KeyBinding.value?]
    | bound expected =>
      -- The row has a key of the type, and it is the one that is bound.
      obtain ⟨actual, hactual⟩ :=
        Option.ne_none_iff_exists'.1 (hkeys t (KeyMap.mem_boundTypes_of_bound hm))
      have heq : actual = expected := (c.conflicts_eq_false_iff row).1 hfree t expected actual
        (KeyMap.bound?_eq_some_iff.2 hm) hactual
      simp [KeyBinding.value?, hactual, heq]

theorem rowKeyMap_eq_of_keys_eq (hsame : m.keys = m'.keys) (hfree : c.conflicts row m = false)
    (hfree' : c.conflicts row m' = false) (hkeys : ∀ t ∈ m.boundTypes, c.rowKey? row t ≠ none)
    (hkeys' : ∀ t ∈ m'.boundTypes, c.rowKey? row t ≠ none) :
    c.rowKeyMap row m = c.rowKeyMap row m' := by
  ext t : 1
  rw [get?_rowKeyMap_of_keys hfree hkeys, get?_rowKeyMap_of_keys hfree' hkeys', hsame]

end Cluster

/-! ## The rows of a node -/

namespace QueryNode

variable (n : QueryNode) (c : Cluster) {rows : List Resource}

/-- The key maps under which the node was asked bind the same types, be it to instances or to
none. -/
def SameTypes : Prop := ∀ m ∈ n.keyMaps, ∀ m' ∈ n.keyMaps, m.keys = m'.keys

/-- The key maps under which the node was asked bind the same types to instances. -/
def SameBoundTypes : Prop := ∀ m ∈ n.keyMaps, ∀ m' ∈ n.keyMaps, m.boundTypes = m'.boundTypes

/-- Every type that such a key map binds to an instance has a key in the schema of the node, and
all rows have a value there. -/
def RowsHaveKeys (rows : List Resource) : Prop :=
  ∀ m ∈ n.keyMaps, ∀ t ∈ m.boundTypes, ∃ id ∈ (n.schema c).keyOf? t,
    ∀ row ∈ rows, row.key? id ≠ none

instance : Decidable n.SameBoundTypes :=
  inferInstanceAs (Decidable (∀ m ∈ n.keyMaps.toList, ∀ m' ∈ n.keyMaps.toList, _))

instance : Decidable (n.RowsHaveKeys c rows) :=
  inferInstanceAs (Decidable (∀ m ∈ n.keyMaps.toList, ∀ t ∈ m.boundTypes, ∃ id ∈ _, _))

/-- The alternatives of a read for some key maps. -/
def alternatives (keyMaps : List KeyMap) : List Predicate :=
  Predicate.distinct (keyMaps.filterMap (n.predicateFor c))

theorem batchPredicate_eq_disjunction (keyMaps : List KeyMap) :
    n.batchPredicate c keyMaps = Predicate.disjunction (n.alternatives c keyMaps) := rfl

theorem length_alternatives_le (keyMaps : List KeyMap) :
    (n.alternatives c keyMaps).length ≤ keyMaps.length :=
  (Distinct.keepNew_sublist _ _ _).length_le.trans (List.length_filterMap_le _ _)

theorem eq_of_mem_rowKeyMaps_singleton (hsame : n.SameTypes) (hkeys : n.RowsHaveKeys c rows)
    {row : Resource} (hrow : row ∈ rows) (htype : row.type = n.type) {l l' : KeyMap}
    (hl : l ∈ n.rowKeyMaps c [row]) (hl' : l' ∈ n.rowKeyMaps c [row]) : l = l' := by
  have hkey {m : KeyMap} (hm : m ∈ n.keyMaps) : ∀ t ∈ m.boundTypes, c.rowKey? row t ≠ none := by
    intro t ht hnone
    obtain ⟨id, hid, hvalues⟩ := hkeys m hm t ht
    obtain ⟨key, hvalue⟩ := Option.ne_none_iff_exists'.1 (hvalues row hrow)
    cases hnone.symm.trans ((n.rowKey?_eq_some_iff c htype).2 ⟨id, hid, hvalue⟩)
  obtain ⟨_, hsingle, m, hm, hfree, rfl⟩ := (n.mem_rowKeyMaps c).1 hl
  obtain ⟨_, hsingle', m', hm', hfree', rfl⟩ := (n.mem_rowKeyMaps c).1 hl'
  rw [List.mem_singleton] at hsingle hsingle'
  subst hsingle hsingle'
  exact Cluster.rowKeyMap_eq_of_keys_eq (hsame m hm m' hm') hfree hfree' (hkey hm) (hkey hm')

/-- If every row gives at most one key map, there are at most as many key maps as rows. -/
theorem length_rowKeyMaps_le (hone : ∀ row ∈ rows, ∀ l ∈ n.rowKeyMaps c [row],
      ∀ l' ∈ n.rowKeyMaps c [row], l = l') : (n.rowKeyMaps c rows).length ≤ rows.length := by
  have hsubset : n.rowKeyMaps c rows ⊆ rows.filterMap fun row => (n.rowKeyMaps c [row]).head? := by
    intro l hl
    obtain ⟨row, hrow, m, hm, hfree, rfl⟩ := (n.mem_rowKeyMaps c).1 hl
    have hmem : c.rowKeyMap row m ∈ n.rowKeyMaps c [row] :=
      (n.mem_rowKeyMaps c).2 ⟨row, List.mem_singleton_self row, m, hm, hfree, rfl⟩
    refine List.mem_filterMap.2 ⟨row, hrow, ?_⟩
    obtain ⟨l, ls, hcons⟩ := List.exists_cons_of_ne_nil (List.ne_nil_of_mem hmem)
    have hhead : l ∈ n.rowKeyMaps c [row] := by
      rw [hcons]
      exact List.mem_cons_self
    rw [hone row hrow _ hmem l hhead, hcons]
    rfl
  calc (n.rowKeyMaps c rows).length
      ≤ (rows.filterMap fun row => (n.rowKeyMaps c [row]).head?).length :=
        (nodup_eraseDups _).length_le_of_subset hsubset
    _ ≤ rows.length := List.length_filterMap_le _ _

end QueryNode

/-! ## The nodes of an execution -/

namespace Query

/-- The nodes whose selected children are carried out when a query is executed, as they are then,
with the rows for which this is done. -/
inductive Entered (c : Cluster) (q : Query) : Query → List Resource → Prop where
  /-- The root is entered for the rows that are shown. -/
  | root {rows : List Resource}
      (answer : (q.prepare c).answer c (q.node.predicate c) = .ok rows) :
      Entered c q (q.asked c [q.node.keyMap] rows)
        ((q.asked c [q.node.keyMap] rows).shownRows c).1
  /-- A selected child is read for the key maps of the rows of its parent, and entered for all of its
  rows. -/
  | child {parent : Query} {above rows : List Resource} {e : String × Query}
      (entered : Entered c q parent above)
      (selected : e ∈ parent.selectedChildren)
      (nonempty : parent.node.rowKeyMaps c above ≠ [])
      (answer : (e.2.prepare c).answer c
        (e.2.node.batchPredicate c (parent.node.rowKeyMaps c above)) = .ok rows) :
      Entered c q (e.2.asked c (parent.node.rowKeyMaps c above) rows) (Resource.distinct rows)

namespace Entered

variable {c : Cluster} {q p : Query} {rows : List Resource}

/-- The rows for which a node is entered are of its type. -/
theorem type (h : Entered c q p rows) : ∀ row ∈ rows, row.type = p.node.type := by
  cases h with
  | @root read answer =>
    intro row hrow
    rw [shownRows_eq] at hrow
    have hread : row ∈ Resource.distinct read := (mem_narrow.1 (mem_of_mem_pageRows hrow)).1
    have hstored := Store.exists_stored_of_read answer (Resource.mem_of_mem_distinct hread)
    rw [asked_type, hstored.1, prepare_type]
  | @child parent above read e entered selected nonempty answer =>
    intro row hrow
    have hstored := Store.exists_stored_of_read answer (Resource.mem_of_mem_distinct hrow)
    rw [asked_type, hstored.1, prepare_type]

theorem askedBoundBeneath (h : Entered c q p rows) (hq : q.AskedFromRoot) :
    p.AskedBoundBeneath := by
  induction h with
  | root answer => exact ((AsksNothing.selectionClosed c).prepare q).beneath hq.beneath
  | child entered selected nonempty answer ih =>
    have hchild := (askedBound_iff.1 (ih _ (mem_selectedChildren.1 selected).1)).2
    exact ((AsksNothing.selectionClosed c).prepare _).beneath hchild

/-- Where only the root is executed, the key maps of an entered node bind the same types as soon as
they bind the same types to instances. -/
theorem sameTypes (h : Entered c q p rows) (hq : q.AskedFromRoot)
    (hsame : p.node.SameBoundTypes) : p.node.SameTypes := by
  intro m hm m' hm'
  cases h with
  | root answer =>
    -- The root has no other key map than its own.
    have hprepared : (q.prepare c).AskedFromRoot :=
      ((AsksNothing.selectionClosed c).prepare q).askedFromRoot
        ((SameRoot.selectionClosed c).prepare q) hq
    have hkeyMap : (q.prepare c).node.keyMap = q.node.keyMap := q.prepare_keyMap c
    have hasked := hprepared.addOwn
    rw [hkeyMap] at hasked
    rw [hasked.own m hm, hasked.own m' hm']
  | @child parent above read e entered selected nonempty answer =>
    have hprepared : (e.2.prepare c).AskedBound :=
      ((AsksNothing.selectionClosed c).prepare e.2).askedBound
        (entered.askedBoundBeneath hq e (mem_selectedChildren.1 selected).1)
    have hrows : ∀ m ∈ parent.node.rowKeyMaps c above, m.AllBound :=
      fun _ => QueryNode.allBound_of_mem_rowKeyMaps
    have hallBound := (askedBound_iff.1 (hprepared.addKeyMaps hrows)).1
    rw [← (hallBound m hm).boundTypes_eq, ← (hallBound m' hm').boundTypes_eq]
    exact hsame m hm m' hm'

end Entered

/-! ## The reads of an execution -/

variable {c : Cluster} {q p : Query} {rows : List Resource} {call : Call}

theorem mem_calls_fetchSelected {fetch : Query → Stage Query} {selected : SortedSet String} :
    ∀ {children : List (String × Query)},
      call ∈ (fetchSelected fetch selected children).calls →
        ∃ e ∈ children, e.1 ∈ selected ∧ call ∈ (fetch e.2).calls
  | [], h => by simp [fetchSelected] at h
  | (name, child) :: rest, h => by
    have hlater (h : call ∈ (fetchSelected fetch selected rest).calls) :
        ∃ e ∈ (name, child) :: rest, e.1 ∈ selected ∧ call ∈ (fetch e.2).calls := by
      obtain ⟨e, he, hcall⟩ := mem_calls_fetchSelected h
      exact ⟨e, List.mem_cons_of_mem _ he, hcall⟩
    by_cases hname : name ∈ selected
    · simp only [fetchSelected, if_pos hname] at h
      split at h
      · exact ⟨(name, child), List.mem_cons_self, hname, h⟩
      · rcases List.mem_append.1 h with h | h
        · exact ⟨(name, child), List.mem_cons_self, hname, h⟩
        · exact hlater h
    · simp only [fetchSelected, if_neg hname] at h
      exact hlater h

theorem mem_calls_fetchBeneath {fetch : List KeyMap → Query → Stage Query}
    (h : call ∈ (q.fetchBeneath c fetch rows).calls) :
    ∃ e ∈ q.selectedChildren, call ∈ (fetch (q.node.rowKeyMaps c rows) e.2).calls := by
  obtain ⟨node, _ | children⟩ := q
  · simp [fetchBeneath, children] at h
  · obtain ⟨e, he, hselected, hcall⟩ := mem_calls_fetchSelected h
    exact ⟨e, mem_selectedChildren.2 ⟨he, hselected⟩, hcall⟩

/-- What follows a read of a node was sent after an answer to it. -/
theorem mem_calls_readNode_andThen {pred : Option Predicate} {next : Query → Stage Query}
    (h : call ∈ ((q.readNode c pred).andThen next).calls) :
    (∃ count, call = ⟨(q.prepare c).node.type, (q.prepare c).node.request, pred, count⟩) ∨
      ∃ rows, (q.prepare c).answer c pred = .ok rows ∧
        call ∈ (next ((q.prepare c).withRows rows)).calls := by
  cases hanswer : (q.prepare c).answer c pred with
  | error e =>
    have hcall : call = ⟨(q.prepare c).node.type, (q.prepare c).node.request, pred, none⟩ := by
      simpa [readNode, hanswer, Stage.andThen] using h
    exact .inl ⟨none, hcall⟩
  | ok rows =>
    have hcalls : call = ⟨(q.prepare c).node.type, (q.prepare c).node.request, pred,
        some rows.length⟩ ∨ call ∈ (next ((q.prepare c).withRows rows)).calls := by
      simpa [readNode, hanswer, Stage.andThen] using h
    exact hcalls.imp (fun hcall => ⟨some rows.length, hcall⟩) fun hnext => ⟨rows, rfl, hnext⟩

/-- A read is the one of a selected child for the key maps of some rows of its parent. -/
def Sends (c : Cluster) (parent : Query) (rows : List Resource) (call : Call) : Prop :=
  ∃ e ∈ parent.selectedChildren, call.type = e.2.node.type ∧
    call.predicate = e.2.node.batchPredicate c (parent.node.rowKeyMaps c rows)

theorem Entered.sends_of_mem_calls (depth : Nat) : ∀ {p : Query} {rows : List Resource},
    Entered c q p rows → ∀ e ∈ p.selectedChildren,
      call ∈ (fetch c depth (p.node.rowKeyMaps c rows) e.2).calls →
        ∃ p' rows', Entered c q p' rows' ∧ p'.Sends c rows' call := by
  induction depth with
  | zero =>
    intro p rows _ e _ hcall
    cases hmaps : p.node.rowKeyMaps c rows with
    | nil => simp [hmaps, fetch] at hcall
    | cons m ms => simp [hmaps, fetch] at hcall
  | succ depth ih =>
    intro p rows hentered e he hcall
    by_cases hnonempty : p.node.rowKeyMaps c rows = []
    · simp [hnonempty, fetch] at hcall
    rw [fetch_eq hnonempty] at hcall
    rcases mem_calls_readNode_andThen hcall with ⟨count, rfl⟩ | ⟨read, hanswer, hcall⟩
    · exact ⟨p, rows, hentered, e, he, prepare_type .., rfl⟩
    · rw [prepare_addKeyMaps] at hanswer hcall
      obtain ⟨e', he', hcall⟩ := mem_calls_fetchBeneath hcall
      exact ih (.child hentered he hnonempty hanswer) e' he' hcall

theorem mem_calls_readRoot (h : call ∈ (q.readRoot c).calls) :
    call.type = q.node.type ∧ call.predicate = q.node.predicate c := by
  rcases mem_calls_readNode_andThen h with ⟨count, rfl⟩ | ⟨read, -, hnext⟩
  · exact ⟨prepare_type .., rfl⟩
  · cases hnext

/-- Every read of an execution is that of the root, or is sent for the rows for which a node is
entered. -/
theorem sends_of_mem_calls {depth : Nat} (h : call ∈ (q.execute c depth).calls) :
    (call.type = q.node.type ∧ call.predicate = q.node.predicate c) ∨
      ∃ p rows, Entered c q p rows ∧ p.Sends c rows call := by
  rw [execute_calls, reads] at h
  cases hhalt : (q.readRoot c).halt with
  | some halt =>
    rw [Stage.andThen_of_some hhalt] at h
    exact .inl (mem_calls_readRoot h)
  | none =>
    rw [Stage.andThen_of_none hhalt] at h
    rcases List.mem_append.1 h with h | h
    · exact .inl (mem_calls_readRoot h)
    · obtain ⟨read, hanswer, hstate⟩ := readRoot_done hhalt
      rw [hstate] at h
      obtain ⟨e, he, hcall⟩ := mem_calls_fetchBeneath h
      exact .inr ((Entered.root hanswer).sends_of_mem_calls depth e he hcall)

/-- Where the key maps of an entered node bind the same types, and all rows have a key for each of
them, a row gives at most one key map, and what is sent for a child has at most as many
alternatives as there are rows.  It is enough that the same types are bound to instances if only
the root was executed before. -/
theorem Entered.alternatives_le (h : Entered c q p rows)
    (hsame : p.node.SameTypes ∨ q.AskedFromRoot ∧ p.node.SameBoundTypes)
    (hkeys : p.node.RowsHaveKeys c rows) :
    (∀ row ∈ rows, (p.node.rowKeyMaps c [row]).length ≤ 1) ∧
      (p.node.rowKeyMaps c rows).length ≤ rows.length ∧
      ∀ e ∈ p.selectedChildren,
        (e.2.node.alternatives c (p.node.rowKeyMaps c rows)).length ≤ rows.length ∧
          ∀ depth call, (fetch c depth (p.node.rowKeyMaps c rows) e.2).calls.head? = some call →
            call.predicate = Predicate.disjunction
              (e.2.node.alternatives c (p.node.rowKeyMaps c rows)) := by
  have htypes : p.node.SameTypes := by
    rcases hsame with hsame | ⟨hq, hsame⟩
    · exact hsame
    · exact h.sameTypes hq hsame
  have hone : ∀ row ∈ rows, ∀ l ∈ p.node.rowKeyMaps c [row],
      ∀ l' ∈ p.node.rowKeyMaps c [row], l = l' := fun row hrow l hl l' hl' =>
    p.node.eq_of_mem_rowKeyMaps_singleton c htypes hkeys hrow (h.type row hrow) hl hl'
  have hlength : (p.node.rowKeyMaps c rows).length ≤ rows.length :=
    p.node.length_rowKeyMaps_le c hone
  refine ⟨fun row hrow => ?_, hlength, fun e he => ⟨?_, fun depth call hcall => ?_⟩⟩
  · have hsingle : (p.node.rowKeyMaps c [row]).length ≤ [row].length :=
      p.node.length_rowKeyMaps_le c fun row' hrow' => hone row' (List.mem_singleton.1 hrow' ▸ hrow)
    exact hsingle
  · exact (e.2.node.length_alternatives_le c _).trans hlength
  · rw [(fetch_call hcall).2.2, QueryNode.batchPredicate_eq_disjunction]

/-- The root and the rows for which it is entered, if its read is answered. -/
def enteredRoot (c : Cluster) (q : Query) : Option (Query × List Resource) :=
  ((q.prepare c).answer c (q.node.predicate c)).toOption.map fun rows =>
    (q.asked c [q.node.keyMap] rows, ((q.asked c [q.node.keyMap] rows).shownRows c).1)

/-- The selected children with the rows for which they are entered beneath some rows. -/
def enteredBeneath (c : Cluster) (parent : Query) (above : List Resource) :
    List (Query × List Resource) :=
  let keyMaps := parent.node.rowKeyMaps c above
  parent.selectedChildren.filterMap fun e =>
    if keyMaps = [] then none
    else ((e.2.prepare c).answer c (e.2.node.batchPredicate c keyMaps)).toOption.map fun rows =>
      (e.2.asked c keyMaps rows, Resource.distinct rows)

theorem entered_of_enteredRoot (h : (p, rows) ∈ enteredRoot c q) : Entered c q p rows := by
  obtain ⟨read, hread, heq⟩ := Option.map_eq_some_iff.1 h
  obtain ⟨rfl, rfl⟩ := Prod.mk.inj heq
  exact .root (eq_ok_of_toOption hread)

theorem Entered.beneath {parent : Query} {above : List Resource} (h : Entered c q parent above)
    (hmem : (p, rows) ∈ enteredBeneath c parent above) : Entered c q p rows := by
  obtain ⟨e, he, hentered⟩ := List.mem_filterMap.1 hmem
  split at hentered
  · cases hentered
  · rename_i hnonempty
    obtain ⟨read, hread, heq⟩ := Option.map_eq_some_iff.1 hentered
    obtain ⟨rfl, rfl⟩ := Prod.mk.inj heq
    exact .child h he hnonempty (eq_ok_of_toOption hread)

open Datacenter

/-- The query for the virtual machines is executed a second time: its hosts are asked under the key
maps of two racks. -/
theorem hostsAgain_alternatives_le :
    ∃ p rows, Entered datacenter machinesExecution.query p rows ∧
      p.node.keyMaps.toList.length = 2 ∧ rows.length = 2 ∧
      machinesExecution.query.AskedFromRoot ∧ p.node.SameBoundTypes ∧
      p.node.RowsHaveKeys datacenter rows ∧
      ∀ row ∈ rows, (p.node.rowKeyMaps datacenter [row]).length ≤ 1 := by
  have hnew : Query.new datacenter rack anyRack = .ok (leaf (.fresh racks anyRack)) := rfl
  have hasked : machinesExecution.query.AskedFromRoot :=
    ((AskedFromRoot.new hnew).run (by simp [selectMachines])).execute 2
  have hhosts : ∃ root ∈ enteredRoot datacenter machinesExecution.query,
      ∃ e ∈ enteredBeneath datacenter root.1 root.2, e.1.node.keyMaps.toList.length = 2 ∧
        e.2.length = 2 ∧ e.1.node.SameBoundTypes ∧ e.1.node.RowsHaveKeys datacenter e.2 := by
    decide +kernel
  obtain ⟨root, hroot, ⟨p, rows⟩, hmem, hmaps, hrows, hsame, hkeys⟩ := hhosts
  have hentered := (entered_of_enteredRoot hroot).beneath hmem
  exact ⟨p, rows, hentered, hmaps, hrows, hasked, hsame, hkeys,
    (hentered.alternatives_le (.inr ⟨hasked, hsame⟩) hkeys).1⟩

end Query
end ResourceQuery
