import ResourceQuery.Proofs.Query.Change
import ResourceQuery.Proofs.Query.Depth
import ResourceQuery.Proofs.Query.RowByRow

/-!
# The order of the reads

An execution walks over the tree that it leaves behind.  It reads the root, and then, wherever the
rows of a node give key maps, the selected children of the node with all that is beneath them, one
child after the other in the order of names.  So a node is read before everything beneath it, and
once for all rows of its parent.  The walk goes on until a read is refused, and only then does the
execution fail.
-/

namespace ResourceQuery

/-- What the store answers to a read. -/
def Call.answer (c : Cluster) (call : Call) : Except ProviderError (List Resource) :=
  c.store.read call.type call.request call.predicate

/-- The read of a node for a predicate. -/
def QueryNode.readFor (n : QueryNode) (c : Cluster) (p : Option Predicate) : Call :=
  ⟨n.type, n.request, p, (c.store.read n.type n.request p).toOption.map List.length⟩

namespace Query

/-! ## The walk over a tree -/

mutual

/-- The reads of a walk over a query, each with the path of the node: first the root for a
predicate, then everything beneath some of its rows. -/
def walk (c : Cluster) (p : Option Predicate) (rows : List Resource) :
    Query → List (List String × Call)
  | mk node none => [([], node.readFor c p)]
  | mk node (some children) =>
    ([], node.readFor c p) :: walkBeneath c node.selected (node.rowKeyMaps c rows) children

/-- The reads of the selected children for the key maps of their parent's rows; without a key map
no child is entered. -/
def walkBeneath (c : Cluster) (selected : SortedSet String) (keyMaps : List KeyMap) :
    List (String × Query) → List (List String × Call)
  | [] => []
  | (name, child) :: rest =>
    let later := walkBeneath c selected keyMaps rest
    if name ∈ selected ∧ keyMaps ≠ [] then
      (child.walk c (child.node.batchPredicate c keyMaps) child.node.rows).map
        (fun (path, call) => (name :: path, call)) ++ later
    else later

end

/-- The walk over a whole query, beneath the rows that its root shows. -/
def rootWalk (c : Cluster) (q : Query) : List (List String × Call) :=
  q.walk c (q.node.predicate c) (q.shownRows c).1

variable {c : Cluster} {q : Query} {p : Option Predicate} {rows : List Resource}
  {selected : SortedSet String} {keyMaps : List KeyMap} {depth : Nat}

theorem walk_eq (c : Cluster) (p : Option Predicate) (rows : List Resource) (q : Query) :
    q.walk c p rows = ([], q.node.readFor c p) ::
      walkBeneath c q.node.selected (q.node.rowKeyMaps c rows) (q.children.getD []) := by
  obtain ⟨node, _ | children⟩ := q
  · rfl
  · rfl

theorem walkBeneath_nil (children : List (String × Query)) :
    walkBeneath c selected [] children = [] := by
  induction children with
  | nil => rfl
  | cons e rest ih => simp [walkBeneath, ih]

/-! ### Its order -/

theorem exists_name_of_mem_walkBeneath : ∀ {children : List (String × Query)}
    {e : List String × Call}, e ∈ walkBeneath c selected keyMaps children →
      ∃ child ∈ children, ∃ path, e.1 = child.1 :: path
  | (name, child) :: rest, e, h => by
    have hlater : e ∈ walkBeneath c selected keyMaps rest →
        ∃ child' ∈ (name, child) :: rest, ∃ path, e.1 = child'.1 :: path := by
      intro hmem
      obtain ⟨child', hchild', hpath⟩ := exists_name_of_mem_walkBeneath hmem
      exact ⟨child', List.mem_cons_of_mem _ hchild', hpath⟩
    simp only [walkBeneath] at h
    split at h
    · rcases List.mem_append.1 h with hmem | hmem
      · obtain ⟨⟨path, call⟩, -, rfl⟩ := List.mem_map.1 hmem
        exact ⟨(name, child), List.mem_cons_self, path, rfl⟩
      · exact hlater hmem
    · exact hlater h

mutual

/-- The paths of a walk increase: a node comes before everything beneath it, and children come in
the order of their names. -/
theorem walk_sorted (c : Cluster) : ∀ (q : Query) (p : Option Predicate) (rows : List Resource),
    Ordered q → ((q.walk c p rows).map (·.1)).Pairwise (· < ·)
  | mk node none, p, rows, _ => by simp [walk]
  | mk node (some children), p, rows, h => by
    have hbeneath := walkBeneath_sorted c node.selected (node.rowKeyMaps c rows) children h.sorted
      fun e he => h.beneath he
    rw [walk, List.map_cons]
    refine List.pairwise_cons.2 ⟨fun path hpath => ?_, hbeneath⟩
    obtain ⟨e, he, rfl⟩ := List.mem_map.1 hpath
    obtain ⟨child, -, path, hpath⟩ := exists_name_of_mem_walkBeneath he
    rw [hpath]
    exact List.nil_lt_cons _ _

theorem walkBeneath_sorted (c : Cluster) (selected : SortedSet String) (keyMaps : List KeyMap) :
    ∀ children : List (String × Query), Entries.Sorted children →
      (∀ e ∈ children, Ordered e.2) →
        ((walkBeneath c selected keyMaps children).map (·.1)).Pairwise (· < ·)
  | [], _, _ => by simp [walkBeneath]
  | (name, child) :: rest, hsorted, hordered => by
    obtain ⟨hhead, hrest⟩ := List.pairwise_cons.1 hsorted
    obtain ⟨hchild, hordered⟩ := List.forall_mem_cons.1 hordered
    have hlater := walkBeneath_sorted c selected keyMaps rest hrest hordered
    have hfirst := walk_sorted c child (child.node.batchPredicate c keyMaps) child.node.rows hchild
    simp only [walkBeneath]
    split
    · rw [List.map_append, List.map_map]
      refine List.pairwise_append.2 ⟨?_, hlater, fun x hx y hy => ?_⟩
      · -- Beneath one child the common name decides nothing.
        rw [List.pairwise_map] at hfirst ⊢
        exact hfirst.imp fun hlt => List.cons_lt_cons_self.2 hlt
      · obtain ⟨e, -, rfl⟩ := List.mem_map.1 hx
        obtain ⟨e', he', rfl⟩ := List.mem_map.1 hy
        obtain ⟨child', hchild', path, hpath⟩ := exists_name_of_mem_walkBeneath he'
        rw [hpath]
        exact List.Lex.rel (compareOfLessAndEq_eq_lt.1 (hhead child' hchild'))
    · exact hlater

end

/-! ### The bindings that are left behind -/

mutual

/-- A walk does not look at the bindings that an execution leaves behind. -/
theorem walk_settle (c : Cluster) : ∀ (visits : List Visit) (q : Query) (p : Option Predicate)
    (rows : List Resource), (q.settle c visits).walk c p rows = q.walk c p rows
  | visits, mk node none, p, rows => by
    obtain ⟨keyMap, h⟩ := lastBindings_eq node visits
    rw [settle, h]
    rfl
  | visits, mk node (some children), p, rows => by
    obtain ⟨keyMap, h⟩ := lastBindings_eq node visits
    rw [settle, h, walk, walk]
    exact congrArg _ (walkBeneath_settleChildren c visits node.selected _ children)

theorem walkBeneath_settleChildren (c : Cluster) : ∀ (visits : List Visit)
    (selected : SortedSet String) (keyMaps : List KeyMap) (children : List (String × Query)),
    walkBeneath c selected keyMaps (settleChildren c selected visits children) =
      walkBeneath c selected keyMaps children
  | _, _, _, [] => rfl
  | visits, selected, keyMaps, (name, child) :: rest => by
    have hrest := walkBeneath_settleChildren c visits selected keyMaps rest
    by_cases hname : name ∈ selected
    · obtain ⟨keyMap, hnode⟩ := child.settle_node_eq c (visitsBeneath c child.node visits)
      have hchild := walk_settle c (visitsBeneath c child.node visits) child
        (child.node.batchPredicate c keyMaps) child.node.rows
      have hbatch : ({ child.node with keyMap } : QueryNode).batchPredicate c keyMaps =
          child.node.batchPredicate c keyMaps := rfl
      simp only [settleChildren, walkBeneath, if_pos hname, hrest, hnode, hbatch, hchild]
    · simp only [settleChildren, walkBeneath, hname, false_and, if_false, hrest]

end

/-- Nor does the walk over a whole query, when the root keeps its bindings. -/
theorem rootWalk_settle (rows : List Resource) :
    (q.settle c [⟨q.node.keyMap, rows⟩]).rootWalk c = q.rootWalk c := by
  have hnode : (q.settle c [⟨q.node.keyMap, rows⟩]).node = q.node := settle_node c _ q
  rw [rootWalk, rootWalk, walk_settle, hnode, shownRows_congr hnode]

/-! ## Reads that follow a walk -/

/-- Reads carry out a plan: one after the other they are answered, until the plan is done, a read
is refused or the execution is cut off. -/
inductive Follows (c : Cluster) : List Call → List Call → Option Halt → Prop where
  | done : Follows c [] [] none
  | answered {call : Call} {plan calls : List Call} {halt : Option Halt} {rows : List Resource}
      (answer : call.answer c = .ok rows) (rest : Follows c plan calls halt) :
      Follows c (call :: plan) (call :: calls) halt
  | refused {call : Call} {error : ProviderError} (answer : call.answer c = .error error)
      (plan : List Call) : Follows c (call :: plan) [call] (some (.refused error))
  | cutOff (plan : List Call) : Follows c plan [] (some .tooDeep)

namespace Follows

variable {plan plan' calls calls' : List Call} {halt : Option Halt}

theorem append (h : Follows c plan calls none) (h' : Follows c plan' calls' halt) :
    Follows c (plan ++ plan') (calls ++ calls') halt := by
  generalize hnone : (none : Option Halt) = first at h
  induction h with
  | done => exact h'
  | answered answer _ ih => exact .answered answer (ih hnone)
  | refused => cases hnone
  | cutOff => cases hnone

/-- What comes after the end of an execution makes no difference. -/
theorem append_plan {stop : Halt} (h : Follows c plan calls (some stop)) (plan' : List Call) :
    Follows c (plan ++ plan') calls (some stop) := by
  generalize hsome : some stop = halt at h
  induction h with
  | done => cases hsome
  | answered answer _ ih => exact .answered answer (ih hsome)
  | refused answer plan => exact .refused answer (plan ++ plan')
  | cutOff plan => exact .cutOff (plan ++ plan')

/-- A stage goes on with the plan that comes next. -/
theorem andThen {α : Type} {s : Stage α} {next : α → Stage α} (h : Follows c plan s.calls s.halt)
    (hnext : s.halt = none → Follows c plan' (next s.state).calls (next s.state).halt) :
    Follows c (plan ++ plan') (s.andThen next).calls (s.andThen next).halt := by
  cases hs : s.halt with
  | some halt =>
    rw [Stage.andThen_of_some hs, hs]
    exact (hs ▸ h).append_plan plan'
  | none =>
    rw [Stage.andThen_of_none hs]
    exact (hs ▸ h).append (hnext hs)

/-- An execution that is not stopped has carried out its plan, and every read was answered. -/
theorem of_none (h : Follows c plan calls none) :
    calls = plan ∧ ∀ call ∈ calls, ∃ rows, call.answer c = .ok rows := by
  generalize hnone : (none : Option Halt) = halt at h
  induction h with
  | done => exact ⟨rfl, by simp⟩
  | @answered call _ _ _ rows answer _ ih =>
    obtain ⟨hcalls, hanswered⟩ := ih hnone
    exact ⟨congrArg _ hcalls, List.forall_mem_cons.2 ⟨⟨rows, answer⟩, hanswered⟩⟩
  | refused => cases hnone
  | cutOff => cases hnone

/-- An execution that is refused has carried out its plan up to a read that was refused, and every
read before was answered. -/
theorem of_refused {error : ProviderError} (h : Follows c plan calls (some (.refused error))) :
    ∃ before call after, plan = before ++ call :: after ∧ calls = before ++ [call] ∧
      (∀ earlier ∈ before, ∃ rows, earlier.answer c = .ok rows) ∧
      call.answer c = .error error := by
  generalize hsome : some (Halt.refused error) = halt at h
  induction h with
  | done => cases hsome
  | @answered first _ _ _ rows answer _ ih =>
    obtain ⟨before, call, after, hplan, hcalls, hanswered, hrefused⟩ := ih hsome
    refine ⟨first :: before, call, after, congrArg _ hplan, congrArg _ hcalls, ?_, hrefused⟩
    exact List.forall_mem_cons.2 ⟨⟨rows, answer⟩, hanswered⟩
  | @refused call _ answer plan =>
    obtain rfl := Halt.refused.inj (Option.some.inj hsome)
    exact ⟨[], call, plan, rfl, rfl, by simp, answer⟩
  | cutOff => cases hsome

end Follows

/-! ### One node -/

/-- What a key map amounts to is not changed by a read. -/
theorem readNode_predicateFor (m : KeyMap) :
    (q.readNode c p).state.node.predicateFor c m = q.node.predicateFor c m :=
  readNode_state (P := fun q' => q'.node.predicateFor c m = q.node.predicateFor c m)
    (q.prepare_predicateFor c m) fun _ => q.prepare_predicateFor c m

theorem readNode_predicate : (q.readNode c p).state.node.predicate c = q.node.predicate c := by
  have hkeyMap : (q.readNode c p).state.node.keyMap = q.node.keyMap :=
    readNode_state (P := fun q' => q'.node.keyMap = q.node.keyMap) (q.prepare_keyMap c)
      fun _ => q.prepare_keyMap c
  rw [QueryNode.predicate, readNode_predicateFor, hkeyMap]
  rfl

theorem readNode_batchPredicate (keyMaps : List KeyMap) :
    (q.readNode c p).state.node.batchPredicate c keyMaps = q.node.batchPredicate c keyMaps := by
  unfold QueryNode.batchPredicate
  rw [funext readNode_predicateFor]

theorem readNode_follows :
    Follows c [(q.readNode c p).state.node.readFor c p] (q.readNode c p).calls
      (q.readNode c p).halt := by
  have hcall : (q.prepare c).node.readFor c p = ⟨(q.prepare c).node.type,
      (q.prepare c).node.request, p, ((q.prepare c).answer c p).toOption.map List.length⟩ := rfl
  have hanswer : ((q.prepare c).node.readFor c p).answer c = (q.prepare c).answer c p := rfl
  cases ha : (q.prepare c).answer c p with
  | ok rows =>
    rw [ha, hcall, ha] at hanswer
    simp only [readNode, ha]
    show Follows c [(q.prepare c).node.readFor c p] _ _
    rw [hcall, ha]
    exact .answered hanswer .done
  | error e =>
    rw [ha, hcall, ha] at hanswer
    simp only [readNode, ha]
    rw [hcall, ha]
    exact .refused hanswer []

/-! ### From a node to its children -/

/-- A stage makes the reads that are planned for what it leaves behind. -/
def MakesReads {α : Type} (c : Cluster) (plan : α → List Call) (s : Stage α) : Prop :=
  Follows c (plan s.state) s.calls s.halt

theorem makesReads_andThen {s : Stage Query} {next : Query → Stage Query} {call : Call}
    {plan : Query → List Call} (hfirst : Follows c [call] s.calls s.halt)
    (hnext : MakesReads c plan (next s.state)) :
    MakesReads c (fun q => call :: plan q) (s.andThen next) := by
  refine hfirst.andThen fun hs => ?_
  rw [Stage.andThen_of_none hs]
  exact hnext

theorem andThen_node {s : Stage Query} {next : Query → Stage Query}
    (hnext : ∀ q, (next q).state.node = q.node) : (s.andThen next).state.node = s.state.node :=
  Stage.andThen_state (P := fun q : Query => q.node = s.state.node) rfl (hnext s.state)

/-- The reads of a walk over what carrying out a batch leaves behind. -/
def batchReads (c : Cluster) (keyMaps : List KeyMap) (q : Query) : List Call :=
  (q.walk c (q.node.batchPredicate c keyMaps) q.node.rows).map (·.2)

/-- The reads of the walks over the selected children, for the key maps of some rows. -/
def readsBeneath (c : Cluster) (rows : List Resource) (q : Query) : List Call :=
  (walkBeneath c q.node.selected (q.node.rowKeyMaps c rows) (q.children.getD [])).map (·.2)

theorem walk_reads (p : Option Predicate) (rows : List Resource) (q : Query) :
    (q.walk c p rows).map (·.2) = q.node.readFor c p :: q.readsBeneath c rows := by
  rw [walk_eq]
  rfl

theorem fetchBeneath_node {fetch : List KeyMap → Query → Stage Query} :
    (q.fetchBeneath c fetch rows).state.node = q.node := by
  obtain ⟨node, _ | children⟩ := q
  · rfl
  · rfl

theorem walkBeneath_cons_reads {name : String} (hname : name ∈ selected) (hne : keyMaps ≠ [])
    (child : Query) (rest : List (String × Query)) :
    (walkBeneath c selected keyMaps ((name, child) :: rest)).map (·.2) =
      child.batchReads c keyMaps ++ (walkBeneath c selected keyMaps rest).map (·.2) := by
  simp only [walkBeneath, if_pos (And.intro hname hne), List.map_append, List.map_map]
  rfl

theorem fetchSelected_makesReads
    (hfetch : keyMaps ≠ [] → ∀ child,
      MakesReads c (batchReads c keyMaps) (fetch c depth keyMaps child))
    (selected : SortedSet String) (children : List (String × Query)) :
    MakesReads c (fun children => (walkBeneath c selected keyMaps children).map (·.2))
      (fetchSelected (fetch c depth keyMaps) selected children) := by
  induction children with
  | nil => exact .done
  | cons e rest ih =>
    obtain ⟨name, child⟩ := e
    unfold MakesReads at ih hfetch ⊢
    by_cases hname : name ∈ selected
    · by_cases hne : keyMaps = []
      · -- Without key maps the child is neither read nor walked over.
        subst hne
        simp only [walkBeneath_nil] at ih ⊢
        simpa [fetchSelected, hname, fetch] using ih
      · have hchild := hfetch hne child
        simp only [fetchSelected, if_pos hname]
        cases hs : (fetch c depth keyMaps child).halt with
        | none =>
          rw [hs] at hchild
          simp only [walkBeneath_cons_reads hname hne]
          exact hchild.append ih
        | some halt =>
          rw [hs] at hchild
          simp only [walkBeneath_cons_reads hname hne]
          exact hchild.append_plan _
    · simp only [fetchSelected, walkBeneath, hname, false_and, if_false, Stage.map]
      exact ih

theorem fetchBeneath_makesReads
    (hfetch : ∀ keyMaps, keyMaps ≠ [] → ∀ child,
      MakesReads c (batchReads c keyMaps) (fetch c depth keyMaps child))
    (rows : List Resource) (q : Query) :
    MakesReads c (readsBeneath c rows) (q.fetchBeneath c (fetch c depth) rows) := by
  obtain ⟨node, _ | children⟩ := q
  · exact .done
  · exact fetchSelected_makesReads (hfetch _) node.selected children

/-- Carrying out a batch makes the reads of a walk over what it leaves behind. -/
theorem fetch_makesReads (depth : Nat) : ∀ keyMaps, keyMaps ≠ [] → ∀ q,
    MakesReads c (batchReads c keyMaps) (fetch c depth keyMaps q) := by
  induction depth with
  | zero =>
    intro keyMaps hne q
    cases keyMaps with
    | nil => exact absurd rfl hne
    | cons m ms => exact .cutOff _
  | succ depth ih =>
    intro keyMaps hne q
    rw [fetch_eq hne]
    generalize hs : (q.addKeyMaps keyMaps).readNode c (q.node.batchPredicate c keyMaps) = s
    have hread : Follows c [s.state.node.readFor c (q.node.batchPredicate c keyMaps)] s.calls
        s.halt := hs ▸ readNode_follows
    have hbatch : s.state.node.batchPredicate c keyMaps = q.node.batchPredicate c keyMaps := by
      rw [← hs]
      exact readNode_batchPredicate keyMaps
    have hreads := makesReads_andThen hread (fetchBeneath_makesReads ih s.state.node.rows s.state)
    have hnode : (s.andThen fun q => q.fetchBeneath c (fetch c depth) q.node.rows).state.node =
        s.state.node := andThen_node fun q => fetchBeneath_node
    unfold MakesReads at hreads ⊢
    rw [batchReads, walk_reads, hnode, hbatch]
    exact hreads

/-! ## The reads of an execution -/

theorem readRoot_follows : Follows c [(q.readRoot c).state.node.readFor c (q.node.predicate c)]
    (q.readRoot c).calls (q.readRoot c).halt := by
  have hcall : (q.readRoot c).state.node.readFor c (q.node.predicate c) =
      (q.readNode c (q.node.predicate c)).state.node.readFor c (q.node.predicate c) :=
    Stage.andThen_state (P := fun q' : Query => q'.node.readFor c (q.node.predicate c) = _) rfl rfl
  rw [hcall]
  show Follows c ([_] ++ []) _ _
  exact readNode_follows.andThen fun _ => .done

theorem readRoot_predicate : (q.readRoot c).state.node.predicate c = q.node.predicate c :=
  Stage.andThen_state (P := fun q' : Query => q'.node.predicate c = q.node.predicate c)
    readNode_predicate readNode_predicate

/-- The reads of an execution are those of the walk over the query that they leave behind. -/
theorem reads_makesReads (c : Cluster) (depth : Nat) (q : Query) :
    MakesReads c (fun q => (q.rootWalk c).map (·.2)) (q.reads c depth) := by
  have hbeneath := fetchBeneath_makesReads (c := c) (fetch_makesReads depth)
    ((q.readRoot c).state.shownRows c).1 (q.readRoot c).state
  have hreads := makesReads_andThen readRoot_follows hbeneath
  have hnode : (q.reads c depth).state.node = (q.readRoot c).state.node :=
    andThen_node fun q => fetchBeneath_node
  show Follows c (((q.reads c depth).state.rootWalk c).map (·.2)) _ _
  rw [rootWalk, walk_reads, shownRows_congr hnode, hnode, readRoot_predicate]
  exact hreads

theorem execute_follows (c : Cluster) (depth : Nat) (q : Query) :
    Follows c (((q.execute c depth).query.rootWalk c).map (·.2)) (q.execute c depth).calls
      (match (q.execute c depth).outcome with
        | .ok _ => none
        | .error halt => some halt) := by
  have hreads := reads_makesReads c depth q
  unfold MakesReads at hreads
  have hexecute := execute_eq c depth q
  cases hs : (q.reads c depth).halt with
  | some halt =>
    rw [hs] at hexecute hreads
    rw [hexecute]
    exact hreads
  | none =>
    rw [hs] at hexecute hreads
    rw [hexecute]
    simp only [rootWalk_settle]
    exact hreads

/-! ## Every query that is made and used -/

/-- The reads of an execution that is not cut off are those of a walk over the query that it leaves
behind: the root first and every node before what is beneath it, children in the order of their
names, and each node once.  If no read is refused, all of them are made and the execution succeeds;
if one is refused it is the last, and the execution fails with the same error. -/
theorem execute_reads_walk {type : ResourceType} {keyMap : KeyMap} {start : Query}
    (hnew : Query.new c type keyMap = .ok start) (steps : List (List String × Operation))
    {e : Execution} (he : (start.run c steps).1.execute c depth = e)
    (hends : e.outcome ≠ .error .tooDeep) :
    ((e.query.rootWalk c).map (·.1)).head? = some [] ∧
      ((e.query.rootWalk c).map (·.1)).Pairwise (· < ·) ∧
      match e.outcome with
      | .ok _ => e.calls = (e.query.rootWalk c).map (·.2) ∧
          ∀ call ∈ e.calls, ∃ rows, call.answer c = .ok rows
      | .error halt => ∃ error before call after, halt = .refused error ∧
          (e.query.rootWalk c).map (·.2) = before ++ call :: after ∧ e.calls = before ++ [call] ∧
          (∀ earlier ∈ before, ∃ rows, earlier.answer c = .ok rows) ∧
          call.answer c = .error error := by
  have hstart : Ordered start := by
    unfold Query.new at hnew
    split at hnew
    · obtain rfl := Except.ok.inj hnew
      exact .leaf _
    · cases hnew
  have hordered : Ordered e.query := by
    rw [← he]
    exact (hstart.of_changes (.run steps)).of_changes (.execute depth)
  have hfollows := execute_follows c depth (start.run c steps).1
  rw [he] at hfollows
  refine ⟨?_, walk_sorted c _ _ _ hordered, ?_⟩
  · rw [rootWalk, walk_eq]
    rfl
  · cases houtcome : e.outcome with
    | ok result =>
      rw [houtcome] at hfollows
      exact hfollows.of_none
    | error halt =>
      rw [houtcome] at hfollows hends
      cases halt with
      | refused error =>
        obtain ⟨before, call, after, hplan⟩ := hfollows.of_refused
        exact ⟨error, before, call, after, rfl, hplan⟩
      | tooDeep => exact absurd rfl hends

open Datacenter

/-- The steps that select the virtual machines beneath the hosts. -/
def selectMachines : List (List String × Operation) :=
  [([], .addProperty (some "hosts/machines") none none)]

/-- The execution of the query for the virtual machines in all racks. -/
def machinesExecution : Execution :=
  ((leaf (.fresh racks anyRack)).run datacenter selectMachines).1.execute datacenter 2

theorem machinesExecution_reads_walk :
    (machinesExecution.query.rootWalk datacenter).map (·.1) =
        [[], ["hosts"], ["hosts", "machines"]] ∧
      machinesExecution.calls = (machinesExecution.query.rootWalk datacenter).map (·.2) := by
  have hnew : Query.new datacenter rack anyRack = .ok (leaf (.fresh racks anyRack)) := rfl
  have hpaths : (machinesExecution.query.rootWalk datacenter).map (·.1) =
      [[], ["hosts"], ["hosts", "machines"]] := by
    decide +kernel
  have hsize : (match machinesExecution.outcome with
      | .ok result => result.tree.size
      | .error _ => 0) = 2 := by
    decide +kernel
  have he : ((leaf (.fresh racks anyRack)).run datacenter selectMachines).1.execute datacenter 2 =
      machinesExecution := by
    unfold machinesExecution
    rfl
  generalize machinesExecution = e at hpaths hsize he ⊢
  cases houtcome : e.outcome with
  | error halt =>
    rw [houtcome] at hsize
    cases hsize
  | ok result =>
    have hwalk := execute_reads_walk hnew selectMachines he (by simp [houtcome])
    rw [houtcome] at hwalk
    exact ⟨hpaths, hwalk.2.2.1⟩

end Query
end ResourceQuery
