import ResourceQuery.Proofs.Query.Fetch

/-!
# The depth of an execution

An execution is carried out down to a given depth.  One that is not cut off there is the same at
every greater depth, so the depth does not show in its result.  How deep a query goes is decided by
its tree alone: by the children that its nodes select when they are prepared, and not by the key
maps or the rows.
-/

namespace ResourceQuery

/-! ## Stages that are not cut off -/

namespace Stage

variable {α : Type}

/-- The stage was not cut off at the given depth. -/
def Ends (s : Stage α) : Prop := s.halt ≠ some .tooDeep

theorem ends_of_halt_eq_none {s : Stage α} (h : s.halt = none) : s.Ends := by
  intro hdeep
  rw [h] at hdeep
  cases hdeep

theorem ends_map {β : Type} {f : α → β} {s : Stage α} : (s.map f).Ends ↔ s.Ends := Iff.rfl

theorem ends_andThen {s : Stage α} {next : α → Stage α} :
    (s.andThen next).Ends ↔ s.Ends ∧ (s.halt = none → (next s.state).Ends) := by
  cases hs : s.halt with
  | none => simp [Ends, andThen, hs]
  | some halt => simp [Ends, andThen, hs]

/-- A property of the calls and the end of a stage that passes from parts to a whole: it holds where
nothing is done, and where a stage goes on for which it holds. -/
structure Composes (P : List Call → Option Halt → Prop) : Prop where
  nil : P [] none
  append {calls calls' : List Call} {halt : Option Halt} (first : P calls none)
    (rest : P calls' halt) : P (calls ++ calls') halt

theorem Composes.andThen {P : List Call → Option Halt → Prop} (hP : Composes P) {s : Stage α}
    {next : α → Stage α} (h : P s.calls s.halt)
    (hnext : s.halt = none → P (next s.state).calls (next s.state).halt) :
    P (s.andThen next).calls (s.andThen next).halt := by
  cases hs : s.halt with
  | some halt =>
    rw [andThen_of_some hs]
    exact h
  | none =>
    rw [andThen_of_none hs]
    exact hP.append (hs ▸ h) (hnext hs)

theorem composes_ends : Composes fun _ halt => halt ≠ some .tooDeep where
  nil := by simp
  append _ rest := rest

/-- If going on does not change unless it was cut off, neither does the whole. -/
theorem andThen_mono {s : Stage α} {next next' : α → Stage α}
    (hnext : (next s.state).Ends → next' s.state = next s.state) (h : (s.andThen next).Ends) :
    s.andThen next' = s.andThen next := by
  unfold andThen
  cases hs : s.halt with
  | some halt => rfl
  | none =>
    have hends := (ends_andThen.1 h).2 hs
    simp only [hnext hends]

end Stage

namespace Query

variable {c : Cluster} {depth depth' : Nat} {keyMaps : List KeyMap} {q : Query}

theorem readNode_ends (c : Cluster) (p : Option Predicate) (q : Query) : (q.readNode c p).Ends := by
  unfold readNode
  simp only
  split
  · simp [Stage.Ends]
  · simp [Stage.Ends]

/-- What a fetch does where there are key maps to fetch for. -/
theorem fetch_eq (hne : keyMaps ≠ []) : fetch c (depth + 1) keyMaps q =
    ((q.addKeyMaps keyMaps).readNode c (q.node.batchPredicate c keyMaps)).andThen fun q =>
      q.fetchBeneath c (fetch c depth) q.node.rows := by
  cases keyMaps with
  | nil => exact absurd rfl hne
  | cons m ms => rfl

theorem fetchBeneath_some (node : QueryNode) (children : List (String × Query))
    (fetch : List KeyMap → Query → Stage Query) (rows : List Resource) :
    (mk node (some children)).fetchBeneath c fetch rows =
      (fetchSelected (fetch (node.rowKeyMaps c rows)) node.selected children).map
        fun children => mk node (some children) := rfl

/-! ## From the children to their parent -/

section Composes

variable {P : List Call → Option Halt → Prop}

theorem composes_fetchSelected (hP : Stage.Composes P) {fetch : Query → Stage Query}
    {selected : SortedSet String} : ∀ {children : List (String × Query)},
      (∀ e ∈ children, e.1 ∈ selected → P (fetch e.2).calls (fetch e.2).halt) →
        P (fetchSelected fetch selected children).calls
          (fetchSelected fetch selected children).halt
  | [], _ => hP.nil
  | (name, child) :: rest, h => by
    obtain ⟨hchild, hrest⟩ := List.forall_mem_cons.1 h
    have hlater := composes_fetchSelected hP hrest
    by_cases hname : name ∈ selected
    · have hfirst := hchild hname
      simp only [fetchSelected, if_pos hname]
      cases hs : (fetch child).halt with
      | some halt =>
        rw [hs] at hfirst
        exact hfirst
      | none =>
        rw [hs] at hfirst
        exact hP.append hfirst hlater
    · simp only [fetchSelected, if_neg hname]
      exact hlater

/-- What holds of every selected child holds of all that is fetched beneath a node. -/
theorem composes_fetchBeneath (hP : Stage.Composes P) {fetch : List KeyMap → Query → Stage Query}
    {rows : List Resource} (h : ∀ e ∈ q.selectedChildren,
      P (fetch (q.node.rowKeyMaps c rows) e.2).calls (fetch (q.node.rowKeyMaps c rows) e.2).halt) :
    P (q.fetchBeneath c fetch rows).calls (q.fetchBeneath c fetch rows).halt := by
  obtain ⟨node, _ | children⟩ := q
  · exact hP.nil
  · rw [fetchBeneath_some]
    exact composes_fetchSelected hP fun e he hsel => h e (mem_selectedChildren.2 ⟨he, hsel⟩)

end Composes

/-! ## More depth changes nothing -/

theorem fetchSelected_mono {fetch fetch' : Query → Stage Query} {selected : SortedSet String}
    (hfetch : ∀ child, (fetch child).Ends → fetch' child = fetch child) :
    ∀ {children : List (String × Query)}, (fetchSelected fetch selected children).Ends →
      fetchSelected fetch' selected children = fetchSelected fetch selected children
  | [], _ => rfl
  | (name, child) :: rest, h => by
    by_cases hname : name ∈ selected
    · simp only [fetchSelected, if_pos hname] at h ⊢
      cases hs : (fetch child).halt with
      | some halt =>
        -- The child ended the execution, so what comes after it is not reached.
        have hends : (fetch child).Ends := by simpa [Stage.Ends, hs] using h
        simp only [hfetch child hends, hs]
      | none =>
        have hends : (fetch child).Ends := Stage.ends_of_halt_eq_none hs
        have hrest : (fetchSelected fetch selected rest).Ends := by
          simpa [Stage.Ends, hs] using h
        simp only [hfetch child hends, hs, fetchSelected_mono hfetch hrest]
    · simp only [fetchSelected, if_neg hname] at h ⊢
      rw [fetchSelected_mono hfetch (Stage.ends_map.1 h)]

theorem fetchBeneath_mono {fetch fetch' : List KeyMap → Query → Stage Query}
    (hfetch : ∀ keyMaps child, (fetch keyMaps child).Ends →
      fetch' keyMaps child = fetch keyMaps child)
    {rows : List Resource} (h : (q.fetchBeneath c fetch rows).Ends) :
    q.fetchBeneath c fetch' rows = q.fetchBeneath c fetch rows := by
  obtain ⟨node, _ | children⟩ := q
  · rfl
  · rw [fetchBeneath_some] at h ⊢
    rw [fetchSelected_mono (hfetch _) (Stage.ends_map.1 h)]
    rfl

theorem fetch_succ (h : (fetch c depth keyMaps q).Ends) :
    fetch c (depth + 1) keyMaps q = fetch c depth keyMaps q := by
  induction depth generalizing keyMaps q with
  | zero =>
    cases keyMaps with
    | nil => rfl
    | cons m ms => exact absurd rfl h
  | succ depth ih =>
    cases keyMaps with
    | nil => rfl
    | cons m ms =>
      have hne : m :: ms ≠ [] := List.cons_ne_nil m ms
      rw [fetch_eq hne] at h
      rw [fetch_eq hne, fetch_eq hne]
      exact Stage.andThen_mono (fetchBeneath_mono fun _ _ => ih) h

/-- A fetch that is not cut off is the same at every greater depth. -/
theorem fetch_mono (hle : depth ≤ depth') (h : (fetch c depth keyMaps q).Ends) :
    fetch c depth' keyMaps q = fetch c depth keyMaps q := by
  induction hle with
  | refl => rfl
  | @step depth' _ ih => rw [← ih, fetch_succ (ih ▸ h)]

/-- The reads of an execution, up to the result. -/
def reads (c : Cluster) (depth : Nat) (q : Query) : Stage Query :=
  (q.readRoot c).andThen fun q => q.fetchBeneath c (fetch c depth) (q.shownRows c).1

theorem reads_mono (hle : depth ≤ depth') (h : (q.reads c depth).Ends) :
    q.reads c depth' = q.reads c depth :=
  Stage.andThen_mono (fetchBeneath_mono fun _ _ => fetch_mono hle) h

/-- An execution is its reads, and the result that they leave if they reach their end. -/
theorem execute_eq (c : Cluster) (depth : Nat) (q : Query) :
    q.execute c depth = match (q.reads c depth).halt with
      | some halt => ⟨(q.reads c depth).state, (q.reads c depth).calls, .error halt⟩
      | none =>
        let (rows, page) := (q.reads c depth).state.shownRows c
        ⟨(q.reads c depth).state.settle c [⟨(q.reads c depth).state.node.keyMap, rows⟩],
          (q.reads c depth).calls, .ok ⟨(q.reads c depth).state.resultTree c rows, page⟩⟩ := rfl

theorem outcome_eq_error_iff {halt : Halt} :
    (q.execute c depth).outcome = .error halt ↔ (q.reads c depth).halt = some halt := by
  rw [execute_eq]
  split
  · rename_i halt' hhalt
    simp [hhalt]
  · rename_i hhalt
    simp [hhalt]

theorem exists_ok_iff : (∃ result, (q.execute c depth).outcome = .ok result) ↔
    (q.reads c depth).halt = none := by
  cases houtcome : (q.execute c depth).outcome with
  | error halt => simp [outcome_eq_error_iff.1 houtcome]
  | ok result =>
    refine iff_of_true ⟨result, rfl⟩ (Option.eq_none_iff_forall_ne_some.2 fun halt hhalt => ?_)
    cases houtcome.symm.trans (outcome_eq_error_iff.2 hhalt)

theorem execute_calls : (q.execute c depth).calls = (q.reads c depth).calls := by
  rw [execute_eq]
  split
  · rfl
  · rfl

/-- An execution is not cut off when its reads are not. -/
theorem reads_ends_iff :
    (q.reads c depth).Ends ↔ (q.execute c depth).outcome ≠ .error .tooDeep :=
  not_congr outcome_eq_error_iff.symm

/-- An execution that is not cut off is the same at every greater depth. -/
theorem execute_mono (hle : depth ≤ depth') (h : (q.execute c depth).outcome ≠ .error .tooDeep) :
    q.execute c depth' = q.execute c depth := by
  have hreads := reads_mono hle (reads_ends_iff.2 h)
  rw [execute_eq, execute_eq, hreads]

/-! ## Depth is decided by the tree -/

/-- The query goes no deeper than the given depth, whatever it is fetched for. -/
def Within (c : Cluster) (depth : Nat) (q : Query) : Prop :=
  ∀ keyMaps, (fetch c depth keyMaps q).Ends

theorem Within.mono (h : q.Within c depth) (hle : depth ≤ depth') : q.Within c depth' := by
  intro keyMaps
  rw [fetch_mono hle (h keyMaps)]
  exact h keyMaps

theorem fetchBeneath_ends {fetch : List KeyMap → Query → Stage Query} {rows : List Resource}
    (h : ∀ e ∈ q.selectedChildren, ∀ keyMaps, (fetch keyMaps e.2).Ends) :
    (q.fetchBeneath c fetch rows).Ends :=
  composes_fetchBeneath Stage.composes_ends fun e he => h e he _

/-- What is selected when a node is prepared is fetched beneath it, whatever its rows. -/
theorem readNode_selectedChildren (p : Option Predicate) :
    ((q.addKeyMaps keyMaps).readNode c p).state.selectedChildren =
      (q.prepare c).selectedChildren := by
  refine readNode_state (P := fun q' => q'.selectedChildren = (q.prepare c).selectedChildren) ?_
    fun rows => ?_
  · rw [prepare_addKeyMaps]
    rfl
  · rw [prepare_addKeyMaps]
    rfl

/-- A query goes one level deeper than the children that it selects when it is prepared. -/
theorem within_succ (h : ∀ e ∈ (q.prepare c).selectedChildren, e.2.Within c depth) :
    q.Within c (depth + 1) := by
  intro keyMaps
  cases keyMaps with
  | nil => simp [fetch, Stage.Ends]
  | cons m ms =>
    rw [fetch_eq (List.cons_ne_nil m ms)]
    refine Stage.ends_andThen.2 ⟨readNode_ends c _ _, fun _ => fetchBeneath_ends fun e he => ?_⟩
    rw [readNode_selectedChildren] at he
    exact h e he

/-- Of finitely many queries, each with a depth of its own, one depth is enough for all. -/
theorem exists_depth_forall : ∀ {children : List (String × Query)},
    (∀ e ∈ children, ∃ depth, e.2.Within c depth) →
      ∃ depth, ∀ e ∈ children, e.2.Within c depth
  | [], _ => ⟨0, by simp⟩
  | e :: rest, h => by
    obtain ⟨⟨d, hd⟩, hrest⟩ := List.forall_mem_cons.1 h
    obtain ⟨d', hd'⟩ := exists_depth_forall hrest
    refine ⟨max d d', List.forall_mem_cons.2 ⟨hd.mono (Nat.le_max_left d d'), fun e he => ?_⟩⟩
    exact (hd' e he).mono (Nat.le_max_right d d')

theorem exists_within (h : ∀ e ∈ (q.prepare c).selectedChildren, ∃ depth, e.2.Within c depth) :
    ∃ depth, q.Within c depth := by
  obtain ⟨depth, hdepth⟩ := exists_depth_forall h
  exact ⟨depth + 1, within_succ hdepth⟩

theorem readRoot_ends (c : Cluster) (q : Query) : (q.readRoot c).Ends := by
  refine Stage.ends_andThen.2 ⟨readNode_ends c _ _, fun _ => ?_⟩
  simp [Stage.Ends]

/-- An execution ends at the depth to which the children go that its root selects. -/
theorem reads_ends (h : ∀ e ∈ (q.prepare c).selectedChildren, e.2.Within c depth) :
    (q.reads c depth).Ends := by
  refine Stage.ends_andThen.2 ⟨readRoot_ends c q, fun hroot => fetchBeneath_ends fun e he => ?_⟩
  obtain ⟨rows, -, hstate⟩ := readRoot_done hroot
  rw [hstate, asked_selectedChildren] at he
  exact h e he

end Query
end ResourceQuery
