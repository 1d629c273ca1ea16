import ResourceQuery.Proofs.Query.Depth
import ResourceQuery.Proofs.Query.RowByRow

/-!
# Pages and the rows beneath

With a page only the children of the rows on the page are fetched.  What stands beneath these rows
is the same as without the page, as long as the selected children are nested by key.  So the page
can as well be cut out of the finished result.
-/

namespace ResourceQuery

/-- Sorting two elements is comparing them. -/
theorem mergeSort_pair {α : Type} (le : α → α → Bool) (a b : α) :
    [a, b].mergeSort le = if le a b then [a, b] else [b, a] := by
  simp [List.mergeSort, List.merge]

namespace PageRequest

variable {α β : Type} (page : PageRequest)

/-- Elements in the order that a page asks for, by the rows they show. -/
def sorted (resource : α → Resource) (xs : List α) : List α :=
  match page.sort with
  | some keys => xs.mergeSort fun x y => (compareRows keys (resource x) (resource y)).isLE
  | none => xs

theorem sorted_map (resource : β → Resource) (f : α → β) (xs : List α) :
    page.sorted resource (xs.map f) = (page.sorted (resource ∘ f) xs).map f := by
  unfold sorted
  cases page.sort with
  | none => rfl
  | some keys =>
    simp only
    rw [List.map_mergeSort]
    exact fun _ _ _ _ => rfl

theorem select_map (f : α → β) (xs : List α) :
    (page.select (xs.map f)).rows = (page.select xs).rows.map f ∧
      (page.select (xs.map f)).offset = (page.select xs).offset := by
  simp [select]

theorem selectSorted_eq (rows : List Resource) :
    page.selectSorted rows = page.select (page.sorted id rows) := by
  unfold selectSorted sorted
  cases page.sort <;> rfl

theorem selectSorted_total (rows : List Resource) :
    (page.selectSorted rows).total = rows.length := by
  rw [selectSorted_eq]
  unfold sorted
  cases page.sort with
  | none => rfl
  | some keys => exact List.length_mergeSort rows

end PageRequest

namespace Query

variable {c : Cluster} {q : Query}

/-- However a child was fetched, its tree under covered bindings is the same. -/
theorem Fetched.nestedTree_congr {depth : Nat} {keyMaps : List KeyMap} {q' : Query}
    (h : Fetched c depth keyMaps q q') : ∀ {depth₂ : Nat} {keyMaps₂ : List KeyMap} {q₂ : Query}
      {keyMap : KeyMap}, Fetched c depth₂ keyMaps₂ q q₂ → q.node.Covered c keyMaps keyMap →
      q.node.Covered c keyMaps₂ keyMap → q'.NestsByKey c →
        q₂.nestedTree c keyMap = q'.nestedTree c keyMap := by
  induction h with
  | idle depth q =>
    rintro _ _ _ keyMap - ⟨m, hm, -⟩
    cases hm
  | @read depth keyMaps q rows f _ hread hbeneath ih =>
    intro depth₂ keyMaps₂ q₂ keyMap h₂ hcovered hcovered₂ hnests
    cases h₂ with
    | idle =>
      obtain ⟨m, hm, -⟩ := hcovered₂
      cases hm
    | read f₂ _ hread₂ hbeneath₂ =>
      -- Neither batch decides the rows, only the bindings do.
      rw [nestedTree_mapSelected hcovered hread hbeneath,
        nestedTree_mapSelected hcovered₂ hread₂ hbeneath₂]
      refine congrArg (ResultTree.mk _ _) (expand_congr fun row hrow e he => ?_)
      obtain ⟨hkey, hdeeper⟩ := nestsByKey_of_fetched hnests he (hbeneath e he)
      have hbelow := covered_of_mem_rowsAlone hcovered hread hrow hkey
      have hbelow₂ := covered_of_mem_rowsAlone hcovered₂ hread₂ hrow hkey
      exact ih e he (hbeneath₂ e he) hbelow hbelow₂ hdeeper

/-- A page can be cut out before or after its rows are given what stands beneath them. -/
theorem select_sorted_expand (c : Cluster) (q : Query) (page : PageRequest)
    (nested : KeyMap → Query → ResultTree) (keyMap : KeyMap) (rows : List Resource) :
    (page.select (page.sorted ResultRow.resource (q.expand c nested keyMap rows))).rows =
        q.expand c nested keyMap (page.selectSorted rows).rows ∧
      (page.select (page.sorted ResultRow.resource (q.expand c nested keyMap rows))).offset =
        (page.selectSorted rows).offset := by
  rw [expand, PageRequest.sorted_map, PageRequest.selectSorted_eq]
  exact page.select_map _ _

/-- The rows of an execution with a page: those of the page, beneath which the fetched children
of the query without page stand. -/
theorem Executed.rows_setPage {depth : Nat} {page : Option PageRequest} {rows : List Resource}
    {f : Query → Query} (h : Executed c depth (q.setPage page) rows f) :
    (((q.setPage page).executed c rows f).resultTree c
        (((q.setPage page).executed c rows f).shownRows c).1).rows =
      (q.prepare c).expand c (fun keyMap child => (f child).nestedTree c keyMap) q.node.keyMap
        (pageRows page ((q.prepare c).node.rowsAlone c q.node.keyMap)) := by
  rw [h.resultTree_eq, prepare_setPage]
  rfl

/-- On a page the children are fetched for fewer rows, and show the same beneath each of them. -/
theorem Executed.expand_page {page : PageRequest} {depth depth' : Nat} {rows rows' : List Resource}
    {f f' : Query → Query} (h : Executed c depth (q.setPage none) rows f)
    (h' : Executed c depth' (q.setPage (some page)) rows' f')
    (hnests : ((q.setPage none).executed c rows f).NestsByKey c) :
    (q.prepare c).expand c (fun keyMap child => (f' child).nestedTree c keyMap) q.node.keyMap
        (page.selectSorted ((q.prepare c).node.rowsAlone c q.node.keyMap)).rows =
      (q.prepare c).expand c (fun keyMap child => (f child).nestedTree c keyMap) q.node.keyMap
        (page.selectSorted ((q.prepare c).node.rowsAlone c q.node.keyMap)).rows := by
  refine expand_congr fun row hrow e he => ?_
  -- Preparing does not read the page, so both queries select the same children.
  have hselected (p : Option PageRequest) (rows : List Resource) :
      e ∈ ((q.setPage p).asked c [q.node.keyMap] rows).selectedChildren := by
    rw [asked_selectedChildren, prepare_setPage]
    exact he
  have hrow' (p : Option PageRequest)
      (hmem : row ∈ pageRows p ((q.prepare c).node.rowsAlone c q.node.keyMap)) :
      row ∈ pageRows p (((q.setPage p).prepare c).node.rowsAlone c q.node.keyMap) := by
    rw [prepare_setPage]
    exact hmem
  have honPage : row ∈ pageRows (some page) ((q.prepare c).node.rowsAlone c q.node.keyMap) := hrow
  have hpaged := hrow' (some page) honPage
  have hwhole := hrow' none (mem_of_mem_pageRows honPage)
  have hfetched := h.beneath e (hselected none rows)
  have hfetched' := h'.beneath e (hselected (some page) rows')
  obtain ⟨hkey, hdeeper⟩ := nestsByKey_of_fetched hnests (hselected none rows) hfetched
  exact hfetched.nestedTree_congr hfetched' (covered_of_mem_pageRows h.answer hwhole hkey)
    (covered_of_mem_pageRows h'.answer hpaged hkey) hdeeper

/-- A page of a query holds the rows that it cuts out of the whole result, with everything that
stands beneath them there, and tells how many rows the whole result has. -/
theorem execute_page_eq_select {page : PageRequest} {depth depth' : Nat}
    {whole paged : ExecutionResult}
    (hwhole : ((q.setPage none).execute c depth).outcome = .ok whole)
    (hpaged : ((q.setPage (some page)).execute c depth').outcome = .ok paged)
    (hnests : ((q.setPage none).execute c depth).query.NestsByKey c) :
    let cut := page.select (page.sorted ResultRow.resource whole.tree.rows)
    paged.tree.rows = cut.rows ∧ paged.page = some ⟨cut.offset, whole.tree.size⟩ := by
  obtain ⟨rows, f, h, htree, -, visits, hquery⟩ := executed_of_ok hwhole
  obtain ⟨rows', f', h', htree', hpage', -⟩ := executed_of_ok hpaged
  rw [hquery, NestsByKey, nestings_settle] at hnests
  have hrows : whole.tree.rows = (q.prepare c).expand c
      (fun keyMap child => (f child).nestedTree c keyMap) q.node.keyMap
      ((q.prepare c).node.rowsAlone c q.node.keyMap) := by
    rw [htree, h.rows_setPage]
    rfl
  obtain ⟨hcut, hoffset⟩ := select_sorted_expand c (q.prepare c) page
    (fun keyMap child => (f child).nestedTree c keyMap) q.node.keyMap
    ((q.prepare c).node.rowsAlone c q.node.keyMap)
  have hsize : whole.tree.size = ((q.prepare c).node.rowsAlone c q.node.keyMap).length := by
    rw [ResultTree.size, hrows, expand, List.length_map]
  have hplace : paged.page = some
      ⟨(page.selectSorted ((q.prepare c).node.rowsAlone c q.node.keyMap)).offset,
        (page.selectSorted ((q.prepare c).node.rowsAlone c q.node.keyMap)).total⟩ := by
    have hshown := congrArg Prod.snd (shownRows_asked [q.node.keyMap] h'.answer)
    rw [prepare_setPage] at hshown
    exact hpage'.trans hshown
  refine ⟨?_, ?_⟩
  · rw [hrows, hcut, htree', h'.rows_setPage]
    exact h.expand_page h' hnests
  · rw [hplace, PageRequest.selectSorted_total, ← hsize, hrows, hoffset]

/-- What is fetched beneath a root depends on the page only through the rows that are shown. -/
theorem halt_fetchBeneath_setPage (fetch : List KeyMap → Query → Stage Query)
    (rows : List Resource) (page : Option PageRequest) (q : Query) :
    ((q.setPage page).fetchBeneath c fetch rows).halt = (q.fetchBeneath c fetch rows).halt := by
  obtain ⟨node, _ | children⟩ := q
  · rfl
  · rfl

/-- If a query has a result under one page, then also under every page that shows the same rows. -/
theorem exists_ok_of_pageRows_eq {depth : Nat} {page page' : Option PageRequest}
    {result : ExecutionResult} (hok : ((q.setPage page).execute c depth).outcome = .ok result)
    (hrows : pageRows page' ((q.prepare c).node.rowsAlone c q.node.keyMap) =
      pageRows page ((q.prepare c).node.rowsAlone c q.node.keyMap)) :
    ∃ result', ((q.setPage page').execute c depth).outcome = .ok result' := by
  obtain ⟨rows, f, h, -⟩ := executed_of_ok hok
  have hanswer : (q.prepare c).answer c (q.node.predicate c) = .ok rows :=
    (answer_setPage c q page _).symm.trans h.answer
  have hreads (p : Option PageRequest) : ((q.setPage p).reads c depth).halt =
      ((q.asked c [q.node.keyMap] rows).fetchBeneath c (fetch c depth)
        (pageRows p ((q.prepare c).node.rowsAlone c q.node.keyMap))).halt := by
    obtain ⟨hroot, hstate⟩ : ((q.setPage p).readRoot c).halt = none ∧
        ((q.setPage p).readRoot c).state = (q.asked c [q.node.keyMap] rows).setPage p := by
      rw [← asked_setPage]
      exact readRoot_of_answer ((answer_setPage c q p _).trans hanswer)
    have hshown : (((q.asked c [q.node.keyMap] rows).setPage p).shownRows c).1 =
        pageRows p ((q.prepare c).node.rowsAlone c q.node.keyMap) := by
      rw [shownRows_eq]
      exact congrArg (pageRows p) (narrow_asked [q.node.keyMap] hanswer)
    rw [reads, Stage.andThen_of_none hroot, hstate]
    show (fetchBeneath c (fetch c depth) (shownRows c _).1 _).halt = _
    rw [halt_fetchBeneath_setPage, hshown]
  rw [exists_ok_iff, hreads, hrows, ← hreads, ← exists_ok_iff]
  exact ⟨result, hok⟩

open Datacenter

/-- The last of the racks, from the greatest name to the least. -/
def lastRack : PageRequest := ⟨.ending, 1, some [⟨⟨"name"⟩, .descending⟩]⟩

/-- The names of the rows of a result. -/
def rowNames (e : Execution) : List (Option String) :=
  match e.outcome with
  | .ok result => result.tree.rows.map fun row => row.resource.key? ⟨"name"⟩
  | .error _ => []

theorem exists_ok_of_rowNames {e : Execution} (h : rowNames e ≠ []) :
    ∃ result, e.outcome = .ok result := by
  cases he : e.outcome with
  | ok result => exact ⟨result, rfl⟩
  | error halt => simp [rowNames, he] at h

/-- The same rack is on the first page of the racks as they are stored, which is answered. -/
theorem lastRack_ok :
    ∃ paged, ((machinesInRacks.setPage (some lastRack)).execute datacenter 2).outcome =
      .ok paged := by
  obtain ⟨r, s, halone, horder⟩ : ∃ r s, (machinesInRacks.prepare datacenter).node.rowsAlone
      datacenter machinesInRacks.node.keyMap = [r, s] ∧
      (compareRows [⟨⟨"name"⟩, .descending⟩] r s).isLE = false :=
    ⟨_, _, rfl, by decide +kernel⟩
  obtain ⟨stored, hstored⟩ : ∃ stored, ((machinesInRacks.setPage
      (some ⟨.beginning, 1, none⟩)).execute datacenter 2).outcome = .ok stored := ⟨_, rfl⟩
  refine exists_ok_of_pageRows_eq hstored ?_
  have hsorted : lastRack.sorted id [r, s] = [s, r] := by
    simp [PageRequest.sorted, lastRack, mergeSort_pair, horder]
  rw [halone]
  show (lastRack.selectSorted [r, s]).rows = [r]
  rw [PageRequest.selectSorted_eq, hsorted]
  rfl

/-- From the last name to the first, the first rack comes last, behind one other. -/
theorem lastRack_eq_select :
    ∃ whole paged first second,
      ((machinesInRacks.setPage none).execute datacenter 2).outcome = .ok whole ∧
      ((machinesInRacks.setPage (some lastRack)).execute datacenter 2).outcome = .ok paged ∧
      ((machinesInRacks.setPage none).execute datacenter 2).query.NestsByKey datacenter ∧
      whole.tree.rows = [first, second] ∧ first.resource.key? ⟨"name"⟩ = some "r1" ∧
      second.resource.key? ⟨"name"⟩ = some "r2" ∧ first.subResources.map (·.1) = ["hosts"] ∧
      paged.tree.rows = [first] ∧ paged.page = some ⟨1, 2⟩ := by
  have hnests : ((machinesInRacks.setPage none).execute datacenter 2).query.NestsByKey
      datacenter := by
    decide +kernel
  obtain ⟨whole, first, second, hwhole, hrows, horder, hfirst, hsecond, hbeneath⟩ :
      ∃ whole first second,
        ((machinesInRacks.setPage none).execute datacenter 2).outcome = .ok whole ∧
        whole.tree.rows = [first, second] ∧
        (compareRows [⟨⟨"name"⟩, .descending⟩] first.resource second.resource).isLE = false ∧
        first.resource.key? ⟨"name"⟩ = some "r1" ∧ second.resource.key? ⟨"name"⟩ = some "r2" ∧
        first.subResources.map (·.1) = ["hosts"] :=
    ⟨_, _, _, rfl, rfl, by decide +kernel, by decide +kernel, by decide +kernel,
      by decide +kernel⟩
  obtain ⟨paged, hpaged⟩ := lastRack_ok
  have hsorted : lastRack.sorted ResultRow.resource whole.tree.rows = [second, first] := by
    rw [hrows]
    simp [PageRequest.sorted, lastRack, mergeSort_pair, horder]
  have hsize : whole.tree.size = 2 := congrArg List.length hrows
  obtain ⟨hcut, hplace⟩ := execute_page_eq_select hwhole hpaged hnests
  rw [hsorted] at hcut hplace
  rw [hsize] at hplace
  exact ⟨whole, paged, first, second, hwhole, hpaged, hnests, hrows, hfirst, hsecond, hbeneath,
    hcut, hplace⟩

end Query
end ResourceQuery
