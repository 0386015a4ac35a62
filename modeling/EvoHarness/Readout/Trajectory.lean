import EvoHarness.Core.StoreQueries

/-! The readout of a run, generation by generation, and what all views of a population agree on. -/
namespace EvoHarness.Readout
open PyText Json Evaluation Core.PopulationStore

structure CandidateRow where
  id : Text
  generation : ℤ
  parentId : Option Text
  island : ℤ
  operator : Text
  fitness : Option PyFloat
  passed : Bool
  title : Text
  summary : Text
  model : Text
  inArchive : Bool
  fault : Option PyStr
  sessionId : PyValue

def rowOf (c : Core.PopulationStore.Candidate) : CandidateRow where
  id := c.id
  generation := c.generation
  parentId := c.parentId
  island := c.islandIdx
  operator := c.operator
  fitness := c.report.map (·.fitness)
  passed := c.passed
  title := c.changeTitle
  summary := c.changeSummary
  model := c.modelName
  inArchive := c.inArchive
  fault := c.report.bind (·.fault)
  sessionId :=
    let session := member c.metadata "session_id".toList
    if truthy session then session else member c.metadata "agent_session_id".toList

structure Generation where
  generation : ℤ
  candidates : List CandidateRow
  bestFitness : Option PyFloat
  bestSoFar : Option PyFloat

def timeKey : Option PyFloat → ℕ ×ₗ ℚ
  | none | some .nan => toLex (0, 0)
  | some (.infinite false) => toLex (1, 0)
  | some (.finite n) => toLex (2, n.value)
  | some (.infinite true) => toLex (3, 0)

def inOrder (rows : List Row) : List Row :=
  rows.mergeSort fun a b => decide (toLex (a.generation, timeKey a.timestamp) ≤ toLex (b.generation, timeKey b.timestamp))

variable (fm : EvidenceFormats)

def candidates (rows : List Row) : Except StoreFault (List CandidateRow) := do
  let cands ← (inOrder rows).mapM (fromRow fm)
  return cands.map rowOf

/-- `by_generation.setdefault(row.generation, []).append(row)` -/
def addTo (row : CandidateRow) : List (ℤ × List CandidateRow) → List (ℤ × List CandidateRow)
  | [] => [(row.generation, [row])]
  | (g, members) :: rest =>
    if g = row.generation then (g, members ++ [row]) :: rest else (g, members) :: addTo row rest

def byGeneration (rows : List CandidateRow) : List (ℤ × List CandidateRow) :=
  (rows.foldl (fun groups row => addTo row groups) []).mergeSort fun a b => decide (a.1 ≤ b.1)

def scored (members : List CandidateRow) : List PyFloat := members.filterMap (·.fitness)

def larger : Option PyFloat → Option PyFloat → Option PyFloat
  | none, b => b
  | a, none => a
  | some a, some b => if quantity a < quantity b then some b else some a

def generations : Option PyFloat → List (ℤ × List CandidateRow) → List Generation
  | _, [] => []
  | runningBest, (g, members) :: rest =>
    let best := (scored members).argmax quantity
    let runningBest := larger runningBest best
    { generation := g, candidates := members, bestFitness := best, bestSoFar := runningBest } ::
      generations runningBest rest

def trajectory (rows : List Row) : Except StoreFault (List Generation) := do
  let found ← candidates fm rows
  return generations none (byGeneration found)

structure ViewsAgree (rows : List Row) : Prop where
  agree : ∀ row ∈ rows, ∃ c, fromRow fm row = .ok c ∧ Agrees row c
  best : ∃ found b, trajectory fm rows = .ok found ∧ best fm rows = .ok b ∧
    (found.getLast?.bind (·.bestSoFar)).map quantity = b.map fun c => quantity c.fitness

def IsBest (xs : List PyFloat) : Option PyFloat → Prop
  | none => xs = []
  | some x => x ∈ xs ∧ ∀ y ∈ xs, quantity y ≤ quantity x

theorem isBest_argmax (xs : List PyFloat) : IsBest xs (xs.argmax quantity) := by
  cases h : xs.argmax quantity with
  | none => exact List.argmax_eq_none.mp h
  | some x => exact ⟨List.argmax_mem h, fun y hy => List.le_of_mem_argmax hy h⟩

theorem IsBest.larger {xs ys : List PyFloat} {a b : Option PyFloat} (ha : IsBest xs a) (hb : IsBest ys b) :
    IsBest (xs ++ ys) (larger a b) := by
  cases a with
  | none =>
    have hnone : xs = [] := ha
    rw [hnone, List.nil_append]
    exact hb
  | some x =>
    cases b with
    | none =>
      have hnone : ys = [] := hb
      rw [hnone, List.append_nil]
      exact ha
    | some y =>
      show IsBest (xs ++ ys) (if quantity x < quantity y then some y else some x)
      split
      · rename_i hlt
        refine ⟨List.mem_append_right _ hb.1, ?_⟩
        intro z hz
        obtain hz | hz := List.mem_append.mp hz
        · exact (ha.2 z hz).trans hlt.le
        · exact hb.2 z hz
      · rename_i hle
        refine ⟨List.mem_append_left _ ha.1, ?_⟩
        intro z hz
        obtain hz | hz := List.mem_append.mp hz
        · exact ha.2 z hz
        · exact (hb.2 z hz).trans (not_lt.mp hle)

theorem generations_last (groups : List (ℤ × List CandidateRow)) : ∀ seen runningBest, IsBest seen runningBest →
    IsBest (seen ++ scored (groups.flatMap (·.2)))
      (((generations runningBest groups).getLast?.map (·.bestSoFar)).getD runningBest) := by
  induction groups with
  | nil =>
    intro seen runningBest h
    simpa [scored, generations] using h
  | cons group rest ih =>
    intro seen runningBest h
    have hnext := ih _ _ (h.larger (isBest_argmax (scored group.2)))
    have hscored : seen ++ scored ((group :: rest).flatMap (·.2)) =
        seen ++ scored group.2 ++ scored (rest.flatMap (·.2)) := by
      rw [List.flatMap_cons, scored, List.filterMap_append, List.append_assoc]
      rfl
    rw [hscored]
    have hlast : ((generations runningBest (group :: rest)).getLast?.map (·.bestSoFar)).getD runningBest =
        ((generations (larger runningBest ((scored group.2).argmax quantity)) rest).getLast?.map (·.bestSoFar)).getD
          (larger runningBest ((scored group.2).argmax quantity)) := by
      rw [generations, List.getLast?_cons]
      cases (generations (larger runningBest ((scored group.2).argmax quantity)) rest).getLast? with
      | none => rfl
      | some g => rfl
    rw [hlast]
    exact hnext

theorem mem_addTo (row r : CandidateRow) (groups : List (ℤ × List CandidateRow)) :
    r ∈ (addTo row groups).flatMap (·.2) ↔ r = row ∨ r ∈ groups.flatMap (·.2) := by
  induction groups with
  | nil => simp [addTo]
  | cons group rest ih =>
    rw [addTo]
    split
    · simp only [List.flatMap_cons, List.mem_append, List.mem_singleton]
      tauto
    · rw [List.flatMap_cons, List.mem_append, ih, List.flatMap_cons, List.mem_append]
      tauto

theorem mem_byGeneration {rows : List CandidateRow} (r : CandidateRow) :
    r ∈ (byGeneration rows).flatMap (·.2) ↔ r ∈ rows := by
  have hfold : ∀ groups, r ∈ (rows.foldl (fun groups row => addTo row groups) groups).flatMap (·.2) ↔
      r ∈ rows ∨ r ∈ groups.flatMap (·.2) := by
    induction rows with
    | nil => simp
    | cons row rows ih =>
      intro groups
      rw [List.foldl_cons, ih, mem_addTo, List.mem_cons]
      tauto
  rw [byGeneration, ((List.mergeSort_perm _ _).flatMap_right _).mem_iff, hfold]
  simp

theorem mapM_reads (rows : List Row) (h : ∀ row ∈ rows, ∃ c, fromRow fm row = .ok c) :
    ∃ cs, rows.mapM (fromRow fm) = .ok cs ∧ ∀ c, c ∈ cs ↔ ∃ row ∈ rows, fromRow fm row = .ok c := by
  induction rows with
  | nil => exact ⟨[], rfl, by simp⟩
  | cons row rows ih =>
    obtain ⟨c, hc⟩ := h row List.mem_cons_self
    obtain ⟨cs, hcs, hmem⟩ := ih fun r hr => h r (List.mem_cons_of_mem row hr)
    refine ⟨c :: cs, ?_, ?_⟩
    · rw [List.mapM_cons, hc, hcs]
      rfl
    · intro d
      rw [List.mem_cons, hmem, List.exists_mem_cons_iff, hc, Except.ok.injEq]
      exact or_congr_left eq_comm

theorem mem_scored {members : List CandidateRow} {x : PyFloat} : x ∈ scored members ↔ ∃ r ∈ members, r.fitness = some x :=
  List.mem_filterMap

/-- The best of some among others is as good as the best of all if no other is better. -/
theorem isBest_agree {xs ys : List PyFloat} {a b : Option PyFloat} (ha : IsBest xs a) (hb : IsBest ys b)
    (hsub : ∀ y ∈ ys, y ∈ xs) : a.map quantity = b.map quantity ↔ ∀ x ∈ xs, ∃ y ∈ ys, quantity x ≤ quantity y := by
  cases a with
  | none =>
    have hxs : xs = [] := ha
    cases b with
    | none =>
      rw [hxs]
      exact iff_of_true rfl fun _ hx => absurd hx List.not_mem_nil
    | some y =>
      have hy := hsub y hb.1
      rw [hxs] at hy
      exact absurd hy List.not_mem_nil
  | some x =>
    cases b with
    | none =>
      have hys : ys = [] := hb
      refine iff_of_false (fun h => nomatch h) ?_
      intro h
      obtain ⟨y, hy, _⟩ := h x ha.1
      rw [hys] at hy
      exact absurd hy List.not_mem_nil
    | some y =>
      rw [Option.map_some, Option.map_some, Option.some.injEq]
      constructor
      · intro heq z hz
        exact ⟨y, hb.1, heq ▸ ha.2 z hz⟩
      · intro h
        obtain ⟨z, hz, hle⟩ := h x ha.1
        exact le_antisymm (hle.trans (hb.2 z hz)) (ha.2 y (hsub y hb.1))

section
variable {fm} {rows : List Row} {x : PyFloat}

def Reported (fm : EvidenceFormats) (rows : List Row) (x : PyFloat) : Prop :=
  ∃ row ∈ rows, ∃ c, fromRow fm row = .ok c ∧ c.report ≠ none ∧ c.fitness = x

def Passed (fm : EvidenceFormats) (rows : List Row) (x : PyFloat) : Prop :=
  ∃ row ∈ rows, ∃ c, fromRow fm row = .ok c ∧ c.passed = true ∧ c.fitness = x

theorem Passed.reported (h : Passed fm rows x) : Reported fm rows x := by
  obtain ⟨row, hrow, c, hc, hpassed, hx⟩ := h
  refine ⟨row, hrow, c, hc, ?_, hx⟩
  intro hnone
  rw [Core.PopulationStore.Candidate.passed, hnone] at hpassed
  cases hpassed

theorem trajectory_reads (h : ∀ row ∈ rows, ∃ c, fromRow fm row = .ok c) :
    ∃ found xs, trajectory fm rows = .ok found ∧ (∀ x, x ∈ xs ↔ Reported fm rows x) ∧
      IsBest xs (found.getLast?.bind (·.bestSoFar)) := by
  obtain ⟨cs, hcs, hmem⟩ := mapM_reads fm (inOrder rows) fun row hrow =>
    h row ((List.mergeSort_perm _ _).mem_iff.mp hrow)
  have hcandidates : candidates fm rows = .ok (cs.map rowOf) := by
    unfold candidates
    rw [hcs]
    rfl
  have hlast := generations_last (byGeneration (cs.map rowOf)) [] none rfl
  refine ⟨generations none (byGeneration (cs.map rowOf)), scored ((byGeneration (cs.map rowOf)).flatMap (·.2)), ?_, ?_, ?_⟩
  · unfold trajectory
    rw [hcandidates]
    rfl
  · intro x
    rw [mem_scored]
    constructor
    · intro hx
      obtain ⟨r, hr, hfitness⟩ := hx
      rw [mem_byGeneration] at hr
      obtain ⟨c, hc, rfl⟩ := List.mem_map.mp hr
      obtain ⟨row, hrow, hread⟩ := (hmem c).mp hc
      obtain ⟨w, hw, hx⟩ := Option.map_eq_some_iff.mp hfitness
      refine ⟨row, (List.mergeSort_perm _ _).mem_iff.mp hrow, c, hread, by rw [hw]; simp, ?_⟩
      rw [Core.PopulationStore.Candidate.fitness, hw]
      exact hx
    · intro hx
      obtain ⟨row, hrow, c, hread, hreport, hx⟩ := hx
      refine ⟨rowOf c, (mem_byGeneration _).mpr (List.mem_map_of_mem ((hmem c).mpr ⟨row, ?_, hread⟩)), ?_⟩
      · exact (List.mergeSort_perm _ _).mem_iff.mpr hrow
      · obtain ⟨w, hw⟩ := Option.ne_none_iff_exists'.mp hreport
        rw [Core.PopulationStore.Candidate.fitness, hw] at hx
        show c.report.map (·.fitness) = some x
        rw [hw, ← hx]
        rfl
  · rw [List.nil_append] at hlast
    cases hl : (generations none (byGeneration (cs.map rowOf))).getLast? with
    | none =>
      rw [hl] at hlast
      exact hlast
    | some g =>
      rw [hl] at hlast
      exact hlast

theorem best_reads (h : ∀ row ∈ rows, ∃ c, fromRow fm row = .ok c ∧ Agrees row c) :
    ∃ b ys, best fm rows = .ok b ∧ (∀ x, x ∈ ys ↔ Passed fm rows x) ∧ IsBest ys (b.map (·.fitness)) := by
  obtain ⟨cs, hcs, hmem⟩ := mapM_reads fm (rows.filter selectableSql) fun row hrow =>
    (h row (List.mem_filter.mp hrow).1).imp fun _ hc => hc.1
  refine ⟨cs.argmax fun c => quantity c.fitness, cs.map (·.fitness), ?_, ?_, ?_⟩
  · unfold best
    rw [hcs]
    rfl
  · intro x
    rw [List.mem_map]
    constructor
    · intro hx
      obtain ⟨c, hc, hx⟩ := hx
      obtain ⟨row, hrow, hread⟩ := (hmem c).mp hc
      obtain ⟨hrow, hselect⟩ := List.mem_filter.mp hrow
      obtain ⟨c', hread', hagrees⟩ := h row hrow
      rw [hread, Except.ok.injEq] at hread'
      exact ⟨row, hrow, c, hread, hread' ▸ hagrees.selectable.mp hselect, hx⟩
    · intro hx
      obtain ⟨row, hrow, c, hread, hpassed, hx⟩ := hx
      obtain ⟨c', hread', hagrees⟩ := h row hrow
      rw [hread, Except.ok.injEq] at hread'
      exact ⟨c, (hmem c).mpr ⟨row, List.mem_filter.mpr ⟨hrow, (hread' ▸ hagrees).selectable.mpr hpassed⟩, hread⟩, hx⟩
  · cases hb : cs.argmax fun c => quantity c.fitness with
    | none =>
      rw [List.argmax_eq_none.mp hb]
      exact rfl
    | some c =>
      refine ⟨List.mem_map_of_mem (List.argmax_mem hb), ?_⟩
      intro y hy
      obtain ⟨d, hd, rfl⟩ := List.mem_map.mp hy
      exact List.le_of_mem_argmax (f := fun c : Core.PopulationStore.Candidate => quantity c.fitness) hd hb

end

/-- All views agree if and only if every row can be read and is not ambiguous, and of the candidates with a report none
is better than all that passed. -/
theorem population_views_iff (rows : List Row) : ViewsAgree fm rows ↔
    (∀ row ∈ rows, (∃ c, fromRow fm row = .ok c) ∧ Unambiguous fm row) ∧
      ∀ x, Reported fm rows x → ∃ y, Passed fm rows y ∧ quantity x ≤ quantity y := by
  have hrows : (∀ row ∈ rows, ∃ c, fromRow fm row = .ok c ∧ Agrees row c) ↔
      ∀ row ∈ rows, (∃ c, fromRow fm row = .ok c) ∧ Unambiguous fm row := by
    refine forall₂_congr fun row _ => ?_
    constructor
    · intro ⟨c, hc, hagrees⟩
      exact ⟨⟨c, hc⟩, (agrees_iff hc).mp hagrees⟩
    · intro ⟨⟨c, hc⟩, hun⟩
      exact ⟨c, hc, (agrees_iff hc).mpr hun⟩
  by_cases hagree : ∀ row ∈ rows, ∃ c, fromRow fm row = .ok c ∧ Agrees row c
  · obtain ⟨found, xs, hfound, hxs, hbestx⟩ := trajectory_reads fun row hrow => (hagree row hrow).imp fun _ hc => hc.1
    obtain ⟨b, ys, hb, hys, hbesty⟩ := best_reads hagree
    have hiff := isBest_agree hbestx hbesty fun y hy => (hxs y).mpr ((hys y).mp hy).reported
    rw [Option.map_map] at hiff
    have hlast : (∀ x ∈ xs, ∃ y ∈ ys, quantity x ≤ quantity y) ↔
        ∀ x, Reported fm rows x → ∃ y, Passed fm rows y ∧ quantity x ≤ quantity y := by
      simp only [hxs, hys]
    rw [← hrows, ← hlast, ← hiff]
    constructor
    · intro hviews
      obtain ⟨found', b', hfound', hb', heq⟩ := hviews.best
      rw [hfound, Except.ok.injEq] at hfound'
      rw [hb, Except.ok.injEq] at hb'
      subst hfound' hb'
      exact ⟨hagree, heq⟩
    · intro h
      exact ⟨hagree, found, b, hfound, hb, h.2⟩
  · exact iff_of_false (fun h => hagree h.agree) fun h => hagree (hrows.mpr h.1)

theorem trajectory_single {row : Row} {c : Core.PopulationStore.Candidate} (h : fromRow fm row = .ok c) : trajectory fm [row] =
    .ok (generations none [(c.generation, [rowOf c])]) := by
  have horder : inOrder [row] = [row] := List.mergeSort_singleton row
  have hgroups : byGeneration [rowOf c] = [(c.generation, [rowOf c])] := List.mergeSort_singleton _
  have hread : [row].mapM (fromRow fm) = .ok [c] := by
    rw [List.mapM_cons, h]
    rfl
  have hcandidates : candidates fm [row] = .ok [rowOf c] := by
    unfold candidates
    rw [horder, hread]
    rfl
  unfold trajectory
  rw [hcandidates]
  exact congrArg (fun groups => Except.ok (generations none groups)) hgroups

theorem failed_alone : ∃ s' c', insert noon 0 { rows := [] }
    { offspring with report := some { fitness := .finite zero, passed := false, fault := none } } = .ok (s', c') ∧
      ∀ fm, best fm s'.rows = .ok none ∧ ¬ViewsAgree fm s'.rows := by
  refine ⟨_, _, rfl, ?_⟩
  intro fm
  refine ⟨rfl, ?_⟩
  intro h
  obtain ⟨found, b, hfound, hb, heq⟩ := h.best
  cases hb
  have hsingle := hfound.symm.trans (trajectory_single fm rfl)
  rw [Except.ok.inj hsingle] at heq
  exact nomatch heq

end EvoHarness.Readout
