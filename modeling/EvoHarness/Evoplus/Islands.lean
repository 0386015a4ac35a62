import Mathlib.Data.List.AList
import EvoHarness.Evoplus.Copies
import EvoHarness.Library.Runs

/-! Island health: the marks a monitor keeps of what was graded, and the copies it puts on quiet islands. -/
namespace EvoHarness.Evoplus
open PyText Core.Population

structure IslandHealthMonitor where
  patience : ℤ := 10
  relativeFloor : ℚ := 3 / 4
  minGeneration : ℤ := 5
  maxRestartsPerIsland : ℤ := 2
  one_le_patience : 1 ≤ patience
  floor_range : 0 ≤ relativeFloor ∧ relativeFloor ≤ 1
  minGeneration_nonneg : 0 ≤ minGeneration
  maxRestarts_nonneg : 0 ≤ maxRestartsPerIsland

structure Marks where
  best : AList (fun _ : ℕ => ℚ) := ∅
  improvedAt : AList (fun _ : ℕ => ℤ) := ∅
  restarts : AList (fun _ : ℕ => ℤ) := ∅

structure IslandRestart where
  generation : ℤ
  islandIdx : ℕ
  donorIsland : ℕ
  donorId : Text
  injectedId : Text
  islandBest : ℚ
  globalBest : ℚ
  stalledFor : ℤ

structure IslandHealth where
  islandIdx : ℕ
  bestFitness : ℚ
  lastImprovedGeneration : ℤ
  stalledFor : ℤ
  restarts : ℤ
  stalled : Bool

namespace Marks

def onCandidateGraded (m : Marks) (c : Stored) : Marks :=
  if c.passed = false then m
  else
    match m.best.lookup c.islandIdx with
    | none => { m with best := m.best.insert c.islandIdx c.fitness, improvedAt := m.improvedAt.insert c.islandIdx c.generation }
    | some previous =>
      if previous < c.fitness then
        { m with best := m.best.insert c.islandIdx c.fitness, improvedAt := m.improvedAt.insert c.islandIdx c.generation }
      else m

def globalBest (m : Marks) : ℚ := (maxBy (fun a b => a ≤ b) (m.best.entries.map (·.2))).getD 0

def restartsOn (m : Marks) (idx : ℕ) : ℤ := (m.restarts.lookup idx).getD 0

end Marks

namespace IslandHealthMonitor
variable (M : IslandHealthMonitor)

def isStalled (m : Marks) (islandIdx : ℕ) (best : ℚ) (stalledFor : ℤ) (globalBest : ℚ) (generation : ℤ) : Bool :=
  if generation < M.minGeneration then false
  else if M.maxRestartsPerIsland ≤ m.restartsOn islandIdx then false
  else if stalledFor < M.patience then false
  else if globalBest ≤ 0 then false
  else if globalBest ≤ best then false
  else best < globalBest * M.relativeFloor

def health (m : Marks) (generation : ℤ) (idx : ℕ) : IslandHealth :=
  let best := (m.best.lookup idx).getD 0
  let improved := (m.improvedAt.lookup idx).getD 0
  { islandIdx := idx
    bestFitness := best
    lastImprovedGeneration := improved
    stalledFor := generation - improved
    restarts := m.restartsOn idx
    stalled := M.isStalled m idx best (generation - improved) m.globalBest generation }

def survey (m : Marks) (generation : ℤ) (numIslands : ℕ) : List IslandHealth :=
  (List.range numIslands).map (M.health m generation)

end IslandHealthMonitor

def pickDonor (rows : List Stored) (islandIdx numIslands : ℕ) : Option Stored :=
  maxBy (fun a b => a.fitness ≤ b.fitness)
    (((List.range numIslands).filter (· ≠ islandIdx)).flatMap fun idx => passedRows (islandRows rows idx))

structure Restarting where
  rows : List Stored
  marks : Marks
  done : List IslandRestart := []

/-- The loop of `maybe_restart`. `fresh` gives each copy its id and its time; an id that exists is not inserted. -/
def restartAll (fresh : ℕ → Text × ℚ) (generation : ℤ) (numIslands : ℕ) : List IslandHealth → Restarting → Option Restarting
  | [], s => some s
  | health :: rest, s =>
    if health.stalled = false then restartAll fresh generation numIslands rest s
    else
      match pickDonor s.rows health.islandIdx numIslands with
      | none => restartAll fresh generation numIslands rest s
      | some donor =>
        let idx := health.islandIdx
        let copy := injectedRow donor (fresh idx).1 idx (fresh idx).2
        if copy.id ∈ s.rows.map (·.id) then none
        else restartAll fresh generation numIslands rest {
          rows := s.rows ++ [copy]
          marks := { s.marks with
            restarts := s.marks.restarts.insert idx (s.marks.restartsOn idx + 1)
            improvedAt := s.marks.improvedAt.insert idx generation }
          done := s.done ++ [{
            generation
            islandIdx := idx
            donorIsland := donor.islandIdx
            donorId := donor.id
            injectedId := copy.id
            islandBest := health.bestFitness
            globalBest := s.marks.globalBest
            stalledFor := health.stalledFor }] }

def maybeRestart (M : IslandHealthMonitor) (fresh : ℕ → Text × ℚ) (rows : List Stored) (marks : Marks) (generation : ℤ)
    (numIslands : ℕ) : Option Restarting :=
  if numIslands < 2 ∨ M.maxRestartsPerIsland = 0 then some { rows, marks }
  else restartAll fresh generation numIslands (M.survey marks generation numIslands) { rows, marks }

inductive Happening where
  | graded (c : Stored)
  | restarted (r : IslandRestart)

/-- `timeline` has what was graded and restarted, the last first. -/
structure HealthRun where
  rows : List Stored := []
  marks : Marks := {}
  timeline : List Happening := []
  saved : Option (Marks × List Happening) := none

inductive HealthEvent (σ : Type) where
  | rows (e : RowEvent σ)
  | restart (generation : ℤ) (fresh : ℕ → Text × ℚ)
  | checkpoint
  | resume

def observed {σ : Type} (e : RowEvent σ) (w : HealthRun) : HealthRun :=
  match e with
  | .graded c => { w with marks := w.marks.onCandidateGraded c, timeline := .graded c :: w.timeline }
  | _ => w

/-- A resume takes the marks and the timeline back to the checkpoint; the rows stay. -/
def healthStep {σ : Type} (M : IslandHealthMonitor) (cfg : MigrationConfig) (g : Generator σ) (w : HealthRun) :
    HealthEvent σ → Option HealthRun
  | .rows e => (rowStep cfg g w.rows e).map fun rows => { observed e w with rows }
  | .restart generation fresh =>
    (maybeRestart M fresh w.rows w.marks generation cfg.numIslands).map fun s =>
      { w with rows := s.rows, marks := s.marks, timeline := (s.done.map .restarted).reverse ++ w.timeline }
  | .checkpoint => some { w with saved := some (w.marks, w.timeline) }
  | .resume => w.saved.map fun saved => { w with marks := saved.1, timeline := saved.2 }

def gradedOn (idx : ℕ) : List Happening → List ℚ
  | [] => []
  | .graded c :: past => if c.passed = true ∧ c.islandIdx = idx then c.fitness :: gradedOn idx past else gradedOn idx past
  | .restarted _ :: past => gradedOn idx past

/-- The generation of the last restart of an island, or of the last candidate that passed there and was better than all
before it. -/
def clock (idx : ℕ) : List Happening → ℤ
  | [] => 0
  | .graded c :: past =>
    if c.passed = true ∧ c.islandIdx = idx ∧ ∀ u ∈ gradedOn idx past, u < c.fitness then c.generation else clock idx past
  | .restarted r :: past => if r.islandIdx = idx then r.generation else clock idx past

def restartsOf (idx : ℕ) : List Happening → ℤ
  | [] => 0
  | .graded _ :: past => restartsOf idx past
  | .restarted r :: past => if r.islandIdx = idx then restartsOf idx past + 1 else restartsOf idx past

def IsTop (past : List Happening) (top : ℚ) : Prop :=
  (∃ idx, top ∈ gradedOn idx past) ∧ ∀ idx, ∀ u ∈ gradedOn idx past, u ≤ top

/-- An island that is due for a restart: all that passed there is below the floor, and the clock ran long enough. -/
structure Due (M : IslandHealthMonitor) (past : List Happening) (idx : ℕ) (generation : ℤ) : Prop where
  below : ∃ top, IsTop past top ∧ 0 < top ∧ (∀ u ∈ gradedOn idx past, u < top * M.relativeFloor) ∧
    (gradedOn idx past = [] → 0 < top * M.relativeFloor)
  waited : M.patience ≤ generation - clock idx past
  grown : M.minGeneration ≤ generation

structure SoundRestarts (M : IslandHealthMonitor) (timeline : List Happening) : Prop where
  capped : ∀ idx, restartsOf idx timeline ≤ M.maxRestartsPerIsland
  due : ∀ later r past, timeline = later ++ .restarted r :: past → Due M past r.islandIdx r.generation

variable {M : IslandHealthMonitor} {m : Marks} {past : List Happening} {idx : ℕ} {generation : ℤ} {c : Stored}
  {r : IslandRestart}

structure Tracks (m : Marks) (past : List Happening) : Prop where
  best_none : ∀ idx, m.best.lookup idx = none → gradedOn idx past = []
  best_some : ∀ idx v, m.best.lookup idx = some v → v ∈ gradedOn idx past ∧ ∀ u ∈ gradedOn idx past, u ≤ v
  clock : ∀ idx, (m.improvedAt.lookup idx).getD 0 = clock idx past
  restarts : ∀ idx, m.restartsOn idx = restartsOf idx past

theorem tracks_nil : Tracks {} [] :=
  ⟨fun _ _ => rfl, fun _ _ h => (nomatch h), fun _ => rfl, fun _ => rfl⟩

theorem gradedOn_other (h : ¬(c.passed = true ∧ c.islandIdx = idx)) : gradedOn idx (.graded c :: past) = gradedOn idx past := by
  rw [gradedOn, if_neg h]

theorem clock_other (h : ¬(c.passed = true ∧ c.islandIdx = idx)) : clock idx (.graded c :: past) = clock idx past := by
  rw [clock, if_neg fun hset => h ⟨hset.1, hset.2.1⟩]

theorem Tracks.unmarked (h : Tracks m past)
    (hc : ∀ idx, c.passed = true → c.islandIdx = idx → ∃ u ∈ gradedOn idx past, c.fitness ≤ u) :
    Tracks m (.graded c :: past) := by
  constructor
  · intro idx hnone
    by_cases hhere : c.passed = true ∧ c.islandIdx = idx
    · obtain ⟨u, hu, -⟩ := hc idx hhere.1 hhere.2
      rw [h.best_none idx hnone] at hu
      exact absurd hu List.not_mem_nil
    · rw [gradedOn_other hhere]
      exact h.best_none idx hnone
  · intro idx v hv
    obtain ⟨hmem, htop⟩ := h.best_some idx v hv
    by_cases hhere : c.passed = true ∧ c.islandIdx = idx
    · obtain ⟨u, hu, hle⟩ := hc idx hhere.1 hhere.2
      rw [gradedOn, if_pos hhere, List.forall_mem_cons]
      exact ⟨List.mem_cons_of_mem _ hmem, hle.trans (htop u hu), htop⟩
    · rw [gradedOn_other hhere]
      exact ⟨hmem, htop⟩
  · intro idx
    rw [h.clock idx, Evoplus.clock, if_neg]
    rintro ⟨hpassed, hidx, hbeats⟩
    obtain ⟨u, hu, hle⟩ := hc idx hpassed hidx
    exact not_lt.mpr hle (hbeats u hu)
  · exact h.restarts

theorem Tracks.marked (h : Tracks m past) (hpassed : c.passed = true)
    (hbeats : ∀ u ∈ gradedOn c.islandIdx past, u < c.fitness) :
    Tracks { m with
      best := m.best.insert c.islandIdx c.fitness
      improvedAt := m.improvedAt.insert c.islandIdx c.generation } (.graded c :: past) := by
  have hother : ∀ idx, idx ≠ c.islandIdx → ¬(c.passed = true ∧ c.islandIdx = idx) :=
    fun idx hne hhere => hne hhere.2.symm
  constructor
  · intro idx hnone
    by_cases hidx : idx = c.islandIdx
    · rw [hidx, AList.lookup_insert] at hnone
      exact nomatch hnone
    · rw [AList.lookup_insert_ne hidx] at hnone
      rw [gradedOn_other (hother idx hidx)]
      exact h.best_none idx hnone
  · intro idx v hv
    by_cases hidx : idx = c.islandIdx
    · subst hidx
      rw [AList.lookup_insert, Option.some.injEq] at hv
      rw [gradedOn, if_pos ⟨hpassed, rfl⟩, List.forall_mem_cons, ← hv]
      exact ⟨List.mem_cons_self, le_rfl, fun u hu => (hbeats u hu).le⟩
    · rw [AList.lookup_insert_ne hidx] at hv
      rw [gradedOn_other (hother idx hidx)]
      exact h.best_some idx v hv
  · intro idx
    by_cases hidx : idx = c.islandIdx
    · subst hidx
      rw [AList.lookup_insert, Evoplus.clock, if_pos ⟨hpassed, rfl, hbeats⟩]
      rfl
    · rw [AList.lookup_insert_ne hidx, clock_other (hother idx hidx)]
      exact h.clock idx
  · exact h.restarts

theorem Tracks.graded (h : Tracks m past) (c : Stored) : Tracks (m.onCandidateGraded c) (.graded c :: past) := by
  unfold Marks.onCandidateGraded
  split
  · next hfailed => exact h.unmarked fun idx hpassed => nomatch hfailed.symm.trans hpassed
  · next hpassed =>
    rw [Bool.not_eq_false] at hpassed
    split
    · next hnone =>
      apply h.marked hpassed
      rw [h.best_none _ hnone]
      exact fun u hu => absurd hu List.not_mem_nil
    · next previous hsome =>
      obtain ⟨hmem, htop⟩ := h.best_some _ previous hsome
      split
      · next hbeats => exact h.marked hpassed fun u hu => (htop u hu).trans_lt hbeats
      · next hbelow =>
        refine h.unmarked fun idx _ hidx => ?_
        subst hidx
        exact ⟨previous, hmem, not_lt.mp hbelow⟩

theorem Tracks.restarted (h : Tracks m past) (r : IslandRestart) :
    Tracks { m with
      restarts := m.restarts.insert r.islandIdx (m.restartsOn r.islandIdx + 1)
      improvedAt := m.improvedAt.insert r.islandIdx r.generation } (.restarted r :: past) := by
  constructor
  · exact h.best_none
  · exact h.best_some
  · intro idx
    rw [Evoplus.clock]
    by_cases hidx : idx = r.islandIdx
    · rw [hidx, AList.lookup_insert, if_pos rfl]
      rfl
    · rw [AList.lookup_insert_ne hidx, if_neg (Ne.symm hidx)]
      exact h.clock idx
  · intro idx
    rw [Marks.restartsOn, restartsOf]
    by_cases hidx : idx = r.islandIdx
    · rw [hidx, AList.lookup_insert, if_pos rfl, ← h.restarts]
      rfl
    · rw [AList.lookup_insert_ne hidx, if_neg (Ne.symm hidx)]
      exact h.restarts idx

theorem le_maxBy {xs : List ℚ} {top u : ℚ} (h : maxBy (fun a b => a ≤ b) xs = some top) (hu : u ∈ xs) : u ≤ top := by
  have hfold : ∀ (ys : List ℚ) (b : ℚ), b ≤ ys.foldl (fun best d => if d ≤ best then best else d) b ∧
      ∀ y ∈ ys, y ≤ ys.foldl (fun best d => if d ≤ best then best else d) b := by
    intro ys
    induction ys with
    | nil => exact fun b => ⟨le_rfl, fun y hy => absurd hy List.not_mem_nil⟩
    | cons y ys ih =>
      intro b
      rw [List.foldl_cons, List.forall_mem_cons]
      split
      · next hle => exact ⟨(ih b).1, hle.trans (ih b).1, (ih b).2⟩
      · next hlt => exact ⟨(not_le.mp hlt).le.trans (ih y).1, (ih y).1, (ih y).2⟩
  cases xs with
  | nil => exact nomatch h
  | cons x xs =>
    cases h
    rcases List.mem_cons.mp hu with rfl | hu
    · exact (hfold xs _).1
    · exact (hfold xs x).2 u hu

theorem Tracks.isTop (h : Tracks m past) (hpos : 0 < m.globalBest) : IsTop past m.globalBest := by
  unfold Marks.globalBest at hpos ⊢
  cases hmax : maxBy (fun a b => a ≤ b) (m.best.entries.map (·.2)) with
  | none =>
    rw [hmax] at hpos
    exact absurd hpos (lt_irrefl 0)
  | some top =>
    constructor
    · obtain ⟨⟨idx, v⟩, hentry, rfl⟩ := List.mem_map.mp (maxBy_mem _ hmax)
      exact ⟨idx, (h.best_some idx v (AList.mem_lookup_iff.mpr hentry)).1⟩
    · intro idx u hu
      cases hlookup : m.best.lookup idx with
      | none =>
        rw [h.best_none idx hlookup] at hu
        exact absurd hu List.not_mem_nil
      | some v =>
        have hentry : v ∈ m.best.entries.map (·.2) := List.mem_map.mpr ⟨⟨idx, v⟩, AList.mem_lookup_iff.mp hlookup, rfl⟩
        exact ((h.best_some idx v hlookup).2 u hu).trans (le_maxBy hmax hentry)

/-- An island the survey finds stalled is due, and was restarted less often than the cap. -/
theorem Tracks.due (h : Tracks m past) (hstalled : (M.health m generation idx).stalled = true) :
    Due M past idx generation ∧ restartsOf idx past < M.maxRestartsPerIsland := by
  unfold IslandHealthMonitor.health at hstalled
  dsimp only at hstalled
  unfold IslandHealthMonitor.isStalled at hstalled
  rw [h.clock idx, h.restarts idx] at hstalled
  split at hstalled
  · exact nomatch hstalled
  · next hgrown =>
    split at hstalled
    · exact nomatch hstalled
    · next hcap =>
      split at hstalled
      · exact nomatch hstalled
      · next hwaited =>
        split at hstalled
        · exact nomatch hstalled
        · next hpos =>
          split at hstalled
          · exact nomatch hstalled
          · rw [not_lt] at hgrown hwaited
            rw [not_le] at hcap hpos
            rw [decide_eq_true_eq] at hstalled
            refine ⟨⟨⟨m.globalBest, h.isTop hpos, hpos, ?_, ?_⟩, hwaited, hgrown⟩, hcap⟩
            · intro u hu
              cases hlookup : m.best.lookup idx with
              | none =>
                rw [h.best_none idx hlookup] at hu
                exact absurd hu List.not_mem_nil
              | some v =>
                rw [hlookup] at hstalled
                exact ((h.best_some idx v hlookup).2 u hu).trans_lt hstalled
            · intro hnone
              cases hlookup : m.best.lookup idx with
              | none =>
                rw [hlookup] at hstalled
                exact hstalled
              | some v =>
                have hmem := (h.best_some idx v hlookup).1
                rw [hnone] at hmem
                exact absurd hmem List.not_mem_nil

theorem Due.other (h : Due M past idx generation) (hne : r.islandIdx ≠ idx) : Due M (.restarted r :: past) idx generation := by
  refine ⟨h.below, ?_, h.grown⟩
  rw [clock, if_neg hne]
  exact h.waited

theorem soundRestarts_nil : SoundRestarts M [] := by
  refine ⟨fun _ => M.maxRestarts_nonneg, fun later r past h => ?_⟩
  exact absurd h.symm (List.append_ne_nil_of_right_ne_nil _ (List.cons_ne_nil _ _))

theorem SoundRestarts.graded (h : SoundRestarts M past) (c : Stored) : SoundRestarts M (.graded c :: past) := by
  refine ⟨h.capped, fun later r before heq => ?_⟩
  cases later with
  | nil => exact nomatch heq
  | cons e later => exact h.due later r before (List.cons.inj heq).2

theorem SoundRestarts.restarted (h : SoundRestarts M past) (hdue : Due M past r.islandIdx r.generation)
    (hcap : restartsOf r.islandIdx past < M.maxRestartsPerIsland) : SoundRestarts M (.restarted r :: past) := by
  constructor
  · intro idx
    rw [restartsOf]
    split
    · next hidx =>
      subst hidx
      omega
    · exact h.capped idx
  · intro later r' before heq
    cases later with
    | nil =>
      cases heq
      exact hdue
    | cons e later => exact h.due later r' before (List.cons.inj heq).2

/-- What the loop adds: a copy for each restart, and the restarts of islands that are due. -/
theorem restartAll_spec {fresh : ℕ → Text × ℚ} {numIslands : ℕ} {healths : List IslandHealth} {s s' : Restarting}
    (h : restartAll fresh generation numIslands healths s = some s') (hdistinct : (healths.map (·.islandIdx)).Nodup)
    (htracks : Tracks s.marks past) (hsound : SoundRestarts M past)
    (hdue : ∀ health ∈ healths, health.stalled = true → Due M past health.islandIdx generation ∧
      restartsOf health.islandIdx past < M.maxRestartsPerIsland) :
    ∃ restarts copies, s'.done = s.done ++ restarts ∧ s'.rows = s.rows ++ copies ∧
      copies.map (·.id) = restarts.map (·.injectedId) ∧
      Tracks s'.marks ((restarts.map .restarted).reverse ++ past) ∧
      SoundRestarts M ((restarts.map .restarted).reverse ++ past) := by
  induction healths generalizing s past with
  | nil =>
    cases h
    exact ⟨[], [], by simp, by simp, rfl, htracks, hsound⟩
  | cons health healths ih =>
    rw [List.map_cons, List.nodup_cons] at hdistinct
    rw [List.forall_mem_cons] at hdue
    rw [restartAll] at h
    split at h
    · exact ih h hdistinct.2 htracks hsound hdue.2
    · next hstalled =>
      rw [Bool.not_eq_false] at hstalled
      split at h
      · exact ih h hdistinct.2 htracks hsound hdue.2
      · next donor _ =>
        dsimp only at h
        split at h
        · exact nomatch h
        · obtain ⟨hisDue, hcap⟩ := hdue.1 hstalled
          have hothers : ∀ other ∈ healths, health.islandIdx ≠ other.islandIdx :=
            fun other hother heq => hdistinct.1 (List.mem_map.mpr ⟨other, hother, heq.symm⟩)
          have hrest := ih h hdistinct.2 (htracks.restarted ⟨generation, health.islandIdx, donor.islandIdx, donor.id,
            (fresh health.islandIdx).1, health.bestFitness, s.marks.globalBest, health.stalledFor⟩)
            (hsound.restarted hisDue hcap) fun other hother hquiet => by
              obtain ⟨hotherDue, hotherCap⟩ := hdue.2 other hother hquiet
              rw [restartsOf, if_neg (hothers other hother)]
              exact ⟨hotherDue.other (hothers other hother), hotherCap⟩
          obtain ⟨restarts, copies, hdone, hrows, hids, htracks', hsound'⟩ := hrest
          rw [List.append_assoc] at hdone hrows
          refine ⟨_ :: restarts, _ :: copies, hdone, hrows, ?_, ?_, ?_⟩
          · rw [List.map_cons, List.map_cons, hids]
          · rw [List.map_cons, List.reverse_cons, List.append_assoc]
            exact htracks'
          · rw [List.map_cons, List.reverse_cons, List.append_assoc]
            exact hsound'

theorem survey_distinct (M : IslandHealthMonitor) (m : Marks) (generation : ℤ) (numIslands : ℕ) :
    ((M.survey m generation numIslands).map (·.islandIdx)).Nodup := by
  rw [IslandHealthMonitor.survey, List.map_map]
  have hid : ((·.islandIdx) ∘ M.health m generation) = id := rfl
  rw [hid, List.map_id]
  exact List.nodup_range

theorem maybeRestart_spec {fresh : ℕ → Text × ℚ} {numIslands : ℕ} {rows : List Stored} {s : Restarting}
    (h : maybeRestart M fresh rows m generation numIslands = some s) (htracks : Tracks m past)
    (hsound : SoundRestarts M past) :
    (∃ copies, s.rows = rows ++ copies ∧ copies.map (·.id) = s.done.map (·.injectedId)) ∧
      Tracks s.marks ((s.done.map .restarted).reverse ++ past) ∧
      SoundRestarts M ((s.done.map .restarted).reverse ++ past) := by
  unfold maybeRestart at h
  split at h
  · cases h
    exact ⟨⟨[], (List.append_nil _).symm, rfl⟩, htracks, hsound⟩
  · obtain ⟨restarts, copies, hdone, hrows, hids, htracks', hsound'⟩ :=
      restartAll_spec h (survey_distinct M m generation numIslands) htracks hsound fun health hmem hstalled => by
        obtain ⟨idx, -, rfl⟩ := List.mem_map.mp hmem
        exact htracks.due hstalled
    rw [List.nil_append] at hdone
    rw [hdone]
    exact ⟨⟨copies, hrows, hids⟩, htracks', hsound'⟩

variable {σ : Type} {cfg : MigrationConfig} {g : Generator σ} {w w' : HealthRun}

structure Kept (M : IslandHealthMonitor) (w : HealthRun) : Prop where
  tracks : Tracks w.marks w.timeline
  sound : SoundRestarts M w.timeline
  saved : ∀ marks timeline, w.saved = some (marks, timeline) → Tracks marks timeline ∧ SoundRestarts M timeline

theorem kept_start (M : IslandHealthMonitor) : Kept M {} := ⟨tracks_nil, soundRestarts_nil, fun _ _ h => nomatch h⟩

theorem Kept.observed (h : Kept M w) (e : RowEvent σ) (rows : List Stored) : Kept M { observed e w with rows } := by
  cases e with
  | graded c => exact ⟨h.tracks.graded c, h.sound.graded c, h.saved⟩
  | seedCopy => exact ⟨h.tracks, h.sound, h.saved⟩
  | inject => exact ⟨h.tracks, h.sound, h.saved⟩
  | migrate => exact ⟨h.tracks, h.sound, h.saved⟩

theorem Kept.step {a : HealthEvent σ} (h : Kept M w) (hstep : healthStep M cfg g w a = some w') : Kept M w' := by
  cases a with
  | rows e =>
    obtain ⟨rows, -, rfl⟩ := Option.map_eq_some_iff.mp hstep
    exact h.observed e rows
  | restart generation fresh =>
    obtain ⟨s, hs, rfl⟩ := Option.map_eq_some_iff.mp hstep
    obtain ⟨-, htracks, hsound⟩ := maybeRestart_spec hs h.tracks h.sound
    exact ⟨htracks, hsound, h.saved⟩
  | checkpoint =>
    cases hstep
    refine ⟨h.tracks, h.sound, fun marks timeline hsaved => ?_⟩
    cases hsaved
    exact ⟨h.tracks, h.sound⟩
  | resume =>
    obtain ⟨saved, hsaved, rfl⟩ := Option.map_eq_some_iff.mp hstep
    obtain ⟨htracks, hsound⟩ := h.saved saved.1 saved.2 hsaved
    exact ⟨htracks, hsound, h.saved⟩

/-- In every run a restart step puts copies behind the rows and leaves those that are there, and the restarts of the
timeline are capped and of islands that were due. -/
theorem restarts_sound (M : IslandHealthMonitor) (cfg : MigrationConfig) (g : Generator σ) (as : List (HealthEvent σ))
    (w : HealthRun) (hrun : Runs.run (healthStep M cfg g) {} as = some w) :
    SoundRestarts M w.timeline ∧ ∀ generation fresh s, maybeRestart M fresh w.rows w.marks generation cfg.numIslands = some s →
      ∃ copies, s.rows = w.rows ++ copies ∧ copies.map (·.id) = s.done.map (·.injectedId) := by
  have hkept : Kept M w := Runs.run_invariant (fun _ _ _ h hstep => h.step hstep) (kept_start M) hrun
  exact ⟨hkept.sound, fun generation fresh s hs => (maybeRestart_spec hs hkept.tracks hkept.sound).1⟩

/-- The best that passed and is stored on the island of a restart is below the floor. -/
def StoredBelow (M : IslandHealthMonitor) (rows : List Stored) (r : IslandRestart) : Prop :=
  ∃ best ∈ rows, best.passed = true ∧ (∀ d ∈ rows, d.passed = true → d.fitness ≤ best.fitness) ∧
    ∀ c ∈ rows, c.islandIdx = r.islandIdx → c.passed = true → c.fitness < M.relativeFloor * best.fitness

namespace Champion

def monitor : IslandHealthMonitor where
  one_le_patience := by decide
  floor_range := by norm_num
  minGeneration_nonneg := by decide
  maxRestarts_nonneg := by decide

def twoIslands : MigrationConfig where
  numIslands := 2
  migrationInterval := 10
  migrationRate := 0
  share _ := 0

def champion : Stored :=
  { id := "champion".toList, generation := 1, report := some ⟨1, true⟩, columns := none, metadata := () }

def copy (id : Text) : Stored := injectedRow champion id 1 0

theorem donor_champion {rows : List Stored} (h : islandRows rows 0 = [champion]) : pickDonor rows 1 2 = some champion := by
  have hislands : ((List.range 2).filter (· ≠ 1)).flatMap (fun idx => passedRows (islandRows rows idx)) = [champion] := by
    have honly : (List.range 2).filter (· ≠ 1) = [0] := rfl
    rw [honly, List.flatMap_singleton, h]
    rfl
  rw [pickDonor, hislands]
  rfl

/-- The champion's island holds the record; the other has no mark and is below the floor. -/
theorem restart_quiet (fresh : ℕ → Text × ℚ) {m : Marks} {generation : ℤ} (hfirst : (monitor.health m generation 0).stalled = false)
    (hsecond : (monitor.health m generation 1).stalled = true) {rows : List Stored} (hrows : islandRows rows 0 = [champion])
    (hid : (fresh 1).1 ∉ rows.map (·.id)) :
    maybeRestart monitor fresh rows m generation 2 = some {
      rows := rows ++ [injectedRow champion (fresh 1).1 1 (fresh 1).2]
      marks := { m with restarts := m.restarts.insert 1 (m.restartsOn 1 + 1), improvedAt := m.improvedAt.insert 1 generation }
      done := [{
        generation
        islandIdx := 1
        donorIsland := 0
        donorId := champion.id
        injectedId := (fresh 1).1
        islandBest := (monitor.health m generation 1).bestFitness
        globalBest := m.globalBest
        stalledFor := (monitor.health m generation 1).stalledFor }] } := by
  have hsurvey : monitor.survey m generation 2 = [monitor.health m generation 0, monitor.health m generation 1] := rfl
  have hidx : (monitor.health m generation 1).islandIdx = 1 := rfl
  have hnew : (injectedRow champion (fresh 1).1 1 (fresh 1).2).id ∉ rows.map (·.id) := hid
  rw [maybeRestart, if_neg (by decide), hsurvey, restartAll, if_pos hfirst, restartAll, hsecond,
    if_neg Bool.noConfusion, hidx, donor_champion hrows]
  dsimp only
  rw [if_neg hnew]
  rfl

def marks : Marks := ({} : Marks).onCandidateGraded champion

def again : Marks := { marks with restarts := marks.restarts.insert 1 1, improvedAt := marks.improvedAt.insert 1 11 }

theorem quiet_once : (monitor.health marks 11 1).stalled = true := by
  change decide ((0 : ℚ) < 1 * (3 / 4)) = true
  norm_num

theorem quiet_again : (monitor.health again 21 1).stalled = true := by
  change decide ((0 : ℚ) < 1 * (3 / 4)) = true
  norm_num

def fresh (id : Text) (_ : ℕ) : Text × ℚ := (id, 0)

theorem view_alone : islandRows [champion] 0 = [champion] := List.mergeSort_singleton _

theorem view_beside : islandRows [champion, copy "first".toList] 0 = [champion] := List.mergeSort_singleton _

def graded : HealthRun where
  rows := [champion]
  marks
  timeline := [.graded champion]

theorem revived_run : ∃ w, Runs.run (healthStep monitor twoIslands firstOf) {}
    [.rows (.graded champion), .restart 11 (fresh "first".toList)] = some w ∧
    w.rows = [champion, copy "first".toList] ∧ w.marks = again ∧ restartsOf 1 w.timeline = 1 := by
  have hrestart := restart_quiet (fresh "first".toList) (by decide) quiet_once view_alone (by decide)
  have hstep : ∃ w, healthStep monitor twoIslands firstOf graded (.restart 11 (fresh "first".toList)) = some w ∧
      w.rows = [champion, copy "first".toList] ∧ w.marks = again ∧ restartsOf 1 w.timeline = 1 :=
    ⟨_, Option.map_eq_some_iff.mpr ⟨_, hrestart, rfl⟩, rfl, rfl, rfl⟩
  obtain ⟨w, hw, hlater⟩ := hstep
  exact ⟨w, Runs.run_cons.mpr ⟨graded, rfl, Runs.run_cons.mpr ⟨w, hw, rfl⟩⟩, hlater⟩

theorem restarted_at_the_top : ¬ ∀ (M : IslandHealthMonitor) (cfg : MigrationConfig) (σ : Type) (g : Generator σ)
    (as : List (HealthEvent σ)) (w : HealthRun) (generation : ℤ) (fresh : ℕ → Text × ℚ) (s : Restarting),
    Runs.run (healthStep M cfg g) {} as = some w → maybeRestart M fresh w.rows w.marks generation cfg.numIslands = some s →
      ∀ r ∈ s.done, StoredBelow M w.rows r := by
  intro h
  obtain ⟨w, hrun, hrows, hmarks, -⟩ := revived_run
  have hrestart := restart_quiet (fresh "second".toList) (by decide) quiet_again view_beside (by decide)
  rw [← hrows, ← hmarks] at hrestart
  obtain ⟨best, hbest, -, -, hbelow⟩ := h monitor twoIslands Unit firstOf _ w 21 _ _ hrun hrestart _ List.mem_cons_self
  rw [hrows] at hbest hbelow
  have hone : best.fitness = 1 := by
    rcases List.mem_cons.mp hbest with rfl | hbest
    · rfl
    · rw [List.mem_singleton.mp hbest]
      rfl
  have hlt := hbelow (copy "first".toList) (List.mem_cons_of_mem _ List.mem_cons_self) rfl rfl
  have hcopy : (copy "first".toList).fitness = 1 := rfl
  have hfloor : monitor.relativeFloor = 3 / 4 := rfl
  rw [hone, hcopy, hfloor] at hlt
  norm_num at hlt

theorem restart_due : ∃ w s, Runs.run (healthStep monitor twoIslands firstOf) {}
      [.rows (.graded champion), .restart 11 (fresh "first".toList)] = some w ∧ restartsOf 1 w.timeline = 1 ∧
    maybeRestart monitor (fresh "second".toList) w.rows w.marks 21 2 = some s ∧ s.done ≠ [] ∧
    SoundRestarts monitor w.timeline ∧ ∃ copies, s.rows = w.rows ++ copies ∧ copies.map (·.id) = s.done.map (·.injectedId) := by
  obtain ⟨w, hrun, hrows, hmarks, hone⟩ := revived_run
  have hrestart := restart_quiet (fresh "second".toList) (by decide) quiet_again view_beside (by decide)
  rw [← hrows, ← hmarks] at hrestart
  have hsound := restarts_sound monitor twoIslands firstOf _ w hrun
  exact ⟨w, _, hrun, hone, hrestart, List.cons_ne_nil _ _, hsound.1, hsound.2 21 _ _ hrestart⟩

end Champion

end EvoHarness.Evoplus
