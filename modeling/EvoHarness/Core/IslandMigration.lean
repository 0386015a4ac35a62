import EvoHarness.Core.Selection

/-! Migration between islands: what one event draws from the views, and what it writes. -/
namespace EvoHarness.Core.Population
open PyText

structure MigrationEntry where
  generation : ℤ
  source : ℕ
  target : ℕ
  deriving DecidableEq

/-- A stored candidate. `columns` and `metadata` are the columns and the metadata keys nothing here reads. -/
structure Row (α β : Type) extends Candidate where
  migrationHistory : Option (List MigrationEntry) := none
  columns : α
  metadata : β

structure Rows (α β : Type) where
  rows : List (Row α β)
  distinct : (rows.map (·.id)).Nodup

structure MigrationConfig where
  numIslands : ℕ
  migrationInterval : ℤ
  migrationRate : ℚ
  share : ℕ → ℕ
  islandElitism : Bool := true

/-- `choice s n k` is `rng.choice(n, size=k, replace=False)`, `pick s xs` is `rng.choice(xs)`. -/
structure Generator (σ : Type) where
  choice : σ → ℕ → ℕ → List ℕ × σ
  pick : σ → List ℕ → ℕ × σ
  nodup_choice : ∀ s n k, k ≤ n → (choice s n k).1.Nodup
  length_choice : ∀ s n k, k ≤ n → (choice s n k).1.length = k
  choice_lt : ∀ s n k, k ≤ n → ∀ i ∈ (choice s n k).1, i < n
  pick_mem : ∀ s xs, xs ≠ [] → (pick s xs).1 ∈ xs

section
variable {α β σ : Type} (cfg : MigrationConfig)

def islandRows (rows : List (Row α β)) (idx : ℕ) : List (Row α β) :=
  (rows.filter fun c => c.islandIdx == idx && c.report.isSome).mergeSort fun a b =>
    decide (a.generation < b.generation ∨ a.generation = b.generation ∧ a.timestamp ≤ b.timestamp)

def passedRows (view : List (Row α β)) : List (Row α β) := view.filter (·.passed)

def bestRow (view : List (Row α β)) : Option (Row α β) := maxBy (fun a b => a.fitness ≤ b.fitness) (passedRows view)

def eligible (view : List (Row α β)) : List (Row α β) :=
  let young := (passedRows view).filter (0 < ·.generation)
  match bestRow view with
  | some best => if cfg.islandElitism then young.filter (·.id ≠ best.id) else young
  | none => young

def nMigrate (view : List (Row α β)) : ℕ := min (max 1 (cfg.share view.length)) (eligible cfg view).length

structure Move (α β : Type) where
  cand : Row α β
  source : ℕ
  target : ℕ

def targets (idx : ℕ) : List ℕ := (List.range cfg.numIslands).filter (· ≠ idx)

variable (g : Generator σ)

def drawMoves (idx : ℕ) (pool : List (Row α β)) : List ℕ → σ → List (Move α β) × σ
  | [], s => ([], s)
  | ci :: chosen, s =>
    match pool[ci]? with
    | none => drawMoves idx pool chosen s
    | some cand =>
      let drawn := g.pick s (targets cfg idx)
      let rest := drawMoves idx pool chosen drawn.2
      ({ cand, source := idx, target := drawn.1 } :: rest.1, rest.2)

/-- The moves of the islands, all selected from the population before any is applied. -/
def selectMoves (rows : List (Row α β)) : List ℕ → σ → List (Move α β) × σ
  | [], s => ([], s)
  | idx :: idxs, s =>
    let pool := eligible cfg (islandRows rows idx)
    if pool = [] then selectMoves rows idxs s
    else
      let chosen := g.choice s pool.length (nMigrate cfg (islandRows rows idx))
      let moves := drawMoves cfg g idx pool chosen.1 chosen.2
      let rest := selectMoves rows idxs moves.2
      (moves.1 ++ rest.1, rest.2)

/-- `UPDATE candidates SET island_idx = ?, metadata = ? WHERE id = ?`, with the metadata of the view's object. -/
def Move.write (generation : ℤ) (rows : List (Row α β)) (m : Move α β) : List (Row α β) :=
  rows.map fun r =>
    if r.id = m.cand.id then
      { r with
        islandIdx := m.target
        quarantined := m.cand.quarantined
        seedCopyOf := m.cand.seedCopyOf
        islandReseedFrom := m.cand.islandReseedFrom
        repairAttempted := m.cand.repairAttempted
        migrationHistory := some (m.cand.migrationHistory.getD [] ++ [⟨generation, m.source, m.target⟩])
        metadata := m.cand.metadata }
    else r

/-- `maybe_migrate`: how many moved (`none` for an interval of zero, which raises), and what is stored then. -/
def maybeMigrate (generation : ℤ) (s : σ) (rows : List (Row α β)) : Option ℕ × List (Row α β) :=
  if cfg.migrationRate ≤ 0 ∨ cfg.numIslands < 2 then (some 0, rows)
  else if generation = 0 then (some 0, rows)
  else if cfg.migrationInterval = 0 then (none, rows)
  else if generation % cfg.migrationInterval ≠ 0 then (some 0, rows)
  else
    let moves := (selectMoves cfg g rows (List.range cfg.numIslands) s).1
    (some moves.length, moves.foldl (Move.write generation) rows)

structure Moved (generation : ℤ) (before : List (Row α β)) (r r' : Row α β) : Prop where
  exists_target : ∃ target, target ≠ r.islandIdx ∧ target < cfg.numIslands ∧
    r' = { r with
      islandIdx := target
      migrationHistory := some (r.migrationHistory.getD [] ++ [⟨generation, r.islandIdx, target⟩]) }
  young : 0 < r.generation
  passed : r.passed = true
  not_best : cfg.islandElitism = true → ∀ best, bestRow (islandRows before r.islandIdx) = some best → r.id ≠ best.id

def OnlyMoves (generation : ℤ) (before after : List (Row α β)) : Prop :=
  List.Forall₂ (fun r r' => r' = r ∨ Moved cfg generation before r r') before after

def HasPassed (rows : List (Row α β)) (idx : ℕ) : Prop := ∃ r ∈ rows, r.islandIdx = idx ∧ r.passed = true

/-- An island an event may empty: no elitism, no passed seed, and no more passed candidates than the share that moves. -/
def Exposed (rows : List (Row α β)) (idx : ℕ) : Prop :=
  cfg.islandElitism = false ∧ (∀ r ∈ rows, r.islandIdx = idx → r.passed = true → 0 < r.generation) ∧
    (passedRows (islandRows rows idx)).length ≤ max 1 (cfg.share (islandRows rows idx).length)

end

variable {α β σ : Type} {cfg : MigrationConfig} {g : Generator σ} {rows : List (Row α β)} {idx : ℕ} {r : Row α β}
  {generation : ℤ}

theorem mem_islandRows : r ∈ islandRows rows idx ↔ r ∈ rows ∧ r.islandIdx = idx ∧ r.report.isSome = true := by
  unfold islandRows
  rw [List.mem_mergeSort, List.mem_filter, Bool.and_eq_true, beq_iff_eq]

theorem isSome_of_passed (h : r.passed = true) : r.report.isSome = true := by
  unfold Candidate.passed at h
  cases hreport : r.report with
  | none => simp [hreport] at h
  | some report => rfl

theorem mem_passedRows : r ∈ passedRows (islandRows rows idx) ↔ r ∈ rows ∧ r.islandIdx = idx ∧ r.passed = true := by
  rw [passedRows, List.mem_filter, mem_islandRows]
  constructor
  · intro h
    exact ⟨h.1.1, h.1.2.1, h.2⟩
  · intro h
    exact ⟨⟨h.1, h.2.1, isSome_of_passed h.2.2⟩, h.2.2⟩

theorem nodup_islandRows (h : (rows.map (·.id)).Nodup) : ((islandRows rows idx).map (·.id)).Nodup := by
  have hperm := (List.mergeSort_perm (rows.filter fun c => c.islandIdx == idx && c.report.isSome) fun a b =>
    decide (a.generation < b.generation ∨ a.generation = b.generation ∧ a.timestamp ≤ b.timestamp)).map (·.id)
  rw [islandRows, hperm.nodup_iff]
  exact h.sublist (List.filter_sublist.map _)

theorem eligible_sublist (view : List (Row α β)) : (eligible cfg view).Sublist (passedRows view) := by
  unfold eligible
  cases bestRow view with
  | none => exact List.filter_sublist
  | some best =>
    simp only
    split
    · exact List.filter_sublist.trans List.filter_sublist
    · exact List.filter_sublist

theorem young_of_eligible {view : List (Row α β)} (h : r ∈ eligible cfg view) : 0 < r.generation := by
  unfold eligible at h
  cases hbest : bestRow view with
  | none =>
    simp only [hbest, List.mem_filter, decide_eq_true_eq] at h
    exact h.2
  | some best =>
    simp only [hbest] at h
    split at h
    · simp only [List.mem_filter, decide_eq_true_eq] at h
      exact h.1.2
    · simp only [List.mem_filter, decide_eq_true_eq] at h
      exact h.2

theorem not_best_of_eligible {view : List (Row α β)} (h : r ∈ eligible cfg view) (helite : cfg.islandElitism = true)
    {best : Row α β} (hbest : bestRow view = some best) : r.id ≠ best.id := by
  simp only [eligible, hbest, helite, if_true, List.mem_filter, decide_eq_true_eq] at h
  exact h.2

theorem nMigrate_le (view : List (Row α β)) : nMigrate cfg view ≤ (eligible cfg view).length := Nat.min_le_right _ _

theorem mem_targets {target : ℕ} : target ∈ targets cfg idx ↔ target < cfg.numIslands ∧ target ≠ idx := by
  rw [targets, List.mem_filter, List.mem_range, decide_eq_true_eq]

structure Move.Drawn (cfg : MigrationConfig) (rows : List (Row α β)) (m : Move α β) : Prop where
  cand_mem : m.cand ∈ eligible cfg (islandRows rows m.source)
  target_mem : m.target ∈ targets cfg m.source

theorem drawMoves_drawn (htargets : targets cfg idx ≠ []) (chosen : List ℕ) (s : σ) :
    ∀ m ∈ (drawMoves cfg g idx (eligible cfg (islandRows rows idx)) chosen s).1, m.source = idx ∧ m.Drawn cfg rows := by
  induction chosen generalizing s with
  | nil =>
    intro m hm
    cases hm
  | cons ci chosen ih =>
    unfold drawMoves
    cases hci : (eligible cfg (islandRows rows idx))[ci]? with
    | none => exact ih s
    | some cand =>
      intro m hm
      cases List.mem_cons.mp hm with
      | inl h =>
        rw [h]
        exact ⟨rfl, List.mem_of_getElem? hci, g.pick_mem s _ htargets⟩
      | inr h => exact ih _ m h

theorem drawMoves_cands (idx : ℕ) (pool : List (Row α β)) (chosen : List ℕ) (s : σ) :
    (drawMoves cfg g idx pool chosen s).1.map (·.cand) = chosen.filterMap (pool[·]?) := by
  induction chosen generalizing s with
  | nil => rfl
  | cons ci chosen ih =>
    unfold drawMoves
    cases hci : pool[ci]? with
    | none => simpa [hci] using ih s
    | some cand => simpa [hci] using ih _

theorem nodup_filterMap_get {pool : List (Row α β)} (hpool : (pool.map (·.id)).Nodup) {chosen : List ℕ}
    (h : chosen.Nodup) : ((chosen.filterMap (pool[·]?)).map (·.id)).Nodup := by
  rw [List.map_filterMap]
  apply List.Nodup.filterMap _ h
  intro i j id hi hj
  rw [Option.mem_def, ← List.getElem?_map] at hi hj
  have hlt := (List.getElem?_eq_some_iff.mp hi).1
  exact (List.getElem?_inj hlt hpool).mp (hi.trans hj.symm)

theorem length_filterMap_get {pool : List (Row α β)} {chosen : List ℕ} (h : ∀ i ∈ chosen, i < pool.length) :
    (chosen.filterMap (pool[·]?)).length = chosen.length := by
  induction chosen with
  | nil => rfl
  | cons i chosen ih =>
    rw [List.forall_mem_cons] at h
    rw [List.filterMap_cons, List.getElem?_eq_getElem h.1, List.length_cons, List.length_cons, ih h.2]

theorem targets_ne_nil (h : 2 ≤ cfg.numIslands) (idx : ℕ) : targets cfg idx ≠ [] := by
  apply List.ne_nil_of_mem (a := if idx = 0 then 1 else 0)
  rw [mem_targets]
  split <;> omega

structure Selected (cfg : MigrationConfig) (rows : List (Row α β)) (idxs : List ℕ) (moves : List (Move α β)) :
    Prop where
  drawn : ∀ m ∈ moves, m.source ∈ idxs ∧ m.Drawn cfg rows
  nodup : (moves.map (·.cand.id)).Nodup
  length_le : ∀ idx, ((moves.filter (·.source = idx)).length ≤ nMigrate cfg (islandRows rows idx))

theorem Move.Drawn.row {m : Move α β} (h : m.Drawn cfg rows) :
    m.cand ∈ rows ∧ m.cand.islandIdx = m.source ∧ m.cand.passed = true :=
  mem_passedRows.mp ((eligible_sublist _).subset h.cand_mem)

theorem selected_one (hrows : (rows.map (·.id)).Nodup) (htargets : targets cfg idx ≠ []) {chosen : List ℕ}
    (hnodup : chosen.Nodup) (hlt : ∀ i ∈ chosen, i < (eligible cfg (islandRows rows idx)).length)
    (hlength : chosen.length = nMigrate cfg (islandRows rows idx)) (s : σ) :
    Selected cfg rows [idx] (drawMoves cfg g idx (eligible cfg (islandRows rows idx)) chosen s).1 := by
  have hcands : (drawMoves cfg g idx (eligible cfg (islandRows rows idx)) chosen s).1.map (·.cand) = _ :=
    drawMoves_cands idx (eligible cfg (islandRows rows idx)) chosen s
  have hdrawn : ∀ m ∈ (drawMoves cfg g idx (eligible cfg (islandRows rows idx)) chosen s).1, _ :=
    drawMoves_drawn htargets chosen s
  constructor
  · intro m hm
    exact ⟨List.mem_singleton.mpr (hdrawn m hm).1, (hdrawn m hm).2⟩
  · have hids : ((eligible cfg (islandRows rows idx)).map (·.id)).Nodup :=
      (nodup_islandRows hrows).sublist (((eligible_sublist _).trans List.filter_sublist).map _)
    have hnodup := nodup_filterMap_get hids hnodup
    rw [← hcands, List.map_map] at hnodup
    exact hnodup
  · intro other
    by_cases hother : other = idx
    · rw [hother]
      calc
        _ ≤ _ := List.length_filter_le _ _
        _ = _ := by rw [← List.length_map (·.cand), hcands]
        _ = _ := length_filterMap_get hlt
        _ ≤ _ := hlength.le
    · rw [List.filter_eq_nil_iff.mpr]
      · exact Nat.zero_le _
      · intro m hm
        rw [decide_eq_true_eq, (hdrawn m hm).1]
        exact fun h => hother h.symm

theorem Selected.append {idxs : List ℕ} {ms ns : List (Move α β)} (hm : Selected cfg rows [idx] ms)
    (hn : Selected cfg rows idxs ns) (hidx : idx ∉ idxs) (hrows : (rows.map (·.id)).Nodup) :
    Selected cfg rows (idx :: idxs) (ms ++ ns) := by
  constructor
  · intro m h
    cases List.mem_append.mp h with
    | inl h =>
      have hm := hm.drawn m h
      rw [List.mem_singleton] at hm
      exact ⟨List.mem_cons.mpr (.inl hm.1), hm.2⟩
    | inr h =>
      have hn := hn.drawn m h
      exact ⟨List.mem_cons_of_mem _ hn.1, hn.2⟩
  · rw [List.map_append, List.nodup_append]
    refine ⟨hm.nodup, hn.nodup, ?_⟩
    intro a ha b hb hab
    obtain ⟨m, hmem, hma⟩ := List.mem_map.mp ha
    obtain ⟨n, hnmem, hnb⟩ := List.mem_map.mp hb
    have hmd := hm.drawn m hmem
    have hnd := hn.drawn n hnmem
    -- Rows of one id are one row, which stands on one island.
    have hsame : m.cand = n.cand :=
      List.inj_on_of_nodup_map hrows hmd.2.row.1 hnd.2.row.1 (hma.trans (hab.trans hnb.symm))
    have hsource : n.source = idx := by
      rw [← hnd.2.row.2.1, ← hsame, hmd.2.row.2.1]
      exact List.mem_singleton.mp hmd.1
    exact hidx (hsource ▸ hnd.1)
  · intro other
    rw [List.filter_append, List.length_append]
    by_cases hother : other = idx
    · have hnone : ns.filter (·.source = other) = [] := by
        rw [List.filter_eq_nil_iff]
        intro n hnmem
        rw [decide_eq_true_eq, hother]
        exact fun h => hidx (h ▸ (hn.drawn n hnmem).1)
      rw [hnone]
      exact hm.length_le other
    · have hnone : ms.filter (·.source = other) = [] := by
        rw [List.filter_eq_nil_iff]
        intro m hmem
        rw [decide_eq_true_eq, List.mem_singleton.mp (hm.drawn m hmem).1]
        exact fun h => hother h.symm
      rw [hnone, List.length_nil, Nat.zero_add]
      exact hn.length_le other

theorem selectMoves_selected (hrows : (rows.map (·.id)).Nodup) (hislands : 2 ≤ cfg.numIslands) {idxs : List ℕ}
    (hidxs : idxs.Nodup) (s : σ) : Selected cfg rows idxs (selectMoves cfg g rows idxs s).1 := by
  induction idxs generalizing s with
  | nil => exact ⟨by simp [selectMoves], by simp [selectMoves], by simp [selectMoves]⟩
  | cons idx idxs ih =>
    rw [List.nodup_cons] at hidxs
    unfold selectMoves
    by_cases hpool : eligible cfg (islandRows rows idx) = []
    · have hrest := ih hidxs.2 s
      simp only [hpool, if_true]
      exact ⟨fun m hm => ⟨List.mem_cons_of_mem _ (hrest.drawn m hm).1, (hrest.drawn m hm).2⟩, hrest.nodup,
        hrest.length_le⟩
    · have hle : nMigrate cfg (islandRows rows idx) ≤ _ := nMigrate_le (islandRows rows idx)
      simp only [hpool, if_false]
      apply Selected.append _ (ih hidxs.2 _) hidxs.1 hrows
      exact selected_one hrows (targets_ne_nil hislands idx) (g.nodup_choice s _ _ hle) (g.choice_lt s _ _ hle)
        (g.length_choice s _ _ hle) _

def Row.moved (generation : ℤ) (r : Row α β) (target : ℕ) : Row α β :=
  { r with
    islandIdx := target
    migrationHistory := some (r.migrationHistory.getD [] ++ [⟨generation, r.islandIdx, target⟩]) }

def settled (generation : ℤ) (moves : List (Move α β)) (r : Row α β) : Row α β :=
  match moves.find? (·.cand.id = r.id) with
  | some m => r.moved generation m.target
  | none => r

theorem write_eq {m : Move α β} (hsource : m.cand.islandIdx = m.source)
    (hread : ∀ r ∈ rows, r.id = m.cand.id → r = m.cand) :
    Move.write generation rows m =
      rows.map fun r => if r.id = m.cand.id then r.moved generation m.target else r := by
  apply List.map_congr_left
  intro r hr
  by_cases hid : r.id = m.cand.id
  · rw [if_pos hid, if_pos hid, hread r hr hid, Row.moved, hsource]
  · rw [if_neg hid, if_neg hid]

theorem foldl_write {moves : List (Move α β)} (hnodup : (moves.map (·.cand.id)).Nodup)
    (hsource : ∀ m ∈ moves, m.cand.islandIdx = m.source)
    (hread : ∀ m ∈ moves, ∀ r ∈ rows, r.id = m.cand.id → r = m.cand) :
    moves.foldl (Move.write generation) rows = rows.map (settled generation moves) := by
  induction moves generalizing rows with
  | nil =>
    rw [List.foldl_nil, ← List.map_id rows, List.map_map]
    rfl
  | cons m moves ih =>
    rw [List.map_cons, List.nodup_cons] at hnodup
    rw [List.forall_mem_cons] at hsource hread
    rw [List.foldl_cons, write_eq hsource.1 hread.1]
    have hstale : ∀ n ∈ moves, ∀ r ∈ rows.map fun r => if r.id = m.cand.id then r.moved generation m.target else r,
        r.id = n.cand.id → r = n.cand := by
      intro n hn r hr hid
      obtain ⟨r₀, hr₀, hrr⟩ := List.mem_map.mp hr
      by_cases hm : r₀.id = m.cand.id
      · rw [if_pos hm] at hrr
        have hsame : m.cand.id = n.cand.id := by rw [← hm, ← hid, ← hrr]; rfl
        exact (hnodup.1 (hsame ▸ List.mem_map_of_mem hn)).elim
      · rw [if_neg hm] at hrr
        rw [← hrr] at hid ⊢
        exact hread.2 n hn r₀ hr₀ hid
    rw [ih hnodup.2 hsource.2 hstale, List.map_map]
    apply List.map_congr_left
    intro r hr
    by_cases hm : r.id = m.cand.id
    · have hnone : moves.find? (·.cand.id = (r.moved generation m.target).id) = none := by
        rw [List.find?_eq_none]
        intro n hn hid
        rw [decide_eq_true_eq] at hid
        exact hnodup.1 (hm ▸ (hid : n.cand.id = r.id) ▸ List.mem_map_of_mem hn)
      simp only [Function.comp_apply, if_pos hm, settled, hnone]
      rw [List.find?_cons_of_pos (by simp [hm])]
    · simp only [Function.comp_apply, if_neg hm, settled]
      rw [List.find?_cons_of_neg (by simpa using fun h => hm h.symm)]

variable {moves : List (Move α β)} {idxs : List ℕ}

theorem Selected.cand_eq (h : Selected cfg rows idxs moves) (hrows : (rows.map (·.id)).Nodup) {m : Move α β}
    (hm : m ∈ moves) (hr : r ∈ rows) (hid : m.cand.id = r.id) : m.cand = r :=
  List.inj_on_of_nodup_map hrows (h.drawn m hm).2.row.1 hr hid

theorem Selected.eligible_of_moved (h : Selected cfg rows idxs moves) (hrows : (rows.map (·.id)).Nodup)
    {m : Move α β} (hm : m ∈ moves) (hr : r ∈ rows) (hid : m.cand.id = r.id) :
    m.source = r.islandIdx ∧ r ∈ eligible cfg (islandRows rows r.islandIdx) := by
  have hcand := h.cand_eq hrows hm hr hid
  have hsource : m.source = r.islandIdx := by rw [← hcand, (h.drawn m hm).2.row.2.1]
  have hmem := (h.drawn m hm).2.cand_mem
  rw [hsource, hcand] at hmem
  exact ⟨hsource, hmem⟩

theorem Selected.exists_unmoved (h : Selected cfg rows idxs moves) (hrows : (rows.map (·.id)).Nodup)
    (hexposed : ¬ Exposed cfg rows idx) (hpassed : HasPassed rows idx) :
    ∃ r ∈ rows, r.islandIdx = idx ∧ r.passed = true ∧ ∀ m ∈ moves, m.cand.id ≠ r.id := by
  obtain ⟨p, hp, hidx, hpass⟩ := hpassed
  have hne : passedRows (islandRows rows idx) ≠ [] := List.ne_nil_of_mem (mem_passedRows.mpr ⟨hp, hidx, hpass⟩)
  by_cases helite : cfg.islandElitism = true
  · obtain ⟨best, hbest⟩ := maxBy_isSome (fun a b : Row α β => a.fitness ≤ b.fitness) hne
    have hrow := mem_passedRows.mp (maxBy_mem _ hbest)
    refine ⟨best, hrow.1, hrow.2.1, hrow.2.2, ?_⟩
    intro m hm hid
    have heligible := (h.eligible_of_moved hrows hm hrow.1 hid).2
    rw [hrow.2.1] at heligible
    exact not_best_of_eligible heligible helite hbest rfl
  · by_cases hseed : ∀ r ∈ rows, r.islandIdx = idx → r.passed = true → 0 < r.generation
    · by_contra hall
      push Not at hall
      -- Every passed candidate moves, so the passed ids are among those of the island's moves.
      have hsub : (passedRows (islandRows rows idx)).map (·.id) ⊆
          (moves.filter (·.source = idx)).map (·.cand.id) := by
        intro id hid
        obtain ⟨r, hr, hrid⟩ := List.mem_map.mp hid
        have hrow := mem_passedRows.mp hr
        obtain ⟨m, hm, hmid⟩ := hall r hrow.1 hrow.2.1 hrow.2.2
        have hsource := (h.eligible_of_moved hrows hm hrow.1 hmid).1
        rw [← hrid, ← hmid]
        apply List.mem_map_of_mem
        rw [List.mem_filter, decide_eq_true_eq, hsource]
        exact ⟨hm, hrow.2.1⟩
      have hnodup := (nodup_islandRows hrows : ((islandRows rows idx).map (·.id)).Nodup).sublist (List.filter_sublist.map _ :
        ((passedRows (islandRows rows idx)).map (·.id)).Sublist _)
      have hcount := (List.subperm_of_subset hnodup hsub).length_le
      rw [List.length_map, List.length_map] at hcount
      apply hexposed
      refine ⟨by simpa using helite, hseed, ?_⟩
      calc
        _ ≤ _ := hcount
        _ ≤ _ := h.length_le idx
        _ ≤ _ := Nat.min_le_left _ _
    · push Not at hseed
      obtain ⟨r, hr, hidx, hpass, hzero⟩ := hseed
      refine ⟨r, hr, hidx, hpass, ?_⟩
      intro m hm hid
      have hyoung := young_of_eligible (h.eligible_of_moved hrows hm hr hid).2
      omega

theorem settled_of_unmoved (h : ∀ m ∈ moves, m.cand.id ≠ r.id) : settled generation moves r = r := by
  unfold settled
  rw [List.find?_eq_none.mpr]
  intro m hm
  rw [decide_eq_true_eq]
  exact h m hm

theorem Selected.moved (h : Selected cfg rows idxs moves) (hrows : (rows.map (·.id)).Nodup) (hr : r ∈ rows) :
    settled generation moves r = r ∨ Moved cfg generation rows r (settled generation moves r) := by
  unfold settled
  cases hfind : moves.find? (·.cand.id = r.id) with
  | none => exact .inl rfl
  | some m =>
    have hm := List.mem_of_find?_eq_some hfind
    have hid : m.cand.id = r.id := by simpa using List.find?_some hfind
    obtain ⟨hsource, heligible⟩ := h.eligible_of_moved hrows hm hr hid
    have htarget := mem_targets.mp (h.drawn m hm).2.target_mem
    right
    constructor
    · refine ⟨m.target, ?_, htarget.1, rfl⟩
      rw [← hsource]
      exact htarget.2
    · exact young_of_eligible heligible
    · exact (mem_passedRows.mp ((eligible_sublist _).subset heligible)).2.2
    · intro helite best hbest
      exact not_best_of_eligible heligible helite hbest

theorem onlyMoves_refl (rows : List (Row α β)) : OnlyMoves cfg generation rows rows :=
  List.forall₂_same.mpr fun _ _ => .inl rfl

/-- An event moves candidates and does nothing else to them, and empties no island that is not exposed. -/
theorem migration_only_moves (cfg : MigrationConfig) (g : Generator σ) (generation : ℤ) (s : σ) (pop : Rows α β) :
    OnlyMoves cfg generation pop.rows (maybeMigrate cfg g generation s pop.rows).2 ∧
      ∀ idx, ¬ Exposed cfg pop.rows idx → HasPassed pop.rows idx →
        HasPassed (maybeMigrate cfg g generation s pop.rows).2 idx := by
  have hstill : OnlyMoves cfg generation pop.rows pop.rows ∧
      ∀ idx, ¬ Exposed cfg pop.rows idx → HasPassed pop.rows idx → HasPassed pop.rows idx :=
    ⟨onlyMoves_refl _, fun _ _ h => h⟩
  unfold maybeMigrate
  split
  · exact hstill
  · rename_i hislands
    repeat' split
    · exact hstill
    · exact hstill
    · exact hstill
    · have hselected : Selected cfg pop.rows (List.range cfg.numIslands)
          (selectMoves cfg g pop.rows (List.range cfg.numIslands) s).1 :=
        selectMoves_selected pop.distinct (by omega) List.nodup_range s
      simp only
      rw [foldl_write hselected.nodup (fun m hm => (hselected.drawn m hm).2.row.2.1)
        fun m hm r hr hid => (hselected.cand_eq pop.distinct hm hr hid.symm).symm]
      constructor
      · rw [OnlyMoves, List.forall₂_map_right_iff, List.forall₂_same]
        intro r hr
        exact hselected.moved pop.distinct hr
      · intro idx hexposed hpassed
        obtain ⟨r, hr, hidx, hpass, hunmoved⟩ := hselected.exists_unmoved pop.distinct hexposed hpassed
        refine ⟨r, ?_, hidx, hpass⟩
        rw [List.mem_map]
        exact ⟨r, hr, settled_of_unmoved hunmoved⟩

theorem nodup_first (n k : ℕ) (_ : k ≤ n) : (List.range k).Nodup := List.nodup_range

theorem length_first (n k : ℕ) (_ : k ≤ n) : (List.range k).length = k := List.length_range

theorem first_lt (n k : ℕ) (h : k ≤ n) (i : ℕ) (hi : i ∈ List.range k) : i < n := by
  have hik := List.mem_range.mp hi
  omega

theorem headD_mem (xs : List ℕ) (h : xs ≠ []) : xs.headD 0 ∈ xs := by
  cases xs with
  | nil => exact absurd rfl h
  | cons x xs => exact List.mem_cons_self

def firstOf : Generator Unit where
  choice _ _ k := (List.range k, ())
  pick _ xs := (xs.headD 0, ())
  nodup_choice _ := nodup_first
  length_choice _ := length_first
  choice_lt _ := first_lt
  pick_mem _ := headD_mem

def withoutElitism : MigrationConfig where
  numIslands := 2
  migrationInterval := 1
  migrationRate := 1 / 2
  share n := n / 2
  islandElitism := false

def lonely : Row Unit Unit where
  id := ['a']
  generation := 1
  report := some ⟨1, true⟩
  columns := ()
  metadata := ()

theorem lonely_leaves :
    HasPassed [lonely] 0 ∧ ¬ HasPassed (maybeMigrate withoutElitism firstOf 1 () [lonely]).2 0 := by
  constructor
  · exact ⟨lonely, List.mem_singleton_self _, rfl, rfl⟩
  · have hafter : ∀ r ∈ (maybeMigrate withoutElitism firstOf 1 () [lonely]).2, r.islandIdx = 1 := by decide +kernel
    intro h
    obtain ⟨r, hr, hidx, -⟩ := h
    have hone := hafter r hr
    omega

end EvoHarness.Core.Population
