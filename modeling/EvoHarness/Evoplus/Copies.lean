import EvoHarness.Core.IslandMigration
import EvoHarness.Core.LineageVeto

/-! The rows of a run: graded candidates, copies of them on other islands, and migration. -/
namespace EvoHarness.Evoplus
open PyText Core.Population

abbrev Stored := Row (Option Text) Unit

def stateId (c : Stored) : Text := c.seedCopyOf.getD c.id

/-- One row of `seed_all_islands`, on another island than the seed's. -/
def seedCopy (seed : Stored) (id : Text) (islandIdx : ℕ) (timestamp : ℚ) : Stored where
  id
  generation := 0
  islandIdx
  report := seed.report
  timestamp
  quarantined := seed.quarantined
  seedCopyOf := some seed.id
  islandReseedFrom := seed.islandReseedFrom
  repairAttempted := seed.repairAttempted
  migrationHistory := seed.migrationHistory
  columns := seed.columns
  metadata := ()

def injectedRow (donor : Stored) (id : Text) (islandIdx : ℕ) (timestamp : ℚ) : Stored :=
  { donor with toCandidate := injected donor.toCandidate id islandIdx timestamp }

inductive RowEvent (σ : Type) where
  | graded (c : Stored)
  | seedCopy (seed id : Text) (islandIdx : ℕ) (timestamp : ℚ)
  | inject (donor id : Text) (islandIdx : ℕ) (timestamp : ℚ)
  | migrate (generation : ℤ) (s : σ)

section
variable {σ : Type} (cfg : MigrationConfig) (g : Generator σ)

def rowOf (rows : List Stored) (id : Text) : Option Stored := rows.find? (·.id = id)

/-- A new row has a new id. The seed that is copied has passed and is no copy itself. -/
def rowStep (rows : List Stored) : RowEvent σ → Option (List Stored)
  | .graded c =>
    if c.id ∉ rows.map (·.id) ∧ c.id ≠ [] ∧ c.seedCopyOf = none then some (rows ++ [c]) else none
  | .seedCopy seed id islandIdx timestamp =>
    match rowOf rows seed with
    | some r =>
      if r.passed = true ∧ r.seedCopyOf = none ∧ id ∉ rows.map (·.id) then
        some (rows ++ [seedCopy r id islandIdx timestamp])
      else none
    | none => none
  | .inject donor id islandIdx timestamp =>
    match rowOf rows donor with
    | some r =>
      if r.passed = true ∧ id ∉ rows.map (·.id) then some (rows ++ [injectedRow r id islandIdx timestamp]) else none
    | none => none
  | .migrate generation s => some (maybeMigrate cfg g generation s rows).2

end

/-- Ids are distinct, and a copy names a row that is no copy and has its signature. -/
structure Linked (rows : List Stored) : Prop where
  distinct : (rows.map (·.id)).Nodup
  origin : ∀ r ∈ rows, ∀ s, r.seedCopyOf = some s → ∃ o ∈ rows, o.id = s ∧ o.seedCopyOf = none ∧ o.columns = r.columns

variable {σ : Type} {cfg : MigrationConfig} {g : Generator σ} {rows rows' : List Stored}

theorem rowOf_some {id : Text} {r : Stored} (h : rowOf rows id = some r) : r ∈ rows ∧ r.id = id :=
  ⟨List.mem_of_find?_eq_some h, by simpa using List.find?_some h⟩

theorem linked_nil : Linked [] := ⟨List.nodup_nil, fun _ h => nomatch h⟩

theorem Linked.snoc (h : Linked rows) {c : Stored} (hid : c.id ∉ rows.map (·.id))
    (horigin : ∀ s, c.seedCopyOf = some s → ∃ o ∈ rows, o.id = s ∧ o.seedCopyOf = none ∧ o.columns = c.columns) :
    Linked (rows ++ [c]) := by
  constructor
  · rw [List.map_append, List.map_singleton, List.nodup_append]
    refine ⟨h.distinct, List.nodup_singleton _, fun a ha b hb hab => hid ?_⟩
    rw [← List.mem_singleton.mp hb, ← hab]
    exact ha
  · intro r hr s hs
    have hfound : ∃ o ∈ rows, o.id = s ∧ o.seedCopyOf = none ∧ o.columns = r.columns := by
      rcases List.mem_append.mp hr with hr | hr
      · exact h.origin r hr s hs
      · obtain rfl := List.mem_singleton.mp hr
        exact horigin s hs
    obtain ⟨o, ho, hrest⟩ := hfound
    exact ⟨o, List.mem_append_left _ ho, hrest⟩

def SameRow (r r' : Stored) : Prop := r'.id = r.id ∧ r'.seedCopyOf = r.seedCopyOf ∧ r'.columns = r.columns ∧
  r'.report = r.report ∧ r'.quarantined = r.quarantined

theorem SameRow.refl (r : Stored) : SameRow r r := ⟨rfl, rfl, rfl, rfl, rfl⟩

theorem maybeMigrate_cases (hdistinct : (rows.map (·.id)).Nodup) (generation : ℤ) (s : σ) :
    (maybeMigrate cfg g generation s rows).2 = rows ∨ ∃ idxs moves, Selected cfg rows idxs moves ∧
      (maybeMigrate cfg g generation s rows).2 = rows.map (settled generation moves) := by
  unfold maybeMigrate
  split
  · exact .inl rfl
  · rename_i hislands
    repeat' split
    · exact .inl rfl
    · exact .inl rfl
    · exact .inl rfl
    · have hselected : Selected cfg rows (List.range cfg.numIslands)
          (selectMoves cfg g rows (List.range cfg.numIslands) s).1 :=
        selectMoves_selected hdistinct (by omega) List.nodup_range s
      exact .inr ⟨_, _, hselected, foldl_write hselected.nodup (fun m hm => (hselected.drawn m hm).2.row.2.1)
        fun m hm r hr hid => (hselected.cand_eq hdistinct hm hr hid.symm).symm⟩

theorem migrated_same (hdistinct : (rows.map (·.id)).Nodup) (generation : ℤ) (s : σ) :
    List.Forall₂ SameRow rows (maybeMigrate cfg g generation s rows).2 := by
  rcases maybeMigrate_cases hdistinct generation s with hstill | ⟨idxs, moves, hselected, hsettled⟩
  · rw [hstill]
    exact List.forall₂_same.mpr fun r _ => SameRow.refl r
  · rw [hsettled, List.forall₂_map_right_iff, List.forall₂_same]
    intro r hr
    rcases hselected.moved hdistinct hr with hr' | hmoved
    · rw [hr']
      exact SameRow.refl r
    · obtain ⟨target, -, -, hr'⟩ := hmoved.exists_target
      rw [hr']
      exact ⟨rfl, rfl, rfl, rfl, rfl⟩

theorem exists_of_forall₂ {R : Stored → Stored → Prop} (h : List.Forall₂ R rows rows') :
    (∀ r ∈ rows, ∃ r' ∈ rows', R r r') ∧ ∀ r' ∈ rows', ∃ r ∈ rows, R r r' := by
  induction h with
  | nil => exact ⟨fun _ h => (nomatch h), fun _ h => (nomatch h)⟩
  | cons hrel _ ih =>
    constructor
    · intro r hr
      rcases List.mem_cons.mp hr with rfl | hr
      · exact ⟨_, List.mem_cons_self, hrel⟩
      · obtain ⟨r', hr', hrel'⟩ := ih.1 r hr
        exact ⟨r', List.mem_cons_of_mem _ hr', hrel'⟩
    · intro r' hr'
      rcases List.mem_cons.mp hr' with rfl | hr'
      · exact ⟨_, List.mem_cons_self, hrel⟩
      · obtain ⟨r, hr, hrel'⟩ := ih.2 r' hr'
        exact ⟨r, List.mem_cons_of_mem _ hr, hrel'⟩

theorem ids_of_same (h : List.Forall₂ SameRow rows rows') : rows'.map (·.id) = rows.map (·.id) := by
  induction h with
  | nil => rfl
  | cons hrel _ ih => rw [List.map_cons, List.map_cons, ih, hrel.1]

theorem Linked.same (h : Linked rows) (hsame : List.Forall₂ SameRow rows rows') : Linked rows' := by
  constructor
  · rw [ids_of_same hsame]
    exact h.distinct
  · intro r' hr' s hs
    obtain ⟨r, hr, -, hcopy, hcolumns, -⟩ := (exists_of_forall₂ hsame).2 r' hr'
    obtain ⟨o, ho, hid, hnone, hsig⟩ := h.origin r hr s (hcopy ▸ hs)
    obtain ⟨o', ho', hid', hcopy', hcolumns', -⟩ := (exists_of_forall₂ hsame).1 o ho
    exact ⟨o', ho', hid'.trans hid, hcopy'.trans hnone, (hcolumns'.trans hsig).trans hcolumns.symm⟩

theorem Linked.step {e : RowEvent σ} (h : Linked rows) (hstep : rowStep cfg g rows e = some rows') : Linked rows' := by
  cases e with
  | graded c =>
    rw [rowStep] at hstep
    split at hstep
    · next hnew =>
      cases hstep
      exact h.snoc hnew.1 fun s hs => nomatch hnew.2.2.symm.trans hs
    · exact nomatch hstep
  | seedCopy seed id islandIdx timestamp =>
    rw [rowStep] at hstep
    split at hstep
    · next r hr =>
      split at hstep
      · next hnew =>
        cases hstep
        refine h.snoc hnew.2.2 fun s hs => ⟨r, (rowOf_some hr).1, Option.some.inj hs, hnew.2.1, rfl⟩
      · exact nomatch hstep
    · exact nomatch hstep
  | inject donor id islandIdx timestamp =>
    rw [rowStep] at hstep
    split at hstep
    · next r hr =>
      split at hstep
      · next hnew =>
        cases hstep
        refine h.snoc hnew.2 fun s hs => ?_
        have hs : r.seedCopyOf.or (some r.id) = some s := hs
        cases hcopy : r.seedCopyOf with
        | none =>
          rw [hcopy] at hs
          exact ⟨r, (rowOf_some hr).1, Option.some.inj hs, hcopy, rfl⟩
        | some t =>
          rw [hcopy] at hs
          cases hs
          exact h.origin r (rowOf_some hr).1 _ hcopy
      · exact nomatch hstep
    · exact nomatch hstep
  | migrate generation s =>
    cases hstep
    exact h.same (migrated_same h.distinct generation s)

theorem Linked.columns_eq (h : Linked rows) {a b : Stored} (ha : a ∈ rows) (hb : b ∈ rows) (hstate : stateId a = stateId b) :
    a.columns = b.columns := by
  have horigin : ∀ r ∈ rows, ∃ o ∈ rows, o.id = stateId r ∧ o.columns = r.columns := by
    intro r hr
    unfold stateId
    cases hcopy : r.seedCopyOf with
    | none => exact ⟨r, hr, rfl, rfl⟩
    | some s =>
      obtain ⟨o, ho, hid, -, hcolumns⟩ := h.origin r hr s hcopy
      exact ⟨o, ho, hid, hcolumns⟩
  obtain ⟨o, ho, hid, hcolumns⟩ := horigin a ha
  obtain ⟨o', ho', hid', hcolumns'⟩ := horigin b hb
  have hsame : o = o' := List.inj_on_of_nodup_map h.distinct ho ho' (hid.trans (hstate.trans hid'.symm))
  rw [← hcolumns, ← hcolumns', hsame]

end EvoHarness.Evoplus
