import EvoHarness.Library.PyText
import EvoHarness.Library.Runs

/-! The reference store: the current record in one file, one history row a change in
another. Every file operation is a step of its own, so callers in several processes may
come in between, and a process may die there. -/
namespace EvoHarness.Research
open PyText Runs

structure ScoreNamespace where
  criterionHash : Text
  measurementHash : Text
  evaluatorHash : Text
  universeHash : Text
  nonempty : ∀ t ∈ [criterionHash, measurementHash, evaluatorHash, universeHash], strip t ≠ []
deriving DecidableEq

def ScoreNamespace.fields (n : ScoreNamespace) : List (Text × Text) :=
  [("criterion_hash".toList, n.criterionHash), ("measurement_hash".toList, n.measurementHash),
    ("evaluator_hash".toList, n.evaluatorHash), ("universe_hash".toList, n.universeHash)]

structure ReferenceRecord where
  candidateId : Text
  evidenceId : Text
  scoreNamespace : ScoreNamespace
  fitness : Option ℚ
  policyHash : Text
  assessorHash : Text
  reasons : List Text
  promotedAt : ℚ
  previousCandidateId : Option Text := none
deriving DecidableEq

inductive Fault where
  | referenceConflict (expected found : Option Text)
  /-- The fields that differ, with both values. -/
  | namespaceMismatch (diffs : List (Text × Text × Text))
  | valueError (message : Text)
  | osError
deriving DecidableEq

def ScoreNamespace.requireComparable (n other : ScoreNamespace) : Except Fault Unit :=
  if n = other then .ok ()
  else .error (.namespaceMismatch
    (((n.fields.zip other.fields).filter fun p => p.1.2 ≠ p.2.2).map fun p => (p.1.1, p.1.2, p.2.2)))

/-- The payload of the approving decision: its keys, each with its JSON text. -/
abbrev MigrationDecision := List (Text × Text)

structure HistoryRow where
  record : ReferenceRecord
  migration : Option MigrationDecision := none
deriving DecidableEq

structure Files where
  current : Option ReferenceRecord := none
  history : List HistoryRow := []

inductive Call where
  | promote (record : ReferenceRecord) (expectedCurrent : Option Text)
  | rebase (record : ReferenceRecord) (migrationDecision : MigrationDecision)
deriving DecidableEq

def candidateOf (current : Option ReferenceRecord) : Option Text := current.map (·.candidateId)

/-- What a call does with the record it finds: refuse, or the row it will write, up to its time. -/
def Call.check (current : Option ReferenceRecord) : Call → Except Fault HistoryRow
  | .promote record expected =>
    if candidateOf current ≠ expected then .error (.referenceConflict expected (candidateOf current))
    else
      let row := { record := { record with previousCandidateId := candidateOf current } }
      match current with
      | none => .ok row
      | some r =>
        match r.scoreNamespace.requireComparable record.scoreNamespace with
        | .ok () => .ok row
        | .error e => .error e
  | .rebase record decision =>
    .ok { record := { record with previousCandidateId := candidateOf current }, migration := some decision }

def HistoryRow.stamped (row : HistoryRow) (now : ℚ) : HistoryRow :=
  { row with record := { row.record with
      promotedAt := if row.record.promotedAt = 0 then now else row.record.promotedAt } }

inductive Phase where
  | idle
  | called (c : Call)
  | reading (c : Call)
  | writing (c : Call) (seen : Option ReferenceRecord) (row : HistoryRow)
  | appending (c : Call) (row : HistoryRow)
deriving DecidableEq

structure Raised where
  call : Call
  fault : Fault
  wrote : Bool

/-- `locked` are the store objects a call holds the lock of. `written` are the rows of all
records written so far, and `waiting` the workers whose row is not in the history yet. -/
structure Net (ω κ : Type) where
  files : Files := {}
  phase : ω → Phase := fun _ => .idle
  locked : List κ := []
  written : List HistoryRow := []
  waiting : List ω := []
  raised : List Raised := []

/-- How `append_jsonl` ends: the row is in the file or not, and the call returns or raises. -/
inductive Appended where
  | done
  | lost
  | unsynced

inductive Action where
  | call (c : Call)
  | enter
  | read
  | replace (now : ℚ)
  | failReplace
  | append (how : Appended)
  | die

variable {ω κ : Type}

def Net.raise (net : Net ω κ) (c : Call) (e : Fault) (wrote : Bool) : Net ω κ :=
  { net with raised := ⟨c, e, wrote⟩ :: net.raised }

def Net.appendRow (net : Net ω κ) (row : HistoryRow) : Net ω κ :=
  { net with files := { net.files with history := net.files.history ++ [row] } }

section
variable [DecidableEq ω] [DecidableEq κ]

def Net.goto (net : Net ω κ) (w : ω) (ph : Phase) : Net ω κ :=
  { net with phase := Function.update net.phase w ph }

def Net.leave (net : Net ω κ) (object : ω → κ) (w : ω) : Net ω κ :=
  { net.goto w .idle with locked := net.locked.erase (object w), waiting := net.waiting.erase w }

def needsDecision : Fault := .valueError "rebase requires the approving decision payload".toList

def step (object : ω → κ) (net : Net ω κ) : ω × Action → Option (Net ω κ)
  | (w, .call c) =>
    match net.phase w, c with
    | .idle, .rebase _ [] => some (net.raise c needsDecision false)
    | .idle, _ => some (net.goto w (.called c))
    | _, _ => none
  | (w, .enter) =>
    match net.phase w with
    | .called c =>
      if object w ∈ net.locked then none
      else some { net.goto w (.reading c) with locked := object w :: net.locked }
    | _ => none
  | (w, .read) =>
    match net.phase w with
    | .reading c =>
      match c.check net.files.current with
      | .ok row => some (net.goto w (.writing c net.files.current row))
      | .error e => some ((net.raise c e false).leave object w)
    | _ => none
  | (w, .replace now) =>
    match net.phase w with
    | .writing c _ row =>
      some { net.goto w (.appending c (row.stamped now)) with
        files := { net.files with current := some (row.stamped now).record }
        written := net.written ++ [row.stamped now]
        waiting := net.waiting ++ [w] }
    | _ => none
  | (w, .failReplace) =>
    match net.phase w with
    | .writing c _ _ => some ((net.raise c .osError false).leave object w)
    | _ => none
  | (w, .append how) =>
    match net.phase w with
    | .appending c row =>
      match how with
      | .done => some ((net.appendRow row).leave object w)
      | .lost => some ((net.raise c .osError true).leave object w)
      | .unsynced => some (((net.appendRow row).raise c .osError true).leave object w)
    | _ => none
  | (w, .die) => some (net.leave object w)

end

def Linked : Option Text → List HistoryRow → Prop
  | _, [] => True
  | previous, row :: rest =>
    row.record.previousCandidateId = previous ∧ Linked (some row.record.candidateId) rest

structure Files.Told (f : Files) : Prop where
  last : f.history.getLast?.map (·.record) = f.current
  linked : Linked none f.history

def Net.Quiet (net : Net ω κ) : Prop := ∀ w c row, net.phase w ≠ .appending c row

/-- Between the writes of calls the history tells the current reference, and no call that
raised had written. -/
def Net.Tells (net : Net ω κ) : Prop :=
  (net.Quiet → net.files.Told) ∧ ∀ r ∈ net.raised, r.wrote = false

/-- A record replaces the one its call has read, and its row follows, in the order of the
records, without a fault and before its process dies. -/
def orderly [DecidableEq ω] (net : Net ω κ) : ω × Action → Bool
  | (w, .replace _) =>
    match net.phase w with
    | .writing _ seen _ => candidateOf net.files.current = candidateOf seen
    | _ => true
  | (w, .append how) =>
    match how with
    | .done => net.waiting.head? = some w
    | _ => false
  | (w, .die) => w ∉ net.waiting
  | _ => true

def Phase.row : Phase → Option HistoryRow
  | .appending _ row => some row
  | _ => none

def Net.rows (net : Net ω κ) : List HistoryRow :=
  net.files.history ++ net.waiting.filterMap fun w => (net.phase w).row

def Phase.Ready : Phase → Prop
  | .writing _ seen row => row.record.previousCandidateId = candidateOf seen
  | _ => True

structure Inv (net : Net ω κ) : Prop where
  nodup : net.waiting.Nodup
  mem_waiting : ∀ w, w ∈ net.waiting ↔ (net.phase w).row.isSome = true
  ready : ∀ w, (net.phase w).Ready
  rows : net.rows = net.written
  told : { current := net.files.current, history := net.written : Files }.Told
  clean : ∀ r ∈ net.raised, r.wrote = false

theorem linked_snoc {previous : Option Text} {rows : List HistoryRow} {row : HistoryRow} :
    Linked previous (rows ++ [row]) ↔ Linked previous rows ∧
      row.record.previousCandidateId = (rows.getLast?.map (·.record.candidateId)).or previous := by
  induction rows generalizing previous with
  | nil => simp [Linked]
  | cons first rest ih =>
    simp only [List.cons_append, Linked, ih, and_assoc, and_congr_right_iff]
    intro _ _
    cases rest with
    | nil => simp
    | cons second rest =>
      have hlast : (second :: rest).getLast? = some ((second :: rest).getLast (by simp)) :=
        List.getLast?_eq_some_getLast (by simp)
      rw [List.getLast?_cons_cons, hlast]
      rfl

theorem Files.Told.snoc {f : Files} {row : HistoryRow} (h : f.Told)
    (hrow : row.record.previousCandidateId = candidateOf f.current) :
    { current := some row.record, history := f.history ++ [row] : Files }.Told where
  last := by simp
  linked := by
    refine linked_snoc.mpr ⟨h.linked, ?_⟩
    rw [hrow, ← h.last, candidateOf, Option.map_map]
    simp [Function.comp_def]

variable {net : Net ω κ}

theorem Inv.raise {c : Call} {e : Fault} (h : Inv net) :
    ∀ r ∈ (net.raise c e false).raised, r.wrote = false := by
  intro r hr
  cases List.mem_cons.mp hr with
  | inl hr => rw [hr]
  | inr hr => exact h.clean r hr

theorem Inv.history_of_quiet (h : Inv net) (hquiet : net.Quiet) : net.files.history = net.written := by
  have hwaiting : net.waiting = [] := by
    apply List.eq_nil_iff_forall_not_mem.mpr
    intro w hw
    have hrow := (h.mem_waiting w).mp hw
    cases hph : net.phase w with
    | appending c row => exact hquiet w c row hph
    | _ => simp [hph, Phase.row] at hrow
  rw [← h.rows, Net.rows, hwaiting, List.filterMap_nil, List.append_nil]

theorem Inv.tells (h : Inv net) : net.Tells := by
  refine ⟨fun hquiet => ?_, h.clean⟩
  have htold := h.told
  rw [← h.history_of_quiet hquiet] at htold
  exact htold

theorem inv_start : Inv ({} : Net ω κ) :=
  ⟨List.nodup_nil, fun _ => by simp [Phase.row], fun _ => trivial, rfl, ⟨rfl, trivial⟩, fun _ h => by simp at h⟩

variable [DecidableEq ω] {w : ω}

theorem filterMap_row_update {ws : List ω} {phase : ω → Phase} {ph : Phase} (hw : w ∉ ws) :
    (ws.filterMap fun v => (Function.update phase w ph v).row) = ws.filterMap fun v => (phase v).row := by
  apply List.filterMap_congr
  intro v hv
  have hne : v ≠ w := fun h => hw (h ▸ hv)
  rw [Function.update_of_ne hne]

theorem Inv.move {ph : Phase} {locked : List κ} {raised : List Raised} (h : Inv net)
    (hidle : (net.phase w).row = none) (hrow : ph.row = none) (hready : ph.Ready)
    (hraised : ∀ r ∈ raised, r.wrote = false) :
    Inv { net with phase := Function.update net.phase w ph, locked, raised } := by
  have hw : w ∉ net.waiting := by
    intro hw
    have := (h.mem_waiting w).mp hw
    simp [hidle] at this
  refine ⟨h.nodup, fun v => ?_, fun v => ?_, ?_, h.told, hraised⟩
  · by_cases hv : v = w
    · subst hv
      simp [hrow, hw]
    · simpa only [Function.update_of_ne hv] using h.mem_waiting v
  · by_cases hv : v = w
    · subst hv
      simpa using hready
    · simpa only [Function.update_of_ne hv] using h.ready v
  · rw [← h.rows]
    exact congrArg (net.files.history ++ ·) (filterMap_row_update hw)

theorem Inv.replace {c : Call} {seen : Option ReferenceRecord} {row : HistoryRow} {now : ℚ} (h : Inv net)
    (hph : net.phase w = .writing c seen row) (hseen : candidateOf net.files.current = candidateOf seen) :
    Inv { net.goto w (.appending c (row.stamped now)) with
      files := { net.files with current := some (row.stamped now).record }
      written := net.written ++ [row.stamped now]
      waiting := net.waiting ++ [w] } := by
  have hw : w ∉ net.waiting := by
    intro hw
    have := (h.mem_waiting w).mp hw
    simp [hph, Phase.row] at this
  have hready : row.record.previousCandidateId = candidateOf seen := by
    have := h.ready w
    rwa [hph] at this
  refine ⟨?_, fun v => ?_, fun v => ?_, ?_, ?_, h.clean⟩
  · exact List.nodup_append.mpr ⟨h.nodup, List.nodup_singleton w, by
      intro a ha b hb hab
      rw [List.mem_singleton.mp hb] at hab
      exact hw (hab ▸ ha)⟩
  · by_cases hv : v = w
    · subst hv
      simp [Net.goto, Phase.row]
    · have := h.mem_waiting v
      simp [Net.goto, hv, this]
  · by_cases hv : v = w
    · subst hv
      simp [Net.goto, Phase.Ready]
    · simpa only [Net.goto, Function.update_of_ne hv] using h.ready v
  · simp only [Net.rows, Net.goto, List.filterMap_append, filterMap_row_update hw]
    rw [← h.rows, Net.rows]
    simp [Phase.row]
  · exact h.told.snoc (hready.trans hseen.symm)

variable [DecidableEq κ] {object : ω → κ}

theorem Inv.leave {raised : List Raised} (h : Inv net) (hidle : (net.phase w).row = none)
    (hraised : ∀ r ∈ raised, r.wrote = false) :
    Inv (({ net with raised } : Net ω κ).leave object w) := by
  have hw : w ∉ net.waiting := by
    intro hw
    have := (h.mem_waiting w).mp hw
    simp [hidle] at this
  have hmove : Inv ({ net with
      phase := Function.update net.phase w .idle, locked := net.locked.erase (object w), raised } : Net ω κ) :=
    h.move hidle rfl trivial hraised
  have hsame : ({ net with raised } : Net ω κ).leave object w =
      { net with phase := Function.update net.phase w .idle, locked := net.locked.erase (object w), raised } := by
    simp [Net.leave, Net.goto, List.erase_of_not_mem hw]
  rw [hsame]
  exact hmove

theorem Inv.append {c : Call} {row : HistoryRow} (h : Inv net) (hph : net.phase w = .appending c row)
    (hhead : net.waiting.head? = some w) : Inv ((net.appendRow row).leave object w) := by
  obtain ⟨rest, hrest⟩ : ∃ rest, net.waiting = w :: rest := by
    cases hws : net.waiting with
    | nil => simp [hws] at hhead
    | cons v rest =>
      rw [hws] at hhead
      exact ⟨rest, by rw [Option.some.inj hhead]⟩
  have hnodup := h.nodup
  rw [hrest, List.nodup_cons] at hnodup
  obtain ⟨hw, hnodup⟩ := hnodup
  have herase : net.waiting.erase w = rest := by rw [hrest, List.erase_cons_head]
  refine ⟨?_, fun v => ?_, fun v => ?_, ?_, h.told, h.clean⟩
  · simpa [Net.leave, Net.goto, Net.appendRow, herase] using hnodup
  · by_cases hv : v = w
    · subst hv
      simp [Net.leave, Net.goto, Net.appendRow, herase, hw, Phase.row]
    · have := h.mem_waiting v
      rw [hrest, List.mem_cons] at this
      simp only [Net.leave, Net.goto, Net.appendRow, herase, Function.update_of_ne hv]
      exact ⟨fun hm => this.mp (Or.inr hm), fun hs => (this.mpr hs).resolve_left hv⟩
  · by_cases hv : v = w
    · subst hv
      simp [Net.leave, Net.goto, Phase.Ready]
    · have := h.ready v
      simpa only [Net.leave, Net.goto, Net.appendRow, Function.update_of_ne hv] using this
  · have hrows := h.rows
    rw [Net.rows, hrest, List.filterMap_cons_some (b := row) (by rw [hph]; rfl)] at hrows
    simp only [Net.rows, Net.leave, Net.goto, Net.appendRow, herase, filterMap_row_update hw]
    rw [← hrows, List.append_assoc, List.singleton_append]

theorem Call.check_ready {current : Option ReferenceRecord} {c : Call} {row : HistoryRow}
    (h : c.check current = .ok row) : row.record.previousCandidateId = candidateOf current := by
  cases c with
  | promote record expected =>
    simp only [Call.check] at h
    split at h
    · simp at h
    · cases current with
      | none =>
        obtain rfl := Except.ok.inj h
        rfl
      | some r =>
        simp only at h
        split at h
        · obtain rfl := Except.ok.inj h
          rfl
        · simp at h
  | rebase record decision =>
    obtain rfl := Except.ok.inj h
    rfl

theorem inv_step (net : Net ω κ) (l : ω × Action) (t : Net ω κ) (h : Inv net)
    (hok : orderly net l = true) (ht : step object net l = some t) : Inv t := by
  obtain ⟨w, a⟩ := l
  cases a with
  | call c =>
    simp only [step] at ht
    split at ht
    · next hph =>
      obtain rfl := Option.some.inj ht
      exact ⟨h.nodup, h.mem_waiting, h.ready, h.rows, h.told, h.raise⟩
    · next hph hc =>
      obtain rfl := Option.some.inj ht
      exact h.move (by rw [hph]; rfl) rfl trivial h.clean
    · simp at ht
  | enter =>
    simp only [step] at ht
    split at ht
    · next c hph =>
      split at ht
      · simp at ht
      · obtain rfl := Option.some.inj ht
        exact h.move (by rw [hph]; rfl) rfl trivial h.clean
    · simp at ht
  | read =>
    simp only [step] at ht
    split at ht
    · next c hph =>
      have hidle : (net.phase w).row = none := by rw [hph]; rfl
      split at ht
      · next row hcheck =>
        obtain rfl := Option.some.inj ht
        exact h.move hidle rfl (Call.check_ready hcheck) h.clean
      · obtain rfl := Option.some.inj ht
        exact h.leave hidle h.raise
    · simp at ht
  | replace now =>
    simp only [step] at ht
    split at ht
    · next c seen row hph =>
      obtain rfl := Option.some.inj ht
      simp only [orderly, hph, decide_eq_true_eq] at hok
      exact h.replace hph hok
    · simp at ht
  | failReplace =>
    simp only [step] at ht
    split at ht
    · next c seen row hph =>
      obtain rfl := Option.some.inj ht
      exact h.leave (by rw [hph]; rfl) h.raise
    · simp at ht
  | append how =>
    cases how with
    | done =>
      simp only [step] at ht
      split at ht
      · next c row hph =>
        obtain rfl := Option.some.inj ht
        simp only [orderly, decide_eq_true_eq] at hok
        exact h.append hph hok
      · simp at ht
    | lost => simp [orderly] at hok
    | unsynced => simp [orderly] at hok
  | die =>
    obtain rfl := Option.some.inj ht
    simp only [orderly, decide_eq_true_eq] at hok
    have hidle : (net.phase w).row = none := by
      cases hrow : (net.phase w).row with
      | none => rfl
      | some row => exact absurd ((h.mem_waiting w).mpr (by rw [hrow]; rfl)) hok
    exact h.leave hidle h.clean

/-- Every orderly run of promotions and rebases, from any number of processes, keeps the history
telling the current reference. -/
theorem tells_of_orderly (object : ω → κ) (ls : List (ω × Action))
    (h : Meets (step object) (fun net l => orderly net l) {} ls) :
    Everywhere (step object) Net.Tells {} ls :=
  (everywhere_of_meets inv_step inv_start h).mono fun _ => Inv.tells

def exactNamespace : ScoreNamespace where
  criterionHash := "c".toList
  measurementHash := "m".toList
  evaluatorHash := "e".toList
  universeHash := "u".toList
  nonempty := by decide

def recordOf (candidate : Text) (fitness : ℚ) : ReferenceRecord where
  candidateId := candidate
  evidenceId := candidate
  scoreNamespace := exactNamespace
  fitness := some fitness
  policyHash := []
  assessorHash := []
  reasons := []
  promotedAt := 0

/-- Two stores in two processes: the second is refused once, and then follows the first. -/
def takesTurns : List (Bool × Action) :=
  [(false, .call (.promote (recordOf ['a'] 1) none)), (true, .call (.promote (recordOf ['b'] 2) none)),
    (false, .enter), (true, .enter), (false, .read), (false, .replace 5), (false, .append .done), (true, .read),
    (true, .call (.promote (recordOf ['b'] 2) (some ['a']))), (true, .enter), (true, .read), (true, .replace 6),
    (true, .append .done), (false, .call (.rebase (recordOf ['c'] 1) [])),
    (false, .call (.rebase (recordOf ['c'] 1) [(['k'], ['1'])])), (false, .enter), (false, .read), (false, .die)]

theorem tells_of_orderly_takesTurns :
    Everywhere (step (id : Bool → Bool)) Net.Tells {} takesTurns :=
  tells_of_orderly id takesTurns (meets_of_check (by decide))

/-- The process dies after `os.replace` and before the history row. -/
def diesBetween : List (Unit × Action) :=
  [((), .call (.promote (recordOf ['a'] 1) none)), ((), .enter), ((), .read), ((), .replace 5), ((), .die)]

theorem dies_between_untold : ¬ Everywhere (step (id : Unit → Unit)) Net.Tells {} diesBetween := by
  intro h
  obtain ⟨t, ht, hend⟩ : ∃ t, run (step (id : Unit → Unit)) {} diesBetween = some t ∧
      ((t.phase () == .idle) = true ∧ t.files.current.isSome = true ∧ t.files.history = []) := by
    have hrun : (run (step (id : Unit → Unit)) {} diesBetween).map (fun t =>
        (t.phase () == .idle, t.files.current.isSome, t.files.history)) = some (true, true, []) := by
      decide
    obtain ⟨t, ht, hend⟩ := Option.map_eq_some_iff.mp hrun
    simp only [Prod.mk.injEq] at hend
    exact ⟨t, ht, hend⟩
  obtain ⟨hidle, hcurrent, hhistory⟩ := hend
  have hquiet : t.Quiet := by
    intro w c row hph
    rw [show w = () from rfl] at hph
    rw [hph] at hidle
    simp at hidle
  have hlast := ((everywhere_last h ht).1 hquiet).last
  rw [hhistory] at hlast
  rw [← hlast] at hcurrent
  simp at hcurrent

end EvoHarness.Research
