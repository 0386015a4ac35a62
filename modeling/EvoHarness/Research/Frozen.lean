import EvoHarness.Library.Hoare
import EvoHarness.Library.JsonMembers
import EvoHarness.Library.Runs

/-! Frozen experiments: one file for each experiment, put by any number of processes. The check
whether the file exists, the comparison with it and its replacement are steps of their own. -/
namespace EvoHarness.Research.Frozen
open PyText Runs Json Hoare

inductive Fault where
  | valueError (message : Text)
  | typeError
  | attributeError
  | storeError (message : Text)
  | osError
deriving DecidableEq

abbrev NonBlank := { t : Text // strip t ≠ [] }

structure ExperimentSpec where
  experimentId : NonBlank
  hypothesisId : NonBlank
  goalId : NonBlank
  taskRef : NonBlank
  runRef : NonBlank
  searchRef : NonBlank
  intervention : NonBlank
  control : Value := .string []
  predictionClaims : List Value := []
  falsificationConditions : List Value := []
  confounders : List Value := []
  stoppingRule : Value := .string []
  estimatedCostUsd : Value := .null
  approvedBy : Value := .string []
  createdAt : Value

abbrev Members := List (Text × Value)

namespace ExperimentSpec

def hashed (s : ExperimentSpec) : Members :=
  [("experiment_id".toList, .string s.experimentId.1), ("hypothesis_id".toList, .string s.hypothesisId.1),
    ("goal_id".toList, .string s.goalId.1), ("task_ref".toList, .string s.taskRef.1),
    ("run_ref".toList, .string s.runRef.1), ("search_ref".toList, .string s.searchRef.1),
    ("intervention".toList, .string s.intervention.1), ("control".toList, s.control),
    ("prediction_claims".toList, .array s.predictionClaims),
    ("falsification_conditions".toList, .array s.falsificationConditions),
    ("confounders".toList, .array s.confounders), ("stopping_rule".toList, s.stoppingRule),
    ("estimated_cost_usd".toList, s.estimatedCostUsd)]

def payload (s : ExperimentSpec) : Value := .object (("kind".toList, .string "experiment".toList) :: s.hashed)

end ExperimentSpec

/-- `spec_hash` tells payloads apart exactly where their canonical texts differ. -/
structure SpecHash where
  hash : Value → Text
  collision_free : ∀ x y, Distinct x → Distinct y → IsObject x → IsObject y → hash x = hash y → sorted x = sorted y
  nonempty : ∀ x, hash x ≠ []

def one : Value := .number ⟨['1'], by decide⟩

variable (H : SpecHash)

def ExperimentSpec.toJson (s : ExperimentSpec) : Members :=
  [("schema_version".toList, one), ("spec_hash".toList, .string (H.hash s.payload))] ++ s.hashed ++
    [("approved_by".toList, s.approvedBy), ("created_at".toList, s.createdAt)]

def requiredNames : List Text :=
  ["experiment_id".toList, "hypothesis_id".toList, "goal_id".toList, "task_ref".toList, "run_ref".toList,
    "search_ref".toList, "intervention".toList]

def knownNames : List Text :=
  ["schema_version".toList, "spec_hash".toList] ++ requiredNames ++ ["control".toList, "prediction_claims".toList,
    "falsification_conditions".toList, "confounders".toList, "stopping_rule".toList,
    "estimated_cost_usd".toList, "approved_by".toList, "created_at".toList]

def tupleOf : Option Value → Except Fault (List Value)
  | none => .ok []
  | some (.array xs) => .ok xs
  | some (.string t) => .ok (t.map fun c => .string [c])
  | some (.object ps) => .ok (ps.map fun p => .string p.1)
  | some _ => .error .typeError

def requiredText (d : Members) (name : Text) : Except Fault NonBlank :=
  match get d name with
  | none => .error .typeError
  | some (.string t) =>
    if h : strip t = [] then .error (.valueError ("Experiment ".toList ++ name ++ " must not be empty".toList))
    else .ok ⟨t, h⟩
  | some _ => .error .attributeError

def fromPayload (d : Members) : Except Fault ExperimentSpec := do
  let predictionClaims ← tupleOf (get d "prediction_claims".toList)
  let falsificationConditions ← tupleOf (get d "falsification_conditions".toList)
  let confounders ← tupleOf (get d "confounders".toList)
  if (d.any fun p => p.1 ∉ knownNames) || (requiredNames.any fun name => (get d name).isNone) then throw .typeError
  let experimentId ← requiredText d "experiment_id".toList
  let hypothesisId ← requiredText d "hypothesis_id".toList
  let goalId ← requiredText d "goal_id".toList
  let taskRef ← requiredText d "task_ref".toList
  let runRef ← requiredText d "run_ref".toList
  let searchRef ← requiredText d "search_ref".toList
  let intervention ← requiredText d "intervention".toList
  return {
    experimentId, hypothesisId, goalId, taskRef, runRef, searchRef, intervention, predictionClaims,
    falsificationConditions, confounders
    control := (get d "control".toList).getD (.string [])
    stoppingRule := (get d "stopping_rule".toList).getD (.string [])
    estimatedCostUsd := (get d "estimated_cost_usd".toList).getD .null
    approvedBy := (get d "approved_by".toList).getD (.string [])
    createdAt := (get d "created_at".toList).getD (.number ⟨"0.0".toList, isNumeral_zero⟩) }

def truthy : Value → Bool
  | .null => false
  | .bool b => b
  | .number n => (n.text.takeWhile fun c => c ≠ 'e' ∧ c ≠ 'E').any fun c => '1' ≤ c && c ≤ '9'
  | .string t => t ≠ []
  | .array xs => !xs.isEmpty
  | .object ps => !ps.isEmpty

def agrees (recorded : Option Value) (hash : Text) : Bool :=
  match recorded with
  | none => true
  | some (.string t) => t = [] || t = hash
  | some x => !truthy x

def mismatch (s : ExperimentSpec) (recorded : Option Value) : Fault :=
  .valueError ("experiment ".toList ++ s.experimentId.1 ++ " content does not match its recorded spec_hash (".toList ++
    dumps (recorded.getD .null) ++ " != ".toList ++ H.hash s.payload ++ ")".toList)

def fromJson (d : Members) : Except Fault ExperimentSpec :=
  if isOne (get d "schema_version".toList) = false then
    .error (.valueError "Experiment schema version must be 1".toList)
  else
    match fromPayload d with
    | .error e => .error e
    | .ok s =>
      if agrees (get d "spec_hash".toList) (H.hash s.payload) then .ok s
      else .error (mismatch H s (get d "spec_hash".toList))

/-- The file of an experiment. `frozen` is the spec it was last written with, `edited` says that
it was changed by hand since, and `returned` are the specs whose put has returned. -/
structure Cell where
  file : Option Members := none
  frozen : Option ExperimentSpec := none
  edited : Bool := false
  returned : List ExperimentSpec := []

inductive Phase where
  | idle
  | called (s : ExperimentSpec)
  | found (s : ExperimentSpec)
  | missed (s : ExperimentSpec)

structure Store (ω π : Type) where
  cells : π → Cell := fun _ => {}
  phase : ω → Phase := fun _ => .idle
  raised : List (ExperimentSpec × Fault) := []

def ExperimentSpec.Proper (s : ExperimentSpec) : Prop := Distinct (.object (s.toJson H))

abbrev Document := { d : Members // Distinct (.object d) }

inductive Action (H : SpecHash) where
  | put (s : { s : ExperimentSpec // s.Proper H })
  | look
  | compare
  | replace
  | fail
  | die

inductive Event (H : SpecHash) (ω π : Type) where
  | work (w : ω) (a : Action H)
  | edit (p : π) (d : Document)

variable {ω π : Type} {H}

def load (H : SpecHash) (c : Cell) (experimentId : Text) : Except Fault ExperimentSpec :=
  match c.file with
  | none => .error (.storeError ("experiment ".toList ++ experimentId ++ " not found".toList))
  | some d => fromJson H d

def differs (s : ExperimentSpec) : Fault :=
  .storeError ("experiment ".toList ++ s.experimentId.1 ++ " already exists with different content; ".toList ++
    "research specs are append-only — create a new id".toList)

def Cell.writeFile (H : SpecHash) (c : Cell) (s : ExperimentSpec) : Cell :=
  { file := some (s.toJson H), frozen := some s, edited := false, returned := c.returned ++ [s] }

section
variable [DecidableEq ω] [DecidableEq π]

def Store.goto (st : Store ω π) (w : ω) (ph : Phase) : Store ω π :=
  { st with phase := Function.update st.phase w ph }

def Store.setCell (st : Store ω π) (p : π) (c : Cell) : Store ω π :=
  { st with cells := Function.update st.cells p c }

def Store.raise (st : Store ω π) (w : ω) (s : ExperimentSpec) (e : Fault) : Store ω π :=
  { st.goto w .idle with raised := st.raised ++ [(s, e)] }

/-- The second half of `_put_once` where the file exists. -/
def Store.compare (H : SpecHash) (place : Text → π) (st : Store ω π) (w : ω) (s : ExperimentSpec) : Store ω π :=
  match (st.cells (place s.experimentId.1)).file with
  | none => st.raise w s .osError
  | some d =>
    if dumps (.object d) = dumps (.object (s.toJson H)) then
      (st.setCell (place s.experimentId.1)
        { st.cells (place s.experimentId.1) with
          returned := (st.cells (place s.experimentId.1)).returned ++ [s] }).goto w .idle
    else st.raise w s (differs s)

def work (place : Text → π) (st : Store ω π) (w : ω) : Action H → Option (Store ω π)
  | .put s =>
    match st.phase w with
    | .idle => some (st.goto w (.called s.1))
    | _ => none
  | .look =>
    match st.phase w with
    | .called s =>
      some (st.goto w (if (st.cells (place s.experimentId.1)).file.isSome then .found s else .missed s))
    | _ => none
  | .compare =>
    match st.phase w with
    | .found s => some (st.compare H place w s)
    | _ => none
  | .replace =>
    match st.phase w with
    | .missed s =>
      some ((st.setCell (place s.experimentId.1) ((st.cells (place s.experimentId.1)).writeFile H s)).goto w .idle)
    | _ => none
  | .fail =>
    match st.phase w with
    | .missed s => some (st.raise w s .osError)
    | .found s => some (st.raise w s .osError)
    | _ => none
  | .die => some (st.goto w .idle)

def step (place : Text → π) (st : Store ω π) : Event H ω π → Option (Store ω π)
  | .work w a => work place st w a
  | .edit p d =>
    match (st.cells p).file with
    | none => none
    | some _ => some (st.setCell p { st.cells p with file := some d.1, edited := true })

end

def ExperimentSpec.Same (H : SpecHash) (s t : ExperimentSpec) : Prop :=
  dumps (.object (s.toJson H)) = dumps (.object (t.toJson H))

structure SameBudget (s : ExperimentSpec) (d : Members) : Prop where
  approver : sorted ((get d "approved_by".toList).getD (.string [])) = sorted s.approvedBy
  cost : sorted ((get d "estimated_cost_usd".toList).getD .null) = sorted s.estimatedCostUsd

/-- Every put that has returned put the same spec, loading gives this spec while nobody edits the
file, and an edit of the budget is refused. -/
structure Cell.Keeps (H : SpecHash) (c : Cell) : Prop where
  same : ∀ s ∈ c.returned, ∃ s₀, c.frozen = some s₀ ∧ s₀.Same H s
  loads : ∀ s₀, c.frozen = some s₀ → c.edited = false → ∀ id, load H c id = .ok s₀
  refuses : ∀ s₀ d, c.frozen = some s₀ → c.file = some d → ¬SameBudget s₀ d → ∃ e, fromJson H d = .error e

/-- A put replaces no file of another spec, and an edit leaves the recorded hash and the fields
that it does not see as they are. -/
def careful (place : Text → π) (st : Store ω π) : Event H ω π → Prop
  | .work w .replace =>
    match st.phase w with
    | .missed s => ∀ s₀, (st.cells (place s.experimentId.1)).frozen = some s₀ → s₀.Same H s
    | _ => True
  | .edit p d => ∀ old, (st.cells p).file = some old → ∀ k ∈ ["spec_hash".toList, "approved_by".toList,
      "created_at".toList], get d.1 k = get old k
  | _ => True

theorem keys_toJson (s : ExperimentSpec) : (s.toJson H).map (·.1) = knownNames := rfl

theorem nodup_toJson (s : ExperimentSpec) : ((s.toJson H).map (·.1)).Nodup := by
  rw [keys_toJson]
  decide

theorem get_toJson {s : ExperimentSpec} {k : Text} {x : Value} (i : ℕ) (h : (s.toJson H)[i]? = some (k, x)) :
    get (s.toJson H) k = some x :=
  get_of_mem (nodup_toJson s) (List.mem_of_getElem? h)

theorem requiredText_string {d : Members} {name : Text} {t : NonBlank} (h : get d name = some (.string t.1)) :
    requiredText d name = .ok t := by
  unfold requiredText
  rw [h]
  exact dif_neg t.2

theorem known_toJson (s : ExperimentSpec) : ((s.toJson H).any fun p => p.1 ∉ knownNames) = false := by
  have hkeys : ((s.toJson H).map (·.1)).any (fun k => k ∉ knownNames) = false := by
    rw [keys_toJson]
    decide
  rwa [List.any_map] at hkeys

theorem fromPayload_toJson (s : ExperimentSpec) : fromPayload (s.toJson H) = .ok s := by
  have hpresent : (requiredNames.any fun name => (get (s.toJson H) name).isNone) = false := by
    simp only [requiredNames, List.any_cons, List.any_nil, get_toJson (s := s) 2 rfl, get_toJson (s := s) 3 rfl,
      get_toJson (s := s) 4 rfl, get_toJson (s := s) 5 rfl, get_toJson (s := s) 6 rfl, get_toJson (s := s) 7 rfl,
      get_toJson (s := s) 8 rfl, Option.isNone_some, Bool.or_self]
  unfold fromPayload
  simp only [known_toJson, hpresent, Bool.or_self, Bool.false_eq_true, if_false, get_toJson (s := s) 9 rfl,
    get_toJson (s := s) 10 rfl, get_toJson (s := s) 11 rfl, get_toJson (s := s) 12 rfl, get_toJson (s := s) 13 rfl,
    get_toJson (s := s) 14 rfl, get_toJson (s := s) 15 rfl, get_toJson (s := s) 16 rfl, tupleOf,
    requiredText_string (get_toJson (s := s) 2 rfl), requiredText_string (get_toJson (s := s) 3 rfl),
    requiredText_string (get_toJson (s := s) 4 rfl), requiredText_string (get_toJson (s := s) 5 rfl),
    requiredText_string (get_toJson (s := s) 6 rfl), requiredText_string (get_toJson (s := s) 7 rfl),
    requiredText_string (get_toJson (s := s) 8 rfl), Option.getD_some]
  rfl

theorem fromJson_toJson (s : ExperimentSpec) : fromJson H (s.toJson H) = .ok s := by
  unfold fromJson
  have hversion : ¬isOne (some one) = false := by decide
  rw [get_toJson 0 rfl, get_toJson 1 rfl, if_neg hversion, fromPayload_toJson]
  have hagrees : agrees (some (.string (H.hash s.payload))) (H.hash s.payload) = true := by
    simp only [agrees, decide_true, Bool.or_true]
  exact if_pos hagrees

theorem fromJson_ok {d : Members} {t : ExperimentSpec} (h : fromJson H d = .ok t) :
    fromPayload d = .ok t ∧ agrees (get d "spec_hash".toList) (H.hash t.payload) = true := by
  unfold fromJson at h
  split at h
  · exact nomatch h
  · cases hs : fromPayload d with
    | error e =>
      rw [hs] at h
      exact nomatch h
    | ok s =>
      rw [hs] at h
      dsimp only at h
      split at h
      · next hagrees =>
        obtain rfl := Except.ok.inj h
        exact ⟨rfl, hagrees⟩
      · exact nomatch h

theorem distinct_get {d : Members} (hd : Distinct (.object d)) {k : Text} {x : Value} (h : get d k = some x) :
    Distinct x :=
  (distinct_object.mp hd).2 (k, x) (mem_of_get h)

theorem distinct_getD {d : Members} (hd : Distinct (.object d)) {k : Text} {x : Value} (hx : Distinct x) :
    Distinct ((get d k).getD x) := by
  cases h : get d k with
  | none => exact hx
  | some y => exact distinct_get hd h

theorem distinctItems_of_forall {xs : List Value} (h : ∀ x ∈ xs, Distinct x) : DistinctItems xs := by
  induction xs with
  | nil => trivial
  | cons x xs ih =>
    rw [DistinctItems]
    exact ⟨h x List.mem_cons_self, ih fun y hy => h y (List.mem_cons_of_mem x hy)⟩

theorem distinct_tupleOf {d : Members} (hd : Distinct (.object d)) {k : Text} {xs : List Value}
    (h : tupleOf (get d k) = .ok xs) : Distinct (.array xs) := by
  rw [Distinct]
  cases hget : get d k with
  | none =>
    rw [hget] at h
    obtain rfl := Except.ok.inj h
    trivial
  | some x =>
    rw [hget] at h
    have hx := distinct_get hd hget
    cases x with
    | array ys =>
      obtain rfl := Except.ok.inj h
      rwa [Distinct] at hx
    | string t =>
      obtain rfl := Except.ok.inj h
      apply distinctItems_of_forall
      intro y hy
      obtain ⟨c, _, rfl⟩ := List.mem_map.mp hy
      trivial
    | object ps =>
      obtain rfl := Except.ok.inj h
      apply distinctItems_of_forall
      intro y hy
      obtain ⟨p, _, rfl⟩ := List.mem_map.mp hy
      trivial
    | null => exact nomatch h
    | bool b => exact nomatch h
    | number n => exact nomatch h

theorem distinct_payload {s : ExperimentSpec} (hcontrol : Distinct s.control)
    (hclaims : Distinct (.array s.predictionClaims)) (hconditions : Distinct (.array s.falsificationConditions))
    (hconfounders : Distinct (.array s.confounders)) (hrule : Distinct s.stoppingRule)
    (hcost : Distinct s.estimatedCostUsd) : Distinct s.payload := by
  refine distinct_object.mpr ⟨?_, ?_⟩
  · show (("kind".toList : Text) :: (knownNames.drop 2).take 13).Nodup
    decide
  · simp only [ExperimentSpec.hashed, List.forall_mem_cons]
    exact ⟨trivial, trivial, trivial, trivial, trivial, trivial, trivial, trivial, hcontrol, hclaims, hconditions,
      hconfounders, hrule, hcost, fun p hp => (List.not_mem_nil hp).elim⟩

theorem ExperimentSpec.Proper.payload {s : ExperimentSpec} (h : s.Proper H) : Distinct s.payload := by
  have hfields {k : Text} {x : Value} (i : ℕ) (hi : (s.toJson H)[i]? = some (k, x)) : Distinct x :=
    distinct_get h (get_toJson i hi)
  exact distinct_payload (hfields 9 rfl) (hfields 10 rfl) (hfields 11 rfl) (hfields 12 rfl) (hfields 13 rfl)
    (hfields 14 rfl)

theorem fromPayload_ok {d : Members} {t : ExperimentSpec} (hd : Distinct (.object d)) (h : fromPayload d = .ok t) :
    Distinct t.payload ∧ t.estimatedCostUsd = (get d "estimated_cost_usd".toList).getD .null := by
  unfold fromPayload at h
  obtain ⟨_, hclaims, h⟩ := ok_of_bind h
  obtain ⟨_, hconditions, h⟩ := ok_of_bind h
  obtain ⟨_, hconfounders, h⟩ := ok_of_bind h
  dsimp only at h
  split at h
  · cases h
  · obtain ⟨_, _, h⟩ := ok_of_bind h
    obtain ⟨_, _, h⟩ := ok_of_bind h
    obtain ⟨_, _, h⟩ := ok_of_bind h
    obtain ⟨_, _, h⟩ := ok_of_bind h
    obtain ⟨_, _, h⟩ := ok_of_bind h
    obtain ⟨_, _, h⟩ := ok_of_bind h
    obtain ⟨_, _, h⟩ := ok_of_bind h
    obtain rfl := Except.ok.inj h
    refine ⟨?_, rfl⟩
    exact distinct_payload (distinct_getD hd trivial) (distinct_tupleOf hd hclaims) (distinct_tupleOf hd hconditions)
      (distinct_tupleOf hd hconfounders) (distinct_getD hd trivial) (distinct_getD hd trivial)

theorem hashed_of_hash {s t : ExperimentSpec} (hs : Distinct s.payload) (ht : Distinct t.payload)
    (h : H.hash s.payload = H.hash t.payload) : sortedMembers s.hashed = sortedMembers t.hashed := by
  have hall := sortedMembers_of_sorted (H.collision_free _ _ hs ht ⟨_, rfl⟩ ⟨_, rfl⟩ h) rfl (distinct_object.mp hs).1
  rw [sortedMembers, sortedMembers] at hall
  exact (List.cons.inj hall).2

theorem same_of_hash {s t : ExperimentSpec} (hs : Distinct s.payload) (ht : Distinct t.payload) (h : H.hash s.payload = H.hash t.payload)
    (happroved : sorted s.approvedBy = sorted t.approvedBy) (hcreated : sorted s.createdAt = sorted t.createdAt) :
    s.Same H t := by
  apply dumps_of_members
  have hhashed := hashed_of_hash hs ht h
  rw [sortedMembers_eq_map, sortedMembers_eq_map] at hhashed ⊢
  simp only [ExperimentSpec.toJson, List.map_append, List.map_cons, List.map_nil, hhashed, h, happroved, hcreated]

/-- The file still has the recorded hash of `s`, and its fields that the hash does not see. -/
structure Stamped (H : SpecHash) (s : ExperimentSpec) (d : Members) : Prop where
  hash : get d "spec_hash".toList = some (.string (H.hash s.payload))
  approved : get d "approved_by".toList = some s.approvedBy
  created : get d "created_at".toList = some s.createdAt

theorem stamped_toJson (s : ExperimentSpec) : Stamped H s (s.toJson H) :=
  ⟨get_toJson 1 rfl, get_toJson 15 rfl, get_toJson 16 rfl⟩

theorem Stamped.same {s t : ExperimentSpec} {d : Members} (hd : Stamped H s d) (hdistinct : Distinct (.object d))
    (hs : s.Proper H) (ht : t.Proper H) (h : dumps (.object d) = dumps (.object (t.toJson H))) : s.Same H t := by
  have hsorted := sorted_of_dumps hdistinct ht ⟨d, rfl⟩ ⟨t.toJson H, rfl⟩ h
  obtain ⟨x, hx, hxs⟩ := get_sorted hsorted (nodup_toJson t) hd.hash
  obtain ⟨y, hy, hys⟩ := get_sorted hsorted (nodup_toJson t) hd.approved
  obtain ⟨z, hz, hzs⟩ := get_sorted hsorted (nodup_toJson t) hd.created
  rw [get_toJson 1 rfl] at hx
  rw [get_toJson 15 rfl] at hy
  rw [get_toJson 16 rfl] at hz
  obtain rfl := Option.some.inj hx
  obtain rfl := Option.some.inj hy
  obtain rfl := Option.some.inj hz
  have hhash : Value.string (H.hash s.payload) = Value.string (H.hash t.payload) := hxs
  exact same_of_hash hs.payload ht.payload (Value.string.inj hhash) hys hzs

theorem Stamped.budget {s t : ExperimentSpec} {d : Members} (hd : Stamped H s d) (hdistinct : Distinct (.object d))
    (hs : s.Proper H) (h : fromJson H d = .ok t) : SameBudget s d := by
  obtain ⟨hpayload, hagrees⟩ := fromJson_ok h
  rw [hd.hash] at hagrees
  have hhash : H.hash s.payload = H.hash t.payload := by
    simp only [agrees, Bool.or_eq_true, decide_eq_true_eq] at hagrees
    exact hagrees.resolve_left (H.nonempty _)
  constructor
  · rw [hd.approved, Option.getD_some]
  · obtain ⟨ht, hcost⟩ := fromPayload_ok hdistinct hpayload
    have hhashed := hashed_of_hash hs.payload ht hhash
    rw [sortedMembers_eq_map, sortedMembers_eq_map] at hhashed
    have hlast := congrArg (·[12]?) hhashed
    rw [← hcost]
    exact (Prod.mk.inj (Option.some.inj hlast)).2.symm

/-- The file of a frozen experiment is stamped with its spec, whoever has edited it. -/
structure Cell.Inv (H : SpecHash) (c : Cell) : Prop where
  absent : c.frozen = none → c.file = none ∧ c.returned = []
  stamped : ∀ s₀, c.frozen = some s₀ → s₀.Proper H ∧
    ∃ d, c.file = some d ∧ Distinct (.object d) ∧ Stamped H s₀ d ∧ (c.edited = false → d = s₀.toJson H)
  same : ∀ s₀, c.frozen = some s₀ → ∀ s ∈ c.returned, s₀.Same H s

def Phase.Proper (H : SpecHash) : Phase → Prop
  | .idle => True
  | .called s => s.Proper H
  | .found s => s.Proper H
  | .missed s => s.Proper H

structure Inv (H : SpecHash) (st : Store ω π) : Prop where
  cells : ∀ p, (st.cells p).Inv H
  phases : ∀ w, (st.phase w).Proper H

theorem Cell.Inv.keeps {c : Cell} (h : c.Inv H) : c.Keeps H := by
  refine ⟨fun s hs => ?_, fun s₀ hs₀ hedited id => ?_, fun s₀ d hs₀ hd hbudget => ?_⟩
  · cases hfrozen : c.frozen with
    | none =>
      rw [(h.absent hfrozen).2] at hs
      exact (List.not_mem_nil hs).elim
    | some s₀ => exact ⟨s₀, rfl, h.same s₀ hfrozen s hs⟩
  · obtain ⟨_, d, hd, _, _, hunedited⟩ := h.stamped s₀ hs₀
    unfold load
    rw [hd, hunedited hedited]
    exact fromJson_toJson s₀
  · obtain ⟨hs₀proper, d', hd', hdistinct, hstamped, _⟩ := h.stamped s₀ hs₀
    rw [hd] at hd'
    obtain rfl := Option.some.inj hd'
    cases hload : fromJson H d with
    | error e => exact ⟨e, rfl⟩
    | ok t => exact (hbudget (hstamped.budget hdistinct hs₀proper hload)).elim

theorem Cell.Inv.writeFile {c : Cell} {s : ExperimentSpec} (h : c.Inv H) (hs : s.Proper H)
    (hsame : ∀ s₀, c.frozen = some s₀ → s₀.Same H s) : (c.writeFile H s).Inv H := by
  refine ⟨fun hnone => (nomatch hnone), fun s₀ hs₀ => ?_, fun s₀ hs₀ t ht => ?_⟩
  · obtain rfl := Option.some.inj hs₀
    exact ⟨hs, s.toJson H, rfl, hs, stamped_toJson s, fun _ => rfl⟩
  · obtain rfl := Option.some.inj hs₀
    cases List.mem_append.mp ht with
    | inr ht =>
      rw [List.mem_singleton.mp ht]
      exact rfl
    | inl ht =>
      cases hfrozen : c.frozen with
      | none =>
        rw [(h.absent hfrozen).2] at ht
        exact (List.not_mem_nil ht).elim
      | some s₁ => exact (hsame s₁ hfrozen).symm.trans (h.same s₁ hfrozen t ht)

theorem Cell.Inv.return {c : Cell} {s : ExperimentSpec} {d : Members} (h : c.Inv H) (hs : s.Proper H)
    (hfile : c.file = some d) (heq : dumps (.object d) = dumps (.object (s.toJson H))) :
    ({ c with returned := c.returned ++ [s] } : Cell).Inv H := by
  refine ⟨fun hnone => ?_, h.stamped, fun s₀ hs₀ t ht => ?_⟩
  · have hmissing := (h.absent hnone).1
    rw [hfile] at hmissing
    exact nomatch hmissing
  · cases List.mem_append.mp ht with
    | inl ht => exact h.same s₀ hs₀ t ht
    | inr ht =>
      rw [List.mem_singleton.mp ht]
      obtain ⟨hs₀proper, d', hd', hdistinct, hstamped, _⟩ := h.stamped s₀ hs₀
      rw [hfile] at hd'
      obtain rfl := Option.some.inj hd'
      exact hstamped.same hdistinct hs₀proper hs heq

theorem Cell.Inv.edit {c : Cell} {old : Members} {d : Document} (h : c.Inv H) (hold : c.file = some old)
    (hkeys : ∀ k ∈ ["spec_hash".toList, "approved_by".toList, "created_at".toList], get d.1 k = get old k) :
    ({ c with file := some d.1, edited := true } : Cell).Inv H := by
  refine ⟨fun hnone => ?_, fun s₀ hs₀ => ?_, h.same⟩
  · have hmissing := (h.absent hnone).1
    rw [hold] at hmissing
    exact nomatch hmissing
  · obtain ⟨hs₀proper, d', hd', _, hstamped, _⟩ := h.stamped s₀ hs₀
    rw [hold] at hd'
    obtain rfl := Option.some.inj hd'
    refine ⟨hs₀proper, d.1, rfl, d.2, ⟨?_, ?_, ?_⟩, fun hfalse => nomatch hfalse⟩
    · rw [hkeys _ (by simp)]
      exact hstamped.hash
    · rw [hkeys _ (by simp)]
      exact hstamped.approved
    · rw [hkeys _ (by simp)]
      exact hstamped.created

section
variable [DecidableEq ω] [DecidableEq π] {st : Store ω π} {w : ω} {ph : Phase} {p : π} {c : Cell}

omit [DecidableEq π] in
theorem Inv.goto (h : Inv H st) (hph : ph.Proper H) : Inv H (st.goto w ph) := by
  refine ⟨h.cells, fun v => ?_⟩
  unfold Store.goto
  dsimp only
  by_cases hv : v = w
  · rw [hv, Function.update_self]
    exact hph
  · rw [Function.update_of_ne hv]
    exact h.phases v

omit [DecidableEq ω] in
theorem Inv.setCell (h : Inv H st) (hc : c.Inv H) : Inv H (st.setCell p c) := by
  refine ⟨fun q => ?_, h.phases⟩
  unfold Store.setCell
  dsimp only
  by_cases hq : q = p
  · rw [hq, Function.update_self]
    exact hc
  · rw [Function.update_of_ne hq]
    exact h.cells q

omit [DecidableEq π] in
theorem Inv.raise {s : ExperimentSpec} {e : Fault} (h : Inv H st) : Inv H (st.raise w s e) := by
  have hidle : Inv H (st.goto w .idle) := h.goto trivial
  exact ⟨hidle.cells, hidle.phases⟩

theorem Inv.compare {s : ExperimentSpec} {place : Text → π} (h : Inv H st) (hs : s.Proper H) :
    Inv H (st.compare H place w s) := by
  unfold Store.compare
  cases hfile : (st.cells (place s.experimentId.1)).file with
  | none => exact h.raise
  | some d =>
    dsimp only
    split
    · next heq => exact (h.setCell ((h.cells _).return hs hfile heq)).goto trivial
    · exact h.raise

theorem work_inv {place : Text → π} {a : Action H} {t : Store ω π} (h : Inv H st)
    (hok : careful place st (.work w a)) (ht : work place st w a = some t) : Inv H t := by
  cases a with
  | put s =>
    unfold work at ht
    dsimp only at ht
    split at ht
    · obtain rfl := Option.some.inj ht
      exact h.goto s.2
    · exact nomatch ht
  | look =>
    unfold work at ht
    dsimp only at ht
    split at ht
    · next s hph =>
      obtain rfl := Option.some.inj ht
      have hs := h.phases w
      rw [hph] at hs
      refine h.goto ?_
      split
      · exact hs
      · exact hs
    · exact nomatch ht
  | compare =>
    unfold work at ht
    dsimp only at ht
    split at ht
    · next s hph =>
      obtain rfl := Option.some.inj ht
      have hs := h.phases w
      rw [hph] at hs
      exact h.compare hs
    · exact nomatch ht
  | replace =>
    unfold work at ht
    dsimp only at ht
    split at ht
    · next s hph =>
      obtain rfl := Option.some.inj ht
      have hs := h.phases w
      rw [hph] at hs
      unfold careful at hok
      dsimp only at hok
      rw [hph] at hok
      exact (h.setCell ((h.cells _).writeFile hs hok)).goto trivial
    · exact nomatch ht
  | fail =>
    unfold work at ht
    dsimp only at ht
    split at ht
    · obtain rfl := Option.some.inj ht
      exact h.raise
    · obtain rfl := Option.some.inj ht
      exact h.raise
    · exact nomatch ht
  | die =>
    obtain rfl := Option.some.inj ht
    exact h.goto trivial

theorem inv_step {place : Text → π} (st : Store ω π) (e : Event H ω π) (t : Store ω π) (h : Inv H st)
    (hok : careful place st e) (ht : step place st e = some t) : Inv H t := by
  cases e with
  | work w a => exact work_inv h hok ht
  | edit p d =>
    unfold step at ht
    dsimp only at ht
    cases hfile : (st.cells p).file with
    | none =>
      rw [hfile] at ht
      exact nomatch ht
    | some old =>
      rw [hfile] at ht
      obtain rfl := Option.some.inj ht
      exact h.setCell ((h.cells p).edit hfile (hok old hfile))

/-- In a careful run of puts and edits every frozen experiment stays frozen. -/
theorem frozen_of_careful (H : SpecHash) (place : Text → π) (events : List (Event H ω π))
    (h : Meets (step place) (careful place) ({} : Store ω π) events) :
    Everywhere (step place) (fun st => ∀ p, (st.cells p).Keeps H) ({} : Store ω π) events := by
  have hstart : Inv H ({} : Store ω π) := by
    exact ⟨fun p => ⟨fun _ => ⟨rfl, rfl⟩, fun s₀ hs₀ => (nomatch hs₀), fun s₀ hs₀ => (nomatch hs₀)⟩, fun w => trivial⟩
  exact (everywhere_of_meets inv_step hstart h).mono fun st hst p => (hst.cells p).keeps

end

def textHash : SpecHash where
  hash := dumps
  collision_free := fun _ _ => sorted_of_dumps
  nonempty x := by
    obtain ⟨c, t, h, _⟩ := render_head (sorted x)
    rw [dumps, h]
    exact List.cons_ne_nil c t

def nameX : NonBlank := ⟨['x'], by decide⟩

def numeral (c : Char) (h : isNumeral [c] = true) : Value := .number ⟨[c], h⟩

def modest : ExperimentSpec where
  experimentId := nameX
  hypothesisId := nameX
  goalId := nameX
  taskRef := nameX
  runRef := nameX
  searchRef := nameX
  intervention := nameX
  estimatedCostUsd := numeral '5' (by decide)
  createdAt := numeral '1' (by decide)

def costly : ExperimentSpec := { modest with estimatedCostUsd := numeral '9' (by decide) }

theorem proper_of_fields {s : ExperimentSpec} (hcontrol : Distinct s.control)
    (hclaims : Distinct (.array s.predictionClaims)) (hconditions : Distinct (.array s.falsificationConditions))
    (hconfounders : Distinct (.array s.confounders)) (hrule : Distinct s.stoppingRule)
    (hcost : Distinct s.estimatedCostUsd) (happroved : Distinct s.approvedBy) (hcreated : Distinct s.createdAt) :
    s.Proper H := by
  refine distinct_object.mpr ⟨nodup_toJson s, ?_⟩
  simp only [ExperimentSpec.toJson, ExperimentSpec.hashed, List.cons_append, List.nil_append, List.forall_mem_cons]
  exact ⟨trivial, trivial, trivial, trivial, trivial, trivial, trivial, trivial, trivial, hcontrol, hclaims,
    hconditions, hconfounders, hrule, hcost, happroved, hcreated, fun p hp => (List.not_mem_nil hp).elim⟩

theorem modest_proper : modest.Proper textHash :=
  proper_of_fields trivial trivial trivial trivial trivial trivial trivial trivial

theorem costly_proper : costly.Proper textHash :=
  proper_of_fields trivial trivial trivial trivial trivial trivial trivial trivial

/-- The file of `modest` with another estimate under the old hash. -/
def inflated : Members := (modest.toJson textHash).set 14 ("estimated_cost_usd".toList, numeral '9' (by decide))

theorem inflated_distinct : Distinct (.object inflated) := by
  refine distinct_object.mpr ⟨by decide, fun p hp => ?_⟩
  cases List.mem_or_eq_of_mem_set hp with
  | inl hmem => exact (distinct_object.mp modest_proper).2 p hmem
  | inr heq =>
    rw [heq]
    trivial

/-- One process puts, the file is edited, and the other process puts other content. -/
def putThenInflate : List (Event textHash Bool Unit) :=
  [.work false (.put ⟨modest, modest_proper⟩), .work false .look, .work false .replace,
    .edit () ⟨inflated, inflated_distinct⟩, .work true (.put ⟨costly, costly_proper⟩), .work true .look,
    .work true .compare]

theorem frozen_of_careful_inflated :
    Everywhere (step fun _ => ()) (fun st => ∀ p, (st.cells p).Keeps textHash) ({} : Store Bool Unit)
      putThenInflate := by
  apply frozen_of_careful textHash (fun _ => ()) putThenInflate
  intro called hcalled
  obtain rfl := Option.some.inj hcalled
  refine ⟨trivial, fun missed hmissed => ?_⟩
  obtain rfl := Option.some.inj hmissed
  refine ⟨trivial, fun written hwritten => ?_⟩
  obtain rfl := Option.some.inj hwritten
  refine ⟨fun s₀ hs₀ => (nomatch hs₀), fun edited _ => ⟨fun old hold k hk => ?_, ?_⟩⟩
  · have hold : some (modest.toJson textHash) = some old := hold
    obtain rfl := Option.some.inj hold
    simp only [List.mem_cons, List.not_mem_nil, or_false] at hk
    obtain rfl | rfl | rfl := hk
    · rfl
    · rfl
    · rfl
  · exact fun _ _ => ⟨trivial, fun _ _ => ⟨trivial, fun _ _ => ⟨trivial, trivial⟩⟩⟩

/-- Both processes see no file, and the second replaces the spec whose put has returned. -/
def bothMiss : List (Event textHash Bool Unit) :=
  [.work false (.put ⟨modest, modest_proper⟩), .work true (.put ⟨costly, costly_proper⟩), .work false .look,
    .work true .look, .work false .replace, .work true .replace]

/-- The file of `modest` with an approver, under the hash that does not see it. -/
def approved : ExperimentSpec := { modest with approvedBy := .string "me".toList }

theorem approved_proper : approved.Proper textHash :=
  proper_of_fields trivial trivial trivial trivial trivial trivial trivial trivial

def approves : List (Event textHash Bool Unit) :=
  [.work false (.put ⟨modest, modest_proper⟩), .work false .look, .work false .replace,
    .edit () ⟨approved.toJson textHash, approved_proper⟩]

theorem replaced_and_approved :
    ¬Everywhere (step fun _ => ()) (fun st => ∀ p, (st.cells p).Keeps textHash) ({} : Store Bool Unit) bothMiss ∧
      ¬Everywhere (step fun _ => ()) (fun st => ∀ p, (st.cells p).Keeps textHash) ({} : Store Bool Unit) approves := by
  constructor
  · intro h
    obtain ⟨st, hst, hfrozen, hreturned⟩ : ∃ st, run (step fun _ => ()) ({} : Store Bool Unit) bothMiss = some st ∧
        (st.cells ()).frozen = some costly ∧ (st.cells ()).returned = [modest, costly] := ⟨_, rfl, rfl, rfl⟩
    obtain ⟨s₀, hs₀, hsame⟩ := (everywhere_last h hst ()).same modest (hreturned ▸ List.mem_cons_self)
    rw [hfrozen] at hs₀
    obtain rfl := Option.some.inj hs₀
    have hsorted := sorted_of_dumps costly_proper modest_proper ⟨_, rfl⟩ ⟨_, rfl⟩ hsame
    obtain ⟨x, hx, hcost⟩ := get_sorted hsorted (nodup_toJson modest) (get_toJson 14 rfl)
    rw [get_toJson 14 rfl] at hx
    obtain rfl := Option.some.inj hx
    exact absurd (congrArg render hcost) (by decide)
  · intro h
    obtain ⟨st, hst, hfrozen, hfile⟩ : ∃ st, run (step fun _ => ()) ({} : Store Bool Unit) approves = some st ∧
        (st.cells ()).frozen = some modest ∧ (st.cells ()).file = some (approved.toJson textHash) :=
      ⟨_, rfl, rfl, rfl⟩
    have hbudget : ¬SameBudget modest (approved.toJson textHash) := by
      intro hbudget
      have happrover := hbudget.approver
      rw [get_toJson 15 rfl] at happrover
      exact absurd (congrArg render happrover) (by decide)
    obtain ⟨e, he⟩ := (everywhere_last h hst ()).refuses modest _ hfrozen hfile hbudget
    rw [fromJson_toJson] at he
    exact nomatch he

end EvoHarness.Research.Frozen
