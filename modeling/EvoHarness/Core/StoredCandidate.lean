import EvoHarness.Core.Genome
import EvoHarness.Evaluation.Report

/-! The row of a candidate: what is stored of it, and what is read back. A JSON column is kept as the
document that `json.loads` reads from its text. -/
namespace EvoHarness.Core.PopulationStore
open PyText Json Evaluation Genome
open Hoare (bind_ok_iff)

inductive StoreFault where
  | permissionError
  | typeError (message : Text)
  | overflowError
  | integrityError
  | report (f : EvidenceFault)

def keyText : PyValue → Except StoreFault PyStr
  | .str s => .ok s
  | .none => .ok (some "null".toList)
  | .bool true => .ok (some "true".toList)
  | .bool false => .ok (some "false".toList)
  | .int z => .ok (some (Numeral.ofInt z).text)
  | .float (.finite n) => .ok (some n.text)
  | .float .nan => .ok (some "NaN".toList)
  | .float (.infinite true) => .ok (some "Infinity".toList)
  | .float (.infinite false) => .ok (some "-Infinity".toList)
  | _ => .error (.typeError "keys must be str, int, float, bool or None".toList)

def setKey (k : PyStr) (x : PyValue) : List (PyStr × PyValue) → List (PyStr × PyValue)
  | [] => [(k, x)]
  | p :: ps => if p.1 = k then (k, x) :: ps else p :: setKey k x ps

def collapse (ps : List (PyStr × PyValue)) : List (PyStr × PyValue) := ps.foldl (fun acc p => setKey p.1 p.2 acc) []

mutual

def reread : PyValue → Except StoreFault PyValue
  | .list xs => do return .list (← rereadItems xs)
  | .tuple xs => do return .list (← rereadItems xs)
  | .dict items => do return .dict ((collapse (← rereadPairs items)).map fun p => (.str p.1, p.2))
  | .other typeName => .error (.typeError ("Object of type ".toList ++ typeName ++ " is not JSON serializable".toList))
  | x => .ok x

def rereadItems : List PyValue → Except StoreFault (List PyValue)
  | [] => .ok []
  | x :: xs => do
    let y ← reread x
    return y :: (← rereadItems xs)

def rereadPairs : List (PyValue × PyValue) → Except StoreFault (List (PyStr × PyValue))
  | [] => .ok []
  | (k, x) :: items => do
    let key ← keyText k
    let y ← reread x
    return (key, y) :: (← rereadPairs items)

end

def rereadDict (items : List (PyValue × PyValue)) : Except StoreFault (List (PyValue × PyValue)) := do
  return (collapse (← rereadPairs items)).map fun p => (.str p.1, p.2)

abbrev Report := WireReport

def optionalDict : Option (List (PyValue × PyValue)) → PyValue
  | none => .none
  | some items => .dict items

def toJson (r : Report) : Evaluation.EvalReport where
  fitness := .float r.fitness
  passed := .bool r.passed
  fault := optionalStr r.fault
  visibleMetrics := .dict r.visibleMetrics
  hiddenMetrics := .dict r.hiddenMetrics
  notes := .str r.notes
  structuredFeedback := optionalDict r.structuredFeedback
  artifactsRef := optionalStr r.artifactsRef
  stdoutLog := .str r.stdoutLog
  stderrLog := .str r.stderrLog
  stageReached := .int r.stageReached
  executionTime := .float r.executionTime
  evalCostUsd := .float r.evalCostUsd
  nUnits := .int r.nUnits
  trustworthyUnits := optionalInt r.trustworthyUnits
  sem := .float r.sem
  faultKind := optionalStr r.faultKind

def rereadReport (r : Report) : Except StoreFault Evaluation.EvalReport := do
  let visibleMetrics ← rereadDict r.visibleMetrics
  let hiddenMetrics ← rereadDict r.hiddenMetrics
  let structuredFeedback ← r.structuredFeedback.mapM rereadDict
  return toJson { r with visibleMetrics, hiddenMetrics, structuredFeedback }

structure Candidate where
  id : Text
  code : Text
  generation : ℤ
  parentId : Option Text
  islandIdx : ℤ
  operator : Text
  workspaceKind : Text := "file".toList
  changeTitle : Text := []
  changeSummary : Text := []
  modelName : Text := []
  inspirationIds : List Text := []
  report : Option Report := none
  embedding : Option (List PyFloat) := none
  behaviorSignature : Option Text := none
  behaviorDuplicate : Bool := false
  childrenCount : ℤ := 0
  inArchive : Bool := false
  metadata : List (PyValue × PyValue) := []
  timestamp : Option PyFloat := some (.finite zero)

structure Row where
  id : Text
  code : Text
  generation : ℤ
  parentId : Option Text
  islandIdx : ℤ
  operator : Text
  changeTitle : Option Text
  changeSummary : Option Text
  modelName : Option Text
  inspirationIds : Option (List Text)
  report : Option Evaluation.EvalReport
  embedding : Option (List PyFloat)
  behaviorSignature : Option Text
  behaviorDuplicate : ℤ
  childrenCount : ℤ
  inArchive : ℤ
  metadata : Option (List (PyValue × PyValue))
  timestamp : Option PyFloat
  workspaceKind : Text

def isZero (n : Numeral) : Bool := !(n.text.takeWhile fun c => c ≠ 'e' ∧ c ≠ 'E').any fun c => '1' ≤ c && c ≤ '9'

def stamp (now : PyFloat) : Option PyFloat → PyFloat
  | none => now
  | some (.finite n) => if isZero n then now else .finite n
  | some x => x

def real : PyFloat → Option PyFloat
  | .nan => none
  | x => some x

def fits (z : ℤ) : Bool := -2 ^ 63 ≤ z && z < 2 ^ 63

def ofBool (b : Bool) : ℤ := if b then 1 else 0

def toRow (now : PyFloat) (c : Candidate) : Except StoreFault Row := do
  let report ← c.report.mapM rereadReport
  let metadata ← rereadDict c.metadata
  if fits c.generation && fits c.islandIdx && fits c.childrenCount then
    return {
      id := c.id
      code := c.code
      generation := c.generation
      parentId := c.parentId
      islandIdx := c.islandIdx
      operator := c.operator
      changeTitle := some c.changeTitle
      changeSummary := some c.changeSummary
      modelName := some c.modelName
      inspirationIds := some c.inspirationIds
      report
      embedding := c.embedding
      behaviorSignature := c.behaviorSignature
      behaviorDuplicate := ofBool c.behaviorDuplicate
      childrenCount := c.childrenCount
      inArchive := ofBool c.inArchive
      metadata := some metadata
      timestamp := real (stamp now c.timestamp)
      workspaceKind := c.workspaceKind }
  else .error .overflowError

def readReport (fm : EvidenceFormats) (r : Evaluation.EvalReport) : Except StoreFault Report :=
  match r.fromJson fm with
  | .ok w => .ok w
  | .error f => .error (.report f)

def fromRow (fm : EvidenceFormats) (row : Row) : Except StoreFault Candidate := do
  let report ← row.report.mapM (readReport fm)
  return {
    id := row.id
    code := row.code
    generation := row.generation
    parentId := row.parentId
    islandIdx := row.islandIdx
    operator := row.operator
    changeTitle := row.changeTitle.getD []
    changeSummary := row.changeSummary.getD []
    modelName := row.modelName.getD []
    inspirationIds := row.inspirationIds.getD []
    report
    embedding := row.embedding
    behaviorSignature := row.behaviorSignature
    behaviorDuplicate := row.behaviorDuplicate ≠ 0
    childrenCount := row.childrenCount
    inArchive := row.inArchive ≠ 0
    metadata := row.metadata.getD []
    timestamp := row.timestamp
    workspaceKind := if row.workspaceKind = [] then "file".toList else row.workspaceKind }

structure Store where
  readonly : Bool := false
  rows : List Row

/-- `assigned` is the island that `_assign_island` finds for a candidate without one. -/
def placed (assigned : ℤ) (c : Candidate) : Candidate := if c.islandIdx < 0 then { c with islandIdx := assigned } else c

def insert (now : PyFloat) (assigned : ℤ) (s : Store) (c : Candidate) : Except StoreFault (Store × Candidate) :=
  if s.readonly then .error .permissionError
  else do
    let row ← toRow now (placed assigned c)
    if s.rows.any (·.id = (placed assigned c).id) then .error .integrityError
    else return ({ s with rows := s.rows ++ [row] }, placed assigned c)

def get (fm : EvidenceFormats) (s : Store) (id : Text) : Except StoreFault (Option Candidate) :=
  (s.rows.find? (·.id = id)).mapM (fromRow fm)

def strKey : PyValue → Option PyStr
  | .str s => some s
  | _ => none

mutual

def plain : PyValue → Bool
  | .list xs => plainItems xs
  | .tuple _ => false
  | .dict items => plainPairs items && (items.map fun p => strKey p.1).Nodup
  | .other _ => false
  | _ => true

def plainItems : List PyValue → Bool
  | [] => true
  | x :: xs => plain x && plainItems xs

def plainPairs : List (PyValue × PyValue) → Bool
  | [] => true
  | (k, x) :: items => (strKey k).isSome && plain x && plainPairs items

end

def ofKey (p : PyStr × PyValue) : PyValue × PyValue := (.str p.1, p.2)

theorem setKey_new {k : PyStr} {x : PyValue} {ps : List (PyStr × PyValue)} (h : k ∉ ps.map (·.1)) :
    setKey k x ps = ps ++ [(k, x)] := by
  induction ps with
  | nil => rfl
  | cons p ps ih =>
    rw [List.map_cons, List.mem_cons, not_or] at h
    rw [setKey, if_neg (Ne.symm h.1), ih h.2, List.cons_append]

theorem length_setKey (k : PyStr) (x : PyValue) (ps : List (PyStr × PyValue)) :
    (setKey k x ps).length = ps.length + if k ∈ ps.map (·.1) then 0 else 1 := by
  induction ps with
  | nil => rfl
  | cons p ps ih =>
    by_cases hp : p.1 = k
    · simp [setKey, hp]
    · simp only [setKey, hp, if_false, List.length_cons, ih, List.map_cons, List.mem_cons, Ne.symm hp, false_or]
      omega

theorem length_collapseFrom (ps acc : List (PyStr × PyValue)) :
    (ps.foldl (fun acc p => setKey p.1 p.2 acc) acc).length ≤ acc.length + ps.length := by
  induction ps generalizing acc with
  | nil => exact le_rfl
  | cons p ps ih =>
    have hstep := ih (setKey p.1 p.2 acc)
    rw [length_setKey] at hstep
    rw [List.foldl_cons, List.length_cons]
    split at hstep <;> omega

theorem collapseFrom_eq {ps acc : List (PyStr × PyValue)} (hacc : (acc.map (·.1)).Nodup)
    (hlength : (ps.foldl (fun acc p => setKey p.1 p.2 acc) acc).length = acc.length + ps.length) :
    ps.foldl (fun acc p => setKey p.1 p.2 acc) acc = acc ++ ps ∧ ((acc ++ ps).map (·.1)).Nodup := by
  induction ps generalizing acc with
  | nil => simpa using hacc
  | cons p ps ih =>
    rw [List.foldl_cons, List.length_cons] at hlength
    have hnew : p.1 ∉ acc.map (·.1) := by
      intro hold
      have hstep := length_collapseFrom ps (setKey p.1 p.2 acc)
      rw [length_setKey, if_pos hold] at hstep
      omega
    have hset := setKey_new (x := p.2) hnew
    have hnodup : ((acc ++ [p]).map (·.1)).Nodup := by
      rw [List.map_append, List.map_singleton, List.nodup_append]
      exact ⟨hacc, List.nodup_singleton _, fun a ha b hb => by
        rw [List.mem_singleton.mp hb]
        exact fun he => hnew (he ▸ ha)⟩
    rw [hset] at hlength
    have hrest := ih hnodup (by rw [hlength, List.length_append]; simp; omega)
    rw [List.foldl_cons, hset]
    simpa using hrest

theorem collapseFrom_of_nodup {ps acc : List (PyStr × PyValue)} (h : ((acc ++ ps).map (·.1)).Nodup) :
    ps.foldl (fun acc p => setKey p.1 p.2 acc) acc = acc ++ ps := by
  induction ps generalizing acc with
  | nil => simp
  | cons p ps ih =>
    have hnew : p.1 ∉ acc.map (·.1) := by
      rw [List.map_append, List.nodup_append] at h
      intro hold
      exact h.2.2 _ hold _ List.mem_cons_self rfl
    rw [List.foldl_cons, setKey_new hnew, ih (by simpa using h)]
    simp

theorem length_rereadPairs {items : List (PyValue × PyValue)} {ps : List (PyStr × PyValue)}
    (h : rereadPairs items = .ok ps) : ps.length = items.length := by
  induction items generalizing ps with
  | nil =>
    cases h
    rfl
  | cons p items ih =>
    obtain ⟨k, x⟩ := p
    rw [rereadPairs, bind_ok_iff] at h
    obtain ⟨key, -, h⟩ := h
    obtain ⟨y, -, h⟩ := bind_ok_iff.mp h
    obtain ⟨qs, hqs, h⟩ := bind_ok_iff.mp h
    cases h
    rw [List.length_cons, List.length_cons, ih hqs]

theorem strKey_ofKey (ps : List (PyStr × PyValue)) :
    (ps.map ofKey).map (fun p => strKey p.1) = (ps.map (·.1)).map some := by
  rw [List.map_map, List.map_map]
  rfl

theorem rereadDict_iff {items : List (PyValue × PyValue)} :
    rereadDict items = .ok items ↔
      (∃ ps, rereadPairs items = .ok ps ∧ ps.map ofKey = items) ∧ (items.map fun p => strKey p.1).Nodup := by
  unfold rereadDict
  rw [bind_ok_iff]
  constructor
  · intro h
    obtain ⟨ps, hps, h⟩ := h
    have h : (collapse ps).map ofKey = items := Except.ok.inj h
    have hlength : (collapse ps).length = ps.length := by
      have := congrArg List.length h
      rw [List.length_map, ← length_rereadPairs hps] at this
      exact this
    have hnil : (([] : List (PyStr × PyValue)).map (·.1)).Nodup := List.nodup_nil
    obtain ⟨hall, hnodup⟩ := collapseFrom_eq hnil (hlength.trans (Nat.zero_add _).symm)
    have hsame : ps.map ofKey = items := by
      rw [← h]
      exact congrArg (List.map ofKey) hall.symm
    refine ⟨⟨ps, hps, hsame⟩, ?_⟩
    rw [← hsame, strKey_ofKey]
    exact hnodup.map (Option.some_injective _)
  · intro h
    obtain ⟨⟨ps, hps, hsame⟩, hnodup⟩ := h
    rw [← hsame, strKey_ofKey] at hnodup
    refine ⟨ps, hps, ?_⟩
    have hall : collapse ps = ps := collapseFrom_of_nodup hnodup.of_map
    exact congrArg Except.ok ((congrArg (List.map ofKey) hall).trans hsame)

theorem reread_dict {items : List (PyValue × PyValue)} :
    reread (.dict items) = .ok (.dict items) ↔ rereadDict items = .ok items := by
  rw [reread, rereadDict, bind_ok_iff, bind_ok_iff]
  constructor
  · intro h
    obtain ⟨ps, hps, h⟩ := h
    exact ⟨ps, hps, congrArg Except.ok (PyValue.dict.inj (Except.ok.inj h))⟩
  · intro h
    obtain ⟨ps, hps, h⟩ := h
    exact ⟨ps, hps, congrArg (fun items => Except.ok (PyValue.dict items)) (Except.ok.inj h)⟩

theorem reread_list {xs : List PyValue} : reread (.list xs) = .ok (.list xs) ↔ rereadItems xs = .ok xs := by
  rw [reread, bind_ok_iff]
  constructor
  · intro h
    obtain ⟨ys, hys, h⟩ := h
    exact PyValue.list.inj (Except.ok.inj h) ▸ hys
  · exact fun h => ⟨xs, h, rfl⟩

mutual

theorem reread_iff (x : PyValue) : reread x = .ok x ↔ plain x = true := by
  cases x with
  | list xs => rw [reread_list, rereadItems_iff xs, plain]
  | tuple xs =>
    rw [reread, bind_ok_iff, plain]
    constructor
    · intro h
      obtain ⟨ys, -, h⟩ := h
      exact PyValue.noConfusion (Except.ok.inj h)
    · exact fun h => Bool.noConfusion h
  | dict items => rw [reread_dict, rereadDict_iff, rereadPairs_iff items, plain, Bool.and_eq_true, decide_eq_true_eq]
  | other typeName => simp [reread, plain]
  | _ => simp [reread, plain]

theorem rereadItems_iff (xs : List PyValue) : rereadItems xs = .ok xs ↔ plainItems xs = true := by
  cases xs with
  | nil => simp [rereadItems, plainItems]
  | cons x xs =>
    rw [rereadItems, plainItems, Bool.and_eq_true, ← reread_iff x, ← rereadItems_iff xs, bind_ok_iff]
    constructor
    · intro h
      obtain ⟨y, hy, h⟩ := h
      obtain ⟨ys, hys, h⟩ := bind_ok_iff.mp h
      obtain ⟨rfl, rfl⟩ := List.cons.inj (Except.ok.inj h)
      exact ⟨hy, hys⟩
    · intro h
      exact ⟨x, h.1, bind_ok_iff.mpr ⟨xs, h.2, rfl⟩⟩

theorem rereadPairs_iff (items : List (PyValue × PyValue)) :
    (∃ ps, rereadPairs items = .ok ps ∧ ps.map ofKey = items) ↔ plainPairs items = true := by
  cases items with
  | nil => exact ⟨fun _ => rfl, fun _ => ⟨[], rfl, rfl⟩⟩
  | cons p items =>
    obtain ⟨k, x⟩ := p
    rw [plainPairs, Bool.and_eq_true, Bool.and_eq_true, ← reread_iff x, ← rereadPairs_iff items]
    constructor
    · intro h
      obtain ⟨ps, hps, hsame⟩ := h
      rw [rereadPairs, bind_ok_iff] at hps
      obtain ⟨key, -, hps⟩ := hps
      obtain ⟨y, hy, hps⟩ := bind_ok_iff.mp hps
      obtain ⟨qs, hqs, hps⟩ := bind_ok_iff.mp hps
      cases hps
      obtain ⟨hp, hrest⟩ := List.cons.inj hsame
      obtain ⟨rfl, rfl⟩ := Prod.mk.inj hp
      exact ⟨⟨rfl, hy⟩, qs, hqs, hrest⟩
    · intro h
      obtain ⟨⟨hk, hx⟩, qs, hqs, hrest⟩ := h
      cases k with
      | str s =>
        refine ⟨(s, x) :: qs, ?_, by rw [List.map_cons, hrest]; rfl⟩
        rw [rereadPairs, hx, hqs]
        rfl
      | _ => exact Bool.noConfusion hk

end

def plainDict (items : List (PyValue × PyValue)) : Bool := plain (.dict items)

theorem rereadDict_plain {items : List (PyValue × PyValue)} : rereadDict items = .ok items ↔ plainDict items = true := by
  rw [← reread_dict, reread_iff, plainDict]

section
variable {fm : EvidenceFormats} {name : String}

theorem wireMapping_ok {items a : List (PyValue × PyValue)} : wireMapping name (.dict items) = .ok a ↔ a = items := by
  rw [wireMapping, Except.ok.injEq, eq_comm]

theorem wireString_ok {s a : PyStr} : wireString name (.str s) = .ok a ↔ a = s := by
  rw [wireString, Except.ok.injEq, eq_comm]

theorem wireOptionalString_ok {s a : Option PyStr} : wireOptionalString name (optionalStr s) = .ok a ↔ a = s := by
  cases s with
  | none => rw [optionalStr, wireOptionalString, Except.ok.injEq, eq_comm]
  | some s => rw [optionalStr, wireOptionalString, Except.ok.injEq, eq_comm]

theorem wireOptionalMapping_ok {o a : Option (List (PyValue × PyValue))} :
    wireOptional (wireMapping name) (optionalDict o) = .ok a ↔ a = o := by
  cases o with
  | none => rw [optionalDict, wireOptional, Except.ok.injEq, eq_comm]
  | some items => simp [optionalDict, wireOptional, wireMapping, Except.map, eq_comm]

theorem wireInt_ok {z a : ℤ} : wireInt name (.int z) = .ok a ↔ 0 ≤ z ∧ a = z := by
  unfold wireInt
  by_cases hz : z < 0
  · simp [hz, wireNegative, mismatched, Int.not_le.mpr hz]
  · simp [hz, Int.not_lt.mp hz, eq_comm]

theorem wireOptionalInt_ok {o a : Option ℤ} :
    wireOptional (wireInt name) (optionalInt o) = .ok a ↔ (∀ z ∈ o, 0 ≤ z) ∧ a = o := by
  cases o with
  | none => simp [optionalInt, wireOptional, eq_comm]
  | some z =>
    cases hz : wireInt name (.int z) with
    | error f =>
      have hneg : ¬0 ≤ z := fun hz' => by
        rw [wireInt_ok.mpr ⟨hz', rfl⟩] at hz
        cases hz
      simp [optionalInt, wireOptional, hz, Except.map, hneg]
    | ok b =>
      obtain ⟨hpos, rfl⟩ := wireInt_ok.mp hz
      simp [optionalInt, wireOptional, hz, Except.map, hpos, eq_comm]

theorem wireNumber_ok {nonNegative : Bool} {x a : PyFloat} :
    wireNumber fm name nonNegative (.float x) = .ok a ↔ (nonNegative = true → x.negative = false) ∧ a = x := by
  rw [wireNumber, signed]
  by_cases hx : (nonNegative && x.negative) = true
  · rw [if_pos hx]
    rw [Bool.and_eq_true] at hx
    exact ⟨fun h => (nomatch h), fun h => absurd hx.2 (Bool.eq_false_iff.mp (h.1 hx.1))⟩
  · rw [if_neg hx, Except.ok.injEq]
    rw [Bool.and_eq_true, not_and] at hx
    exact ⟨fun h => ⟨fun hn => Bool.eq_false_iff.mpr (hx hn), h.symm⟩, fun h => h.2.symm⟩

theorem wireFaultKind_ok {s a : Option PyStr} :
    wireFaultKind (optionalStr s) = .ok a ↔ (∀ k ∈ s, PyStr.blank k = false) ∧ a = s := by
  cases s with
  | none =>
    rw [optionalStr, wireFaultKind, Except.ok.injEq]
    exact ⟨fun h => ⟨fun k hk => (nomatch hk), h.symm⟩, fun h => h.2.symm⟩
  | some k =>
    rw [optionalStr, wireFaultKind]
    by_cases hk : PyStr.blank k = true
    · rw [if_pos hk]
      exact ⟨fun h => (nomatch h), fun h => absurd hk (Bool.eq_false_iff.mp (h.1 k rfl))⟩
    · rw [if_neg hk, Except.ok.injEq]
      refine ⟨fun h => ⟨fun k' hk' => ?_, h.symm⟩, fun h => h.2.symm⟩
      exact Option.some.inj hk' ▸ Bool.eq_false_iff.mpr hk

end

structure Signed (r : Report) : Prop where
  trustworthyUnits : ∀ z ∈ r.trustworthyUnits, 0 ≤ z
  stageReached : 0 ≤ r.stageReached
  executionTime : r.executionTime.negative = false
  evalCostUsd : r.evalCostUsd.negative = false
  nUnits : 0 ≤ r.nUnits
  sem : r.sem.negative = false

theorem wireFinite_ok {fm : EvidenceFormats} {r w : Report} :
    wireFinite fm (toJson r) r.passed r.fitness r.faultKind = .ok w ↔ Signed r ∧ w = r := by
  simp only [wireFinite, toJson, bind_ok_iff, wireMapping_ok, wireOptionalMapping_ok, wireOptionalInt_ok,
    wireOptionalString_ok, wireString_ok, wireInt_ok, wireNumber_ok, forall_const, exists_eq_left]
  constructor
  · intro h
    obtain ⟨a, ⟨htrust, rfl⟩, b, ⟨hstage, rfl⟩, c, ⟨htime, rfl⟩, d, ⟨hcost, rfl⟩, e, ⟨hunits, rfl⟩, f, ⟨hsem, rfl⟩, h⟩ := h
    exact ⟨⟨htrust, hstage, htime, hcost, hunits, hsem⟩, (Except.ok.inj h).symm⟩
  · intro h
    obtain ⟨⟨htrust, hstage, htime, hcost, hunits, hsem⟩, rfl⟩ := h
    exact ⟨_, ⟨htrust, rfl⟩, _, ⟨hstage, rfl⟩, _, ⟨htime, rfl⟩, _, ⟨hcost, rfl⟩, _, ⟨hunits, rfl⟩, _, ⟨hsem, rfl⟩, rfl⟩

def isFinite : PyFloat → Bool
  | .finite _ => true
  | _ => false

structure Wireable (r : Report) : Prop extends Signed r where
  fitness : isFinite r.fitness = true
  faultKind : ∀ k ∈ r.faultKind, PyStr.blank k = false
  unmixed : r.passed = true → r.faultKind = none

theorem wireFitness_ok {fm : EvidenceFormats} {r : Report} :
    wireFitness fm (toJson r) r.passed r.faultKind r.fitness = .ok r ↔ isFinite r.fitness = true ∧ Signed r := by
  cases hx : r.fitness with
  | finite n =>
    rw [wireFitness, ← hx, wireFinite_ok]
    exact ⟨fun h => ⟨by rw [hx]; rfl, h.1⟩, fun h => ⟨h.2, rfl⟩⟩
  | nan =>
    refine ⟨fun h => ?_, fun h => nomatch h.1⟩
    have hzero := congrArg WireReport.fitness (Except.ok.inj h)
    exact PyFloat.noConfusion (hzero.trans hx)
  | infinite positive =>
    refine ⟨fun h => ?_, fun h => nomatch h.1⟩
    cases positive with
    | true =>
      have hzero := congrArg WireReport.fitness (Except.ok.inj h)
      exact PyFloat.noConfusion (hzero.trans hx)
    | false =>
      have hzero := congrArg WireReport.fitness (Except.ok.inj h)
      exact PyFloat.noConfusion (hzero.trans hx)

theorem fromJson_eq (fm : EvidenceFormats) (r : Report) : (toJson r).fromJson fm =
    (wireFaultKind (optionalStr r.faultKind) >>= fun faultKind =>
      if (r.passed && faultKind.isSome) = true then mismatched "passed report cannot carry fault_kind".toList
      else wireFitness fm (toJson r) r.passed faultKind r.fitness) := rfl

theorem fromJson_ok {fm : EvidenceFormats} {r : Report} : (toJson r).fromJson fm = .ok r ↔ Wireable r := by
  rw [fromJson_eq, bind_ok_iff]
  constructor
  · intro h
    obtain ⟨faultKind, hkind, h⟩ := h
    obtain ⟨hblank, rfl⟩ := wireFaultKind_ok.mp hkind
    by_cases hmixed : (r.passed && r.faultKind.isSome) = true
    · rw [if_pos hmixed] at h
      exact nomatch h
    · rw [if_neg hmixed] at h
      obtain ⟨hfinite, hsigned⟩ := wireFitness_ok.mp h
      refine ⟨hsigned, hfinite, hblank, fun hpassed => ?_⟩
      simpa [hpassed] using hmixed
  · intro h
    have hmixed : ¬(r.passed && r.faultKind.isSome) = true := by
      rw [Bool.and_eq_true, not_and]
      intro hpassed
      rw [h.unmixed hpassed]
      exact Bool.false_ne_true
    refine ⟨r.faultKind, wireFaultKind_ok.mpr ⟨h.faultKind, rfl⟩, ?_⟩
    rw [if_neg hmixed]
    exact wireFitness_ok.mpr ⟨h.fitness, h.toSigned⟩

/-- What `from_json` returns has a finite fitness, and is the report itself if that had one. -/
theorem fromJson_result {fm : EvidenceFormats} {r w : Report} (h : (toJson r).fromJson fm = .ok w) :
    isFinite w.fitness = true ∧ (isFinite r.fitness = true → w = r) := by
  rw [fromJson_eq, bind_ok_iff] at h
  obtain ⟨faultKind, hkind, h⟩ := h
  obtain ⟨-, rfl⟩ := wireFaultKind_ok.mp hkind
  split at h
  · exact nomatch h
  · cases hx : r.fitness with
    | finite n =>
      rw [hx, wireFitness, ← hx, wireFinite_ok] at h
      rw [h.2]
      exact ⟨by rw [hx]; rfl, fun _ => rfl⟩
    | nan =>
      rw [hx, wireFitness, Except.ok.injEq] at h
      exact ⟨h ▸ rfl, fun hnan => nomatch hnan⟩
    | infinite positive =>
      rw [hx] at h
      cases positive <;>
        · rw [wireFitness, Except.ok.injEq] at h
          exact ⟨h ▸ rfl, fun hinf => nomatch hinf⟩

theorem readReport_ok {fm : EvidenceFormats} {r w : Report} :
    readReport fm (toJson r) = .ok w ↔ (toJson r).fromJson fm = .ok w := by
  unfold readReport
  cases h : (toJson r).fromJson fm with
  | ok w' => simp
  | error f => simp

structure Storable (r : Report) : Prop extends Wireable r where
  visibleMetrics : plainDict r.visibleMetrics = true
  hiddenMetrics : plainDict r.hiddenMetrics = true
  structuredFeedback : ∀ items ∈ r.structuredFeedback, plainDict items = true

theorem rereadOptional_iff {o : Option (List (PyValue × PyValue))} :
    o.mapM rereadDict = .ok o ↔ ∀ items ∈ o, plainDict items = true := by
  cases o with
  | none => exact ⟨fun _ _ h => (nomatch h), fun _ => rfl⟩
  | some items =>
    have hmap : (some items).mapM rereadDict = rereadDict items >>= fun items => .ok (some items) := rfl
    rw [hmap, bind_ok_iff]
    constructor
    · intro h items' hitems
      obtain ⟨a, ha, h⟩ := h
      cases h
      exact Option.some.inj hitems ▸ rereadDict_plain.mp ha
    · exact fun h => ⟨items, rereadDict_plain.mpr (h items rfl), rfl⟩

theorem report_back {fm : EvidenceFormats} {r : Report} :
    (rereadReport r >>= readReport fm) = .ok r ↔ Storable r := by
  unfold rereadReport
  rw [bind_ok_iff]
  constructor
  · intro h
    obtain ⟨e, he, h⟩ := h
    obtain ⟨visible, hvisible, he⟩ := bind_ok_iff.mp he
    obtain ⟨hidden, hhidden, he⟩ := bind_ok_iff.mp he
    obtain ⟨feedback, hfeedback, he⟩ := bind_ok_iff.mp he
    cases he
    have h := readReport_ok.mp h
    obtain ⟨hfinite, hsame⟩ := fromJson_result h
    have hsame := hsame hfinite
    have hv : visible = r.visibleMetrics := (congrArg WireReport.visibleMetrics hsame).symm
    have hh : hidden = r.hiddenMetrics := (congrArg WireReport.hiddenMetrics hsame).symm
    have hf : feedback = r.structuredFeedback := (congrArg WireReport.structuredFeedback hsame).symm
    subst hv hh hf
    exact ⟨fromJson_ok.mp h, rereadDict_plain.mp hvisible, rereadDict_plain.mp hhidden, rereadOptional_iff.mp hfeedback⟩
  · intro h
    refine ⟨toJson r, ?_, readReport_ok.mpr (fromJson_ok.mpr h.toWireable)⟩
    rw [rereadDict_plain.mpr h.visibleMetrics, rereadDict_plain.mpr h.hiddenMetrics,
      rereadOptional_iff.mpr h.structuredFeedback]
    rfl

structure Carried (c : Candidate) : Prop where
  report : ∀ r ∈ c.report, Storable r
  metadata : plainDict c.metadata = true
  kind : c.workspaceKind ≠ []

def stamped (now : PyFloat) (c : Candidate) : Candidate := { c with timestamp := real (stamp now c.timestamp) }

theorem ofBool_zero (b : Bool) : decide (ofBool b = 0) = !b := by
  cases b <;> rfl

theorem optionalReport_back {fm : EvidenceFormats} {o : Option Report} {e : Option Evaluation.EvalReport}
    (he : o.mapM rereadReport = .ok e) : e.mapM (readReport fm) = .ok o ↔ ∀ r ∈ o, Storable r := by
  cases o with
  | none =>
    cases he
    exact ⟨fun _ _ h => (nomatch h), fun _ => rfl⟩
  | some r =>
    have hmap : (some r).mapM rereadReport = rereadReport r >>= fun e => .ok (some e) := rfl
    rw [hmap, bind_ok_iff] at he
    obtain ⟨e, hr, he⟩ := he
    cases he
    have hback : (some e).mapM (readReport fm) = readReport fm e >>= fun r => .ok (some r) := rfl
    have hreport : readReport fm e = .ok r ↔ Storable r := by
      rw [← report_back, hr]
      rfl
    rw [hback, bind_ok_iff]
    constructor
    · intro h r' hr'
      obtain ⟨w, hw, h⟩ := h
      cases h
      exact Option.some.inj hr' ▸ hreport.mp hw
    · exact fun h => ⟨r, hreport.mpr (h r rfl), rfl⟩

theorem row_back {fm : EvidenceFormats} {now : PyFloat} {c : Candidate} {row : Row} (hrow : toRow now c = .ok row) :
    fromRow fm row = .ok (stamped now c) ↔ Carried c := by
  obtain ⟨e, he, hrow⟩ := bind_ok_iff.mp hrow
  obtain ⟨metadata, hmetadata, hrow⟩ := bind_ok_iff.mp hrow
  split at hrow
  case isFalse => exact nomatch hrow
  case isTrue =>
    cases hrow
    unfold fromRow
    rw [bind_ok_iff]
    constructor
    · intro h
      obtain ⟨o, ho, h⟩ := h
      have h := Except.ok.inj h
      have hreport : o = c.report := congrArg Candidate.report h
      have hdict : metadata = c.metadata := congrArg Candidate.metadata h
      have hkind := congrArg Candidate.workspaceKind h
      subst hreport hdict
      refine ⟨(optionalReport_back he).mp ho, rereadDict_plain.mp hmetadata, fun hempty => ?_⟩
      simp [stamped, hempty] at hkind
    · intro h
      refine ⟨c.report, (optionalReport_back he).mpr h.report, ?_⟩
      have hdict : metadata = c.metadata := Except.ok.inj (hmetadata.symm.trans (rereadDict_plain.mpr h.metadata))
      simp [stamped, hdict, h.kind, ofBool_zero, pure, Except.pure]

theorem toRow_id {now : PyFloat} {c : Candidate} {row : Row} (hrow : toRow now c = .ok row) : row.id = c.id := by
  obtain ⟨e, -, hrow⟩ := bind_ok_iff.mp hrow
  obtain ⟨metadata, -, hrow⟩ := bind_ok_iff.mp hrow
  split at hrow
  · cases hrow
    rfl
  · exact nomatch hrow

theorem insert_ok {now : PyFloat} {assigned : ℤ} {s s' : Store} {c c' : Candidate}
    (h : insert now assigned s c = .ok (s', c')) :
    c' = placed assigned c ∧ ∃ row, toRow now c' = .ok row ∧ (∀ r ∈ s.rows, r.id ≠ c'.id) ∧
      s' = { s with rows := s.rows ++ [row] } := by
  unfold insert at h
  split at h
  · exact nomatch h
  · obtain ⟨row, hrow, h⟩ := bind_ok_iff.mp h
    by_cases hold : s.rows.any (·.id = (placed assigned c).id) = true
    · rw [if_pos hold] at h
      exact nomatch h
    · rw [if_neg hold] at h
      obtain ⟨rfl, rfl⟩ := Prod.mk.inj (Except.ok.inj h)
      refine ⟨rfl, row, hrow, fun r hr hid => ?_, rfl⟩
      exact hold (List.any_eq_true.mpr ⟨r, hr, decide_eq_true hid⟩)

theorem get_insert {fm : EvidenceFormats} {now : PyFloat} {assigned : ℤ} {s s' : Store} {c c' : Candidate}
    (h : insert now assigned s c = .ok (s', c')) :
    get fm s' c'.id = .ok (some (stamped now c')) ↔ Carried c' := by
  obtain ⟨-, row, hrow, hnew, rfl⟩ := insert_ok h
  have hold : s.rows.find? (·.id = c'.id) = none := by
    rw [List.find?_eq_none]
    exact fun r hr => by simpa using hnew r hr
  have hfind : (s.rows ++ [row]).find? (·.id = c'.id) = some row := by
    rw [List.find?_append, hold, Option.none_or, List.find?_singleton, if_pos (decide_eq_true (toRow_id hrow))]
  have hback : (some row).mapM (fromRow fm) = fromRow fm row >>= fun c => .ok (some c) := rfl
  rw [get, hfind, hback, bind_ok_iff, ← @row_back fm _ _ _ hrow]
  constructor
  · intro h
    obtain ⟨c, hc, h⟩ := h
    cases h
    exact hc
  · exact fun h => ⟨_, h, rfl⟩

def withGenome (w : Genome.Workspace) (c : Candidate) : Candidate :=
  { c with code := w.serialize, workspaceKind := w.kind }

theorem load_serialize (git : Git) (w : Genome.Workspace) :
    ∃ w', Genome.Workspace.load w.kind w.serialize = .ok w' ∧ w'.mainText git = w.mainText git ∧
      (w' = w ↔ ∀ f, w = .file f → f.filename = "main.py".toList) := by
  cases w with
  | file f =>
    refine ⟨.file { code := f.code }, rfl, rfl, ?_⟩
    constructor
    · intro h g hg
      cases hg
      exact (congrArg FileWorkspace.filename (Genome.Workspace.file.inj h)).symm
    · intro h
      have hname := h f rfl
      cases f
      rw [← hname]
  | git w =>
    have hload : Genome.Workspace.load (Genome.Workspace.git w).kind (Genome.Workspace.git w).serialize = .ok (.git w) := by
      have hkind : (Genome.Workspace.git w).kind ≠ "file".toList := by
        simp only [Genome.Workspace.kind]
        decide
      rw [Genome.Workspace.load, if_neg hkind]
      simp [Genome.Workspace.kind, Genome.Workspace.serialize, w.deserialize_serialize, Except.map]
    exact ⟨.git w, hload, rfl, iff_of_true rfl fun f hf => (nomatch hf)⟩

theorem kind_ne_nil (w : Genome.Workspace) : w.kind ≠ [] := by
  cases w <;> simp [Genome.Workspace.kind]

/-- A candidate is read back as it was stored, with the time of its row, exactly when JSON carries its
report and its metadata. Its workspace has the same main text, and is the same exactly when it is
kept in git or in `main.py`. -/
theorem candidate_read_back {fm : EvidenceFormats} {git : Git} {now : PyFloat} {assigned : ℤ} {s s' : Store}
    {w : Genome.Workspace} {c c' : Candidate} (h : insert now assigned s (withGenome w c) = .ok (s', c')) :
    (get fm s' c'.id = .ok (some (stamped now c')) ↔
      (∀ r ∈ c'.report, Storable r) ∧ plainDict c'.metadata = true) ∧
    ∃ w', Genome.Workspace.load c'.workspaceKind c'.code = .ok w' ∧ w'.mainText git = w.mainText git ∧
      (w' = w ↔ ∀ f, w = .file f → f.filename = "main.py".toList) := by
  have hplaced := (insert_ok h).1
  have hkind : c'.workspaceKind = w.kind := by
    rw [hplaced, placed]
    split <;> rfl
  have hcode : c'.code = w.serialize := by
    rw [hplaced, placed]
    split <;> rfl
  constructor
  · rw [get_insert h]
    exact ⟨fun h => ⟨h.report, h.metadata⟩, fun h => ⟨h.1, h.2, hkind ▸ kind_ne_nil w⟩⟩
  · rw [hkind, hcode]
    exact load_serialize git w

def program : Text := "x = 1\n".toList

def offspring : Candidate :=
  { id := "c1".toList, code := [], generation := 1, parentId := some "c0".toList, islandIdx := 0,
    operator := "revise".toList }

theorem one_isNumeral : isNumeral "1.0".toList = true := by decide

def noon : PyFloat := .finite ⟨"1.0".toList, one_isNumeral⟩

theorem main_read_back :
    ∃ s' c', insert noon 0 { rows := [] } (withGenome (.file { code := program }) offspring) = .ok (s', c') ∧
      ∀ fm git, get fm s' c'.id = .ok (some (stamped noon c')) ∧
        ∃ w', Genome.Workspace.load c'.workspaceKind c'.code = .ok w' ∧ w'.texts git = .ok [(["main.py".toList], program)] := by
  refine ⟨_, _, rfl, fun fm git => ?_⟩
  obtain ⟨hback, w', hload, -, hsame⟩ := @candidate_read_back fm git noon 0 { rows := [] } _
    (.file { code := program }) offspring _ rfl
  refine ⟨hback.mpr ⟨fun r hr => (nomatch hr), rfl⟩, w', hload, ?_⟩
  rw [hsame.mpr fun f hf => by cases hf; rfl]
  have hparts : parts "main.py".toList = ["main.py".toList] := by decide
  exact congrArg (fun p => Except.ok [(p, program)]) hparts

/-- The time of the row is not the one of the candidate, and the file has another name. -/
theorem solver_not_read_back :
    ∃ s' c', insert noon 0 { rows := [] } (withGenome (.file ⟨program, "solver.py".toList⟩) offspring) = .ok (s', c') ∧
      (∀ fm, get fm s' c'.id ≠ .ok (some c')) ∧
        ∀ git, Genome.Workspace.load c'.workspaceKind c'.code = .ok (.file { code := program }) ∧
          Genome.Workspace.texts git (.file { code := program }) ≠
            Genome.Workspace.texts git (.file ⟨program, "solver.py".toList⟩) := by
  refine ⟨_, _, rfl, fun fm hget => ?_, fun git => ⟨rfl, ?_⟩⟩
  · have hcarried : Carried (placed 0 (withGenome (.file ⟨program, "solver.py".toList⟩) offspring)) :=
      ⟨fun r hr => (nomatch hr), rfl, kind_ne_nil (.file ⟨program, "solver.py".toList⟩)⟩
    have hinsert : insert noon 0 { rows := [] } (withGenome (.file ⟨program, "solver.py".toList⟩) offspring) =
        .ok (_, placed 0 (withGenome (.file ⟨program, "solver.py".toList⟩) offspring)) := rfl
    have hback := (@get_insert fm _ _ _ _ _ _ hinsert).mpr hcarried
    have hsame := Option.some.inj (Except.ok.inj (hback.symm.trans hget))
    have htime := congrArg Candidate.timestamp hsame
    have htext : ("1.0".toList : Text) = "0.0".toList := by
      have hfloat := PyFloat.finite.inj (Option.some.inj htime)
      exact congrArg Numeral.text hfloat
    exact absurd htext (by decide)
  · intro hsame
    have hparts : parts "main.py".toList ≠ parts "solver.py".toList := by decide
    have htrees := Except.ok.inj hsame
    exact hparts (congrArg Prod.fst (List.cons.inj htrees).1)

end EvoHarness.Core.PopulationStore
