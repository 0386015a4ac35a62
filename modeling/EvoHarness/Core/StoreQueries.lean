import EvoHarness.Core.StoredCandidate
import EvoHarness.Library.JsonNumbers
import Mathlib.Data.List.MinMax

/-! The queries of the store that decide in SQL which candidates count, and the properties of a candidate that decide
the same in Python. -/
namespace EvoHarness.Core.PopulationStore
open PyText Json Evaluation

/-- What `json_extract` makes of a value; the text of an array or of an object is not kept. -/
inductive SqlValue where
  | null
  | number (q : ℚ)
  | infinite (positive : Bool)
  | text (t : PyStr)
  | document

def jsonExtract : PyValue → SqlValue
  | .none => .null
  | .bool b => .number (if b then 1 else 0)
  | .int z => .number z
  | .float (.finite n) => .number n.value
  | .float .nan => .null
  | .float (.infinite positive) => .infinite positive
  | .str s => .text s
  | .list _ | .tuple _ | .dict _ | .other _ => .document

def SqlValue.equals (q : ℚ) : SqlValue → Option Bool
  | .null => none
  | .number p => some (p = q)
  | _ => some false

def SqlValue.orZero : SqlValue → SqlValue
  | .null => .number 0
  | v => v

def flagOf (row : Row) : SqlValue := jsonExtract (member (row.metadata.getD []) "quarantined".toList)

def notQuarantinedSql (row : Row) : Bool := (flagOf row).orZero.equals 1 = some false

def passedOf (row : Row) : SqlValue :=
  match row.report with
  | none => .null
  | some r => jsonExtract r.passed

def selectableSql (row : Row) : Bool := (passedOf row).equals 1 = some true && notQuarantinedSql row

def repairableSql (row : Row) : Bool := (passedOf row).equals 0 = some true && notQuarantinedSql row

namespace Candidate

def fitness (c : Candidate) : PyFloat := (c.report.map (·.fitness)).getD (.finite zero)

def quarantined (c : Candidate) : Bool :=
  match member c.metadata "quarantined".toList with
  | .bool b => b
  | _ => false

def passed (c : Candidate) : Bool := c.report.any (·.passed) && !c.quarantined

end Candidate

def quantity : PyFloat → ℚ
  | .finite n => n.value
  | _ => 0

variable (fm : EvidenceFormats)

def best (rows : List Row) : Except StoreFault (Option Candidate) := do
  let cands ← (rows.filter selectableSql).mapM (fromRow fm)
  return cands.argmax fun c => quantity c.fitness

structure Agrees (row : Row) (c : Candidate) : Prop where
  selectable : selectableSql row = true ↔ c.passed = true
  repairable : repairableSql row = true ↔ ∃ r, c.report = some r ∧ r.passed = false ∧ c.quarantined = false

def OneNumber (x : PyValue) : Prop := x = .int 1 ∨ ∃ n, x = .float (.finite n) ∧ n.value = 1

/-- If it has a report, the flag is no number that SQL takes for `true`, and a report that passed has a fitness that is
finite, unless the flag is set. -/
def Unambiguous (row : Row) : Prop :=
  ∀ r ∈ row.report, ¬OneNumber (member (row.metadata.getD []) "quarantined".toList) ∧
    (member (row.metadata.getD []) "quarantined".toList = .bool true ∨ r.passed = .bool false ∨
      ∃ x, wireNumber fm "fitness" false r.fitness = .ok x ∧ isFinite x = true)

variable {fm}

theorem wireFinite_keeps {r : Evaluation.EvalReport} {passed : Bool} {x : PyFloat} {faultKind : Option PyStr}
    {w : Report} (h : wireFinite fm r passed x faultKind = .ok w) : w.passed = passed ∧ w.fitness = x := by
  unfold wireFinite at h
  iterate 14 obtain ⟨_, _, h⟩ := Hoare.ok_of_bind h
  cases h
  exact ⟨rfl, rfl⟩

theorem fromJson_reads {r : Evaluation.EvalReport} {w : Report} (h : r.fromJson fm = .ok w) :
    ∃ b x, r.passed = .bool b ∧ wireNumber fm "fitness" false r.fitness = .ok x ∧ w.passed = (b && isFinite x) ∧
      isFinite w.fitness = true := by
  unfold Evaluation.EvalReport.fromJson at h
  obtain ⟨b, hb, h⟩ := Hoare.ok_of_bind h
  obtain ⟨x, hx, h⟩ := Hoare.ok_of_bind h
  obtain ⟨kind, _, h⟩ := Hoare.ok_of_bind h
  have hpassed : r.passed = .bool b := by
    unfold wirePassed at hb
    split at hb
    · rename_i b' hr
      rw [hr, Except.ok.inj hb]
    · exact nomatch hb
  refine ⟨b, x, hpassed, hx, ?_⟩
  split at h
  · exact nomatch h
  · cases x with
    | finite n =>
      obtain ⟨hw, hfitness⟩ := wireFinite_keeps h
      rw [hw, hfitness]
      exact ⟨(Bool.and_true b).symm, rfl⟩
    | nan =>
      rw [wireFitness, Except.ok.injEq] at h
      subst h
      exact ⟨(Bool.and_false b).symm, rfl⟩
    | infinite positive =>
      cases positive with
      | true =>
        rw [wireFitness, Except.ok.injEq] at h
        subst h
        exact ⟨(Bool.and_false b).symm, rfl⟩
      | false =>
        rw [wireFitness, Except.ok.injEq] at h
        subst h
        exact ⟨(Bool.and_false b).symm, rfl⟩

theorem notQuarantinedSql_iff (row : Row) : notQuarantinedSql row = true ↔
    member (row.metadata.getD []) "quarantined".toList ≠ .bool true ∧
      ¬OneNumber (member (row.metadata.getD []) "quarantined".toList) := by
  unfold notQuarantinedSql flagOf OneNumber
  rw [decide_eq_true_eq]
  cases member (row.metadata.getD []) "quarantined".toList with
  | bool b => cases b <;> simp [jsonExtract, SqlValue.orZero, SqlValue.equals]
  | int z => simp [jsonExtract, SqlValue.orZero, SqlValue.equals]
  | float x => cases x <;> simp [jsonExtract, SqlValue.orZero, SqlValue.equals]
  | none => simp [jsonExtract, SqlValue.orZero, SqlValue.equals]
  | str s => simp [jsonExtract, SqlValue.orZero, SqlValue.equals]
  | list xs => simp [jsonExtract, SqlValue.orZero, SqlValue.equals]
  | tuple xs => simp [jsonExtract, SqlValue.orZero, SqlValue.equals]
  | dict items => simp [jsonExtract, SqlValue.orZero, SqlValue.equals]
  | other typeName => simp [jsonExtract, SqlValue.orZero, SqlValue.equals]

theorem quarantined_iff {c : Candidate} : c.quarantined = true ↔ member c.metadata "quarantined".toList = .bool true := by
  unfold Candidate.quarantined
  split
  · rename_i b hb
    rw [hb, PyValue.bool.injEq]
  · rename_i hno
    exact ⟨fun h => (nomatch h), fun h => absurd h (hno true)⟩

theorem fromRow_reads {row : Row} {c : Candidate} (h : fromRow fm row = .ok c) :
    c.metadata = row.metadata.getD [] ∧ match row.report with
      | none => c.report = none
      | some r => ∃ w, c.report = some w ∧ r.fromJson fm = .ok w := by
  unfold fromRow at h
  obtain ⟨report, hreport, h⟩ := Hoare.ok_of_bind h
  cases h
  refine ⟨rfl, ?_⟩
  cases hr : row.report with
  | none =>
    rw [hr] at hreport
    exact (Except.ok.inj hreport).symm
  | some r =>
    rw [hr] at hreport
    have hread : readReport fm r >>= (fun w => .ok (some w)) = .ok report := hreport
    obtain ⟨w, hw, h⟩ := Hoare.ok_of_bind hread
    refine ⟨w, (Except.ok.inj h).symm, ?_⟩
    unfold readReport at hw
    split at hw
    · rename_i w' hw'
      rw [hw', Except.ok.inj hw]
    · exact nomatch hw

theorem passedOf_bool {row : Row} {r : Evaluation.EvalReport} {b : Bool} (hrow : row.report = some r)
    (hpassed : r.passed = .bool b) :
    ((passedOf row).equals 1 = some true ↔ b = true) ∧ ((passedOf row).equals 0 = some true ↔ b = false) := by
  unfold passedOf
  rw [hrow]
  dsimp only
  rw [hpassed]
  cases b <;> simp [jsonExtract, SqlValue.equals]

theorem flags_agree_iff {passed finite flag one : Prop} (h : flag → ¬one) :
    ((passed ∧ ¬flag ∧ ¬one ↔ (passed ∧ finite) ∧ ¬flag) ∧
      (¬passed ∧ ¬flag ∧ ¬one ↔ ¬(passed ∧ finite) ∧ ¬flag)) ↔ ¬one ∧ (flag ∨ ¬passed ∨ finite) := by
  by_cases hflag : flag
  · have hone := h hflag
    tauto
  · tauto

/-- On a row that can be read, SQL and Python agree exactly where nothing in it is ambiguous. -/
theorem agrees_iff {row : Row} {c : Candidate} (h : fromRow fm row = .ok c) : Agrees row c ↔ Unambiguous fm row := by
  obtain ⟨hmetadata, hreport⟩ := fromRow_reads h
  have hsql := notQuarantinedSql_iff row
  have hflag := quarantined_iff (c := c)
  rw [hmetadata] at hflag
  have hselect : selectableSql row = true ↔ (passedOf row).equals 1 = some true ∧ notQuarantinedSql row = true := by
    rw [selectableSql, Bool.and_eq_true, decide_eq_true_eq]
  have hrepair : repairableSql row = true ↔ (passedOf row).equals 0 = some true ∧ notQuarantinedSql row = true := by
    rw [repairableSql, Bool.and_eq_true, decide_eq_true_eq]
  cases hr : row.report with
  | none =>
    rw [hr] at hreport
    have hnull : passedOf row = .null := by rw [passedOf, hr]
    have hpassed : c.passed = false := by rw [Candidate.passed, hreport]; rfl
    refine iff_of_true ⟨?_, ?_⟩ (fun r hmem => by rw [hr] at hmem; exact nomatch hmem)
    · rw [hselect, hnull, hpassed]
      exact ⟨fun h => (nomatch h.1), fun h => nomatch h⟩
    · rw [hrepair, hnull, hreport]
      exact ⟨fun h => (nomatch h.1), fun ⟨_, h, _⟩ => nomatch h⟩
  | some r =>
    rw [hr] at hreport
    obtain ⟨w, hw, hread⟩ := hreport
    obtain ⟨b, x, hb, hx, hpassed, _⟩ := fromJson_reads hread
    obtain ⟨hone, hzero⟩ := passedOf_bool hr hb
    have hcand : c.passed = true ↔ w.passed = true ∧ ¬c.quarantined = true := by
      rw [Candidate.passed, hw, Bool.and_eq_true, Bool.not_eq_true', Bool.not_eq_true]
      rfl
    have hfailed : (∃ r, c.report = some r ∧ r.passed = false ∧ c.quarantined = false) ↔
        ¬w.passed = true ∧ ¬c.quarantined = true := by
      rw [hw, Bool.not_eq_true, Bool.not_eq_true]
      exact ⟨fun ⟨r, h, hp⟩ => Option.some.inj h ▸ hp, fun hp => ⟨w, rfl, hp⟩⟩
    have hkept : w.passed = true ↔ b = true ∧ isFinite x = true := by rw [hpassed, Bool.and_eq_true]
    have hunambiguous : Unambiguous fm row ↔ ¬OneNumber (member (row.metadata.getD []) "quarantined".toList) ∧
        (member (row.metadata.getD []) "quarantined".toList = .bool true ∨ b = false ∨ isFinite x = true) := by
      unfold Unambiguous
      rw [hr]
      constructor
      · intro hall
        obtain ⟨hno, hor⟩ := hall r rfl
        refine ⟨hno, hor.imp_right (Or.imp (fun hf => ?_) fun ⟨x', hx', hfinite⟩ => ?_)⟩
        · rw [hb] at hf
          exact PyValue.bool.inj hf
        · rw [hx] at hx'
          exact Except.ok.inj hx' ▸ hfinite
      · intro hall r' hr'
        cases hr'
        exact ⟨hall.1, hall.2.imp_right (Or.imp (fun hf => by rw [hb, hf]) fun hfinite => ⟨x, hx, hfinite⟩)⟩
    have hdistinct : member (row.metadata.getD []) "quarantined".toList = .bool true →
        ¬OneNumber (member (row.metadata.getD []) "quarantined".toList) := by
      intro hq hone
      rw [hq] at hone
      obtain hone | ⟨n, hone, _⟩ := hone
      · exact nomatch hone
      · exact nomatch hone
    have hnot : b = false ↔ ¬b = true := (Bool.not_eq_true b).symm ▸ Iff.rfl
    have hboth : Agrees row c ↔ (selectableSql row = true ↔ c.passed = true) ∧
        (repairableSql row = true ↔ ∃ r, c.report = some r ∧ r.passed = false ∧ c.quarantined = false) :=
      ⟨fun h => ⟨h.selectable, h.repairable⟩, fun h => ⟨h.1, h.2⟩⟩
    rw [hunambiguous, hboth, hselect, hone, hsql, hcand, hkept, hflag, hrepair, hzero, hsql, hfailed, hkept, hflag, hnot]
    exact flags_agree_iff hdistinct

end EvoHarness.Core.PopulationStore
