import EvoHarness.Core.Checkpoint
import EvoHarness.Library.JsonMembers
import EvoHarness.Research.Assessment

/-! `assessments.jsonl`: what the store appends to it, and what it reads back. -/
namespace EvoHarness.Research
open PyText Json EvoHarness.Core

def Verdict.value : Verdict → Text
  | .supported => "supported".toList
  | .contradicted => "contradicted".toList
  | .unknown => "unknown".toList

def statusOf : Value → Option Verdict
  | .string s =>
    if s = Verdict.supported.value then some .supported
    else if s = Verdict.contradicted.value then some .contradicted
    else if s = Verdict.unknown.value then some .unknown
    else none
  | _ => none

def claimKindOf : Value → Option ClaimKind
  | .string s =>
    if s = ClaimKind.candidateValid.value then some .candidateValid
    else if s = ClaimKind.objectiveMet.value then some .objectiveMet
    else if s = ClaimKind.hasAnyGain.value then some .hasAnyGain
    else if s = ClaimKind.betterThanReference.value then some .betterThanReference
    else if s = ClaimKind.noRegression.value then some .noRegression
    else none
  | _ => none

namespace ClaimAssessment

def toJson (a : ClaimAssessment) : List (Text × Value) :=
  [("schema_version".toList, .number (.ofNat 1)), ("claim_hash".toList, .string a.claimHash),
    ("claim_kind".toList, .string a.claimKind.value), ("status".toList, .string a.status.value),
    ("assessor_hash".toList, .string a.assessorHash), ("evidence_refs".toList, .array (a.evidenceRefs.map .string)),
    ("reasons".toList, .array (a.reasons.map .string))]

/-- `none` where it raises. No line of the store has other types than those of an assessment. -/
def fromJson : Value → Option ClaimAssessment
  | .object ps =>
    if isOne (get ps "schema_version".toList) = false then none
    else do
      let claimHash ← (get ps "claim_hash".toList).bind stringOf
      let claimKind ← (get ps "claim_kind".toList).bind claimKindOf
      let status ← (get ps "status".toList).bind statusOf
      let assessorHash ← (get ps "assessor_hash".toList).bind stringOf
      let evidenceRefs ← (get ps "evidence_refs".toList).elim (some []) stringsOf
      let reasons ← (get ps "reasons".toList).elim (some []) stringsOf
      return ⟨claimHash, claimKind, status, assessorHash, evidenceRefs, reasons⟩
  | _ => none

variable (a : ClaimAssessment)

theorem keys_toJson : (a.toJson.map (·.1)).Nodup := by
  exact (by decide : (["schema_version".toList, "claim_hash".toList, "claim_kind".toList, "status".toList,
    "assessor_hash".toList, "evidence_refs".toList, "reasons".toList] : List Text).Nodup)

theorem object_toJson : IsObject (.object a.toJson) := ⟨_, rfl⟩

theorem distinct_toJson : Distinct (.object a.toJson) :=
  ⟨a.keys_toJson, trivial, trivial, trivial, trivial, trivial, distinctItems_strings _, distinctItems_strings _, trivial⟩

def payload : Payload where
  value := .object a.toJson
  object := a.object_toJson
  distinct := a.distinct_toJson

theorem statusOf_value (v : Verdict) : statusOf (.string v.value) = some v := by
  cases v with
  | supported => rfl
  | contradicted => rfl
  | unknown => rfl

theorem claimKindOf_value (k : ClaimKind) : claimKindOf (.string k.value) = some k := by
  cases k with
  | candidateValid => rfl
  | objectiveMet => rfl
  | hasAnyGain => rfl
  | betterThanReference => rfl
  | noRegression => rfl

theorem fromJson_saved : fromJson a.payload.saved = some a := by
  have hget : ∀ {k : Text} {x : Value}, (k, x) ∈ a.toJson → get (arranged a.toJson) k = some (sorted x) := by
    intro k x hmem
    rw [get_arranged a.keys_toJson, get_of_mem a.keys_toJson hmem, Option.map_some]
  have hsaved : a.payload.saved = .object (arranged a.toJson) := sorted_object_eq a.toJson
  have hrefs : sorted (.array (a.evidenceRefs.map .string)) = .array (a.evidenceRefs.map .string) := by
    rw [sorted, sortedItems_strings]
  have hreasons : sorted (.array (a.reasons.map .string)) = .array (a.reasons.map .string) := by
    rw [sorted, sortedItems_strings]
  have hversion : isOne (get (arranged a.toJson) "schema_version".toList) = true := by
    rw [hget (x := .number (.ofNat 1)) (by simp [toJson]), sorted_number]
    decide
  rw [hsaved, fromJson, if_neg (by rw [hversion]; decide), hget (x := .string a.claimHash) (by simp [toJson]),
    hget (x := .string a.claimKind.value) (by simp [toJson]), hget (x := .string a.status.value) (by simp [toJson]),
    hget (x := .string a.assessorHash) (by simp [toJson]), hget (x := .array (a.evidenceRefs.map .string)) (by simp [toJson]),
    hget (x := .array (a.reasons.map .string)) (by simp [toJson])]
  simp only [sorted_string, hrefs, hreasons, Option.bind_some, Option.elim_some, stringsOf_strings, statusOf_value,
    claimKindOf_value]
  rfl

theorem stringsItems_strings (ts : List Text) : stringsItems (ts.map .string) = ts := by
  induction ts with
  | nil => rfl
  | cons t ts ih => rw [List.map_cons, stringsItems, ih, strings, List.singleton_append]

theorem ascii_value (v : Verdict) : ∀ c ∈ v.value, c.toNat < 128 := by
  cases v with
  | supported => exact (by simp : ∀ c ∈ "supported".toList, c.toNat < 128)
  | contradicted => exact (by simp : ∀ c ∈ "contradicted".toList, c.toNat < 128)
  | unknown => exact (by simp : ∀ c ∈ "unknown".toList, c.toNat < 128)

theorem ascii_kind (k : ClaimKind) : ∀ c ∈ k.value, c.toNat < 128 := by
  cases k with
  | candidateValid => exact (by simp : ∀ c ∈ "candidate_valid".toList, c.toNat < 128)
  | objectiveMet => exact (by simp : ∀ c ∈ "objective_met".toList, c.toNat < 128)
  | hasAnyGain => exact (by simp : ∀ c ∈ "has_any_gain".toList, c.toNat < 128)
  | betterThanReference => exact (by simp : ∀ c ∈ "better_than_reference".toList, c.toNat < 128)
  | noRegression => exact (by simp : ∀ c ∈ "no_regression".toList, c.toNat < 128)

/-- A record has no line boundary that JSON leaves as it is if its hashes, references and reasons have none. -/
theorem plain_payload (h : ∀ t ∈ a.claimHash :: a.assessorHash :: (a.evidenceRefs ++ a.reasons), ∀ c ∈ t,
    ¬ (c.toNat = 133 ∨ c.toNat = 8232 ∨ c.toNat = 8233)) : Plain a.payload := by
  have hnames : ∀ t ∈ ["schema_version".toList, "claim_hash".toList, "claim_kind".toList, "status".toList,
      "assessor_hash".toList, "evidence_refs".toList, "reasons".toList], ∀ c ∈ t, c.toNat < 128 := by simp
  have hascii : ∀ t ∈ a.claimKind.value :: a.status.value :: ["schema_version".toList, "claim_hash".toList,
      "claim_kind".toList, "status".toList, "assessor_hash".toList, "evidence_refs".toList, "reasons".toList],
      ∀ c ∈ t, c.toNat < 128 :=
    List.forall_mem_cons.mpr ⟨ascii_kind _, List.forall_mem_cons.mpr ⟨ascii_value _, hnames⟩⟩
  intro t ht c hc
  have hwhere : t ∈ a.claimKind.value :: a.status.value :: ["schema_version".toList, "claim_hash".toList,
      "claim_kind".toList, "status".toList, "assessor_hash".toList, "evidence_refs".toList, "reasons".toList] ∨
      t ∈ a.claimHash :: a.assessorHash :: (a.evidenceRefs ++ a.reasons) := by
    simp only [payload, toJson, strings, stringsMembers, stringsItems_strings, List.mem_cons, List.mem_append,
      List.nil_append, List.append_nil, List.not_mem_nil, or_false] at ht ⊢
    grind
  cases hwhere with
  | inl hfixed =>
    have hlow := hascii t hfixed c hc
    omega
  | inr hown => exact h t hown c hc

theorem fromJson_object {x : Value} {a : ClaimAssessment} (h : fromJson x = some a) : IsObject x := by
  cases x with
  | object ps => exact ⟨ps, rfl⟩
  | null => cases h
  | bool b => cases h
  | number n => cases h
  | string s => cases h
  | array xs => cases h

end ClaimAssessment

/-- The file as the appends have left it, each of which may have been cut short after some of its bytes. -/
structure AssessmentLog where
  file : Option ByteArray
  written : ∃ appends : List (ClaimAssessment × ℕ), file = appends.foldl (fun file e => tornAppend file e.1.payload e.2) none

namespace AssessmentLog

theorem written_none : ∃ appends : List (ClaimAssessment × ℕ),
    (none : Option ByteArray) = appends.foldl (fun file e => tornAppend file e.1.payload e.2) none := ⟨[], rfl⟩

def empty : AssessmentLog := ⟨none, written_none⟩

variable (log : AssessmentLog) (a : ClaimAssessment)

theorem written_tear (k : ℕ) : ∃ appends : List (ClaimAssessment × ℕ),
    tornAppend log.file a.payload k = appends.foldl (fun file e => tornAppend file e.1.payload e.2) none := by
  obtain ⟨appends, hfile⟩ := log.written
  exact ⟨appends ++ [(a, k)], by rw [List.foldl_append, ← hfile]; rfl⟩

/-- The process dies when `k` bytes of the line are written. -/
def tear (k : ℕ) : AssessmentLog := ⟨tornAppend log.file a.payload k, log.written_tear a k⟩

def append : AssessmentLog := log.tear a (utf8 a.payload.line).size

/-- What `assessments` of the store returns, or `none` where it raises. -/
def assessments : Option (List ClaimAssessment) := (readJsonl log.file).bind fun vs => vs.mapM ClaimAssessment.fromJson

theorem append_file : (log.append a).file = appendJsonl log.file a.payload := by
  show tornAppend log.file a.payload _ = _
  unfold tornAppend appendJsonl
  rw [ByteArray.extract_zero_size]

variable {log a}

theorem assessments_eq_some {as : List ClaimAssessment} : log.assessments = some as ↔
    ∃ vs, readJsonl log.file = some vs ∧ vs.mapM ClaimAssessment.fromJson = some as := Option.bind_eq_some_iff

theorem objects_of_mapM {vs : List Value} : ∀ {as : List ClaimAssessment}, vs.mapM ClaimAssessment.fromJson = some as →
    ∀ v ∈ vs, IsObject v := by
  induction vs with
  | nil => exact fun _ v hv => (List.not_mem_nil hv).elim
  | cons x vs ih =>
    intro as h
    rw [List.mapM_cons] at h
    obtain ⟨a, ha, h⟩ := Option.bind_eq_some_iff.mp h
    obtain ⟨rest, hrest, _⟩ := Option.bind_eq_some_iff.mp h
    exact List.forall_mem_cons.mpr ⟨ClaimAssessment.fromJson_object ha, ih hrest⟩

/-- A record that leaves the file readable is read behind those from before it. -/
theorem assessments_append {prior later : List ClaimAssessment} (h : log.assessments = some prior)
    (h' : (log.append a).assessments = some later) : later = prior ++ [a] := by
  obtain ⟨vs, hvs, hprior⟩ := assessments_eq_some.mp h
  obtain ⟨ws, hws, hlater⟩ := assessments_eq_some.mp h'
  rw [append_file] at hws
  obtain rfl := readJsonl_append hvs (objects_of_mapM hprior) hws
  rw [List.mapM_append, hprior, List.mapM_cons, ClaimAssessment.fromJson_saved] at hlater
  exact (Option.some.inj hlater).symm

/-- Whole lines without a line boundary that JSON leaves as it is are read back. -/
theorem assessments_whole {as : List ClaimAssessment} (hfile : log.file = logOf (as.map ClaimAssessment.payload))
    (hplain : ∀ a ∈ as, Plain a.payload) : log.assessments = some as := by
  refine assessments_eq_some.mpr ⟨_, hfile ▸ (reads_iff _).mpr (List.forall_mem_map.mpr hplain), ?_⟩
  rw [List.map_map]
  clear hfile hplain
  induction as with
  | nil => rfl
  | cons a as ih =>
    rw [List.map_cons, List.mapM_cons, Function.comp_apply, ClaimAssessment.fromJson_saved, ih]
    rfl

end AssessmentLog
end EvoHarness.Research
