import EvoHarness.Evaluation.Evidence

/-! The line of an envelope is read back as that envelope. -/
namespace EvoHarness.Evaluation
open PyText Json Hoare
open Research (Coverage ScoreNamespace)

variable {fm : EvidenceFormats} {e : EvidenceEnvelope fm}

theorem sorted_optional {α : Type} {f : α → Value} (hf : ∀ a, sorted (f a) = f a) (a : Option α) :
    sorted (optional f a) = optional f a := by
  cases a with
  | none => exact sorted_null
  | some a => exact hf a

theorem get_arranged_at {ps : List (Text × Value)} (hps : (ps.map (·.1)).Nodup) {k : Text} {x : Value} (i : ℕ)
    (h : ps[i]? = some (k, x)) : get (arranged ps) k = some (sorted x) := by
  rw [get_arranged hps, get_of_mem hps (List.mem_of_getElem? h)]
  rfl

theorem keysAre_arranged {ps : List (Text × Value)} {names : List Text} (hps : (ps.map (·.1)).Nodup)
    (hkeys : ∀ k, k ∈ ps.map (·.1) ↔ k ∈ names) : keysAre (arranged ps) names = true := by
  rw [keysAre, Bool.and_eq_true, List.all_eq_true, List.all_eq_true]
  constructor
  · intro p hp
    have hmem : p.1 ∈ (arranged ps).map (·.1) := List.mem_map_of_mem hp
    rw [(keys_arranged ps).mem_iff, hkeys] at hmem
    exact decide_eq_true hmem
  · intro name hname
    rw [← hkeys] at hname
    obtain ⟨p, hp, hpname⟩ := List.mem_map.mp hname
    rw [get_arranged hps, ← hpname, get_of_mem hps hp]
    rfl

theorem namespace_back (n : ScoreNamespace) : namespaceFromJson (some (sorted (namespaceJson n))) = .ok n := by
  unfold namespaceJson
  generalize hps : [("criterion_hash".toList, Value.string n.criterionHash),
    ("measurement_hash".toList, .string n.measurementHash), ("evaluator_hash".toList, .string n.evaluatorHash),
    ("universe_hash".toList, .string n.universeHash)] = ps
  have hkeys : ps.map (·.1) = ["criterion_hash".toList, "measurement_hash".toList, "evaluator_hash".toList,
    "universe_hash".toList] := by rw [← hps]; rfl
  have hnodup : (ps.map (·.1)).Nodup := by
    rw [hkeys]
    decide
  rw [sorted_object_eq, namespaceFromJson]
  rw [keysAre_arranged hnodup (fun k => by rw [hkeys])]
  rw [get_arranged_at hnodup 0 (by rw [← hps]; rfl), get_arranged_at hnodup 1 (by rw [← hps]; rfl),
    get_arranged_at hnodup 2 (by rw [← hps]; rfl), get_arranged_at hnodup 3 (by rw [← hps]; rfl)]
  simp only [sorted_string]
  exact dif_pos n.nonempty

theorem coverageOf_self (c : Coverage) : coverageOf c.plannedUnits c.executedUnits c.trustworthyUnits = .ok c := by
  have hpositive : ∀ n : ℕ, ¬ (n : ℤ) < 0 := by omega
  unfold coverageOf
  rw [if_neg (hpositive _), if_neg (hpositive _), if_neg (hpositive _)]
  exact (dif_pos c.trustworthy_le).trans (dif_pos c.executed_le)

theorem coverage_back (c : Coverage) : decodeCoverage (some (sorted (coverageJson c))) = .ok c := by
  unfold coverageJson
  generalize hps : [("planned_units".toList, Value.number (.ofNat c.plannedUnits)),
    ("executed_units".toList, .number (.ofNat c.executedUnits)),
    ("trustworthy_units".toList, .number (.ofNat c.trustworthyUnits))] = ps
  have hkeys : ps.map (·.1) = ["planned_units".toList, "executed_units".toList, "trustworthy_units".toList] := by
    rw [← hps]
    rfl
  have hnodup : (ps.map (·.1)).Nodup := by
    rw [hkeys]
    decide
  rw [sorted_object_eq, decodeCoverage]
  rw [keysAre_arranged hnodup (fun k => by rw [hkeys])]
  rw [get_arranged_at hnodup 0 (by rw [← hps]; rfl), get_arranged_at hnodup 1 (by rw [← hps]; rfl),
    get_arranged_at hnodup 2 (by rw [← hps]; rfl)]
  simp only [sorted_number, strictInt, toInt?_ofNat]
  exact coverageOf_self c

theorem optionalBool_back (name : Text) (b : Option Bool) :
    optionalBool name (some (sorted (optional .bool b))) = .ok b := by
  rw [sorted_optional sorted_bool]
  cases b <;> rfl

theorem optionalText_back (message : Text) (t : Option Text) :
    optionalText message (some (sorted (optional .string t))) = .ok t := by
  rw [sorted_optional sorted_string]
  cases t <;> rfl

theorem faultText_back (k : Option FaultKind) :
    faultText (some (sorted (optional (fun k => .string k.value) k))) = .ok (k.map (·.value)) := by
  rw [sorted_optional fun k => sorted_string k.value]
  cases k <;> rfl

theorem faultOf_back (k : Option FaultKind) : faultOf (k.map (·.value)) = .ok k := by
  cases k with
  | none => rfl
  | some k =>
    rw [Option.map_some, faultOf, FaultKind.ofValue_value]

theorem float_back (name : Text) {n : Option Numeral} (hn : n.map fm.float = n.map some) :
    optionalFiniteFloat fm name (some (sorted (optional .number n))) = .ok n := by
  rw [sorted_optional sorted_number]
  cases n with
  | none => rfl
  | some n =>
    have hfloat : fm.float n = some n := Option.some.inj hn
    rw [optional, Option.map_some, Option.getD_some, optionalFiniteFloat, hfloat]

theorem texts_strings (message : Text) (ts : List Text) : texts message (ts.map .string) = .ok ts := by
  induction ts with
  | nil => rfl
  | cons t ts ih =>
    rw [List.map_cons, texts, ih]
    rfl

theorem make_self (e : EvidenceEnvelope fm) : EvidenceEnvelope.make fm e.toEvidenceBody = .ok e := by
  have hsorted : { e.toEvidenceBody with
      observations := sorted e.observations, provenance := sorted e.provenance } = e.toEvidenceBody := by
    rw [e.observations_sorted, e.provenance_sorted]
  unfold EvidenceEnvelope.make
  rw [dif_pos ⟨e.fitness_float, e.budget_float, e.observations_distinct, e.provenance_distinct⟩]
  split
  case h_1 hcheck =>
    rw [hsorted, e.checked] at hcheck
    exact nomatch hcheck
  case h_2 hcheck =>
    congr

def EvidenceBody.toJson (fm : EvidenceFormats) (b : EvidenceBody) : List (Text × Value) :=
  ("evidence_id".toList, .string (b.evidenceId fm)) :: b.content

theorem keys_bodyJson (b : EvidenceBody) : (b.toJson fm).map (·.1) = ["evidence_id".toList,
    "schema_version".toList, "candidate_id".toList, "namespace".toList, "evaluation_valid".toList,
    "admissible".toList, "fitness".toList, "fault_kind".toList, "coverage".toList, "objective_met".toList,
    "objective_verifier_hash".toList, "observations".toList, "missing_reasons".toList, "budget_used_usd".toList,
    "provenance".toList, "artifacts_ref".toList] := rfl

theorem nodup_bodyJson (b : EvidenceBody) : ((b.toJson fm).map (·.1)).Nodup := by
  rw [keys_bodyJson]
  decide

theorem nodup_toJson (e : EvidenceEnvelope fm) : (e.toJson.map (·.1)).Nodup := nodup_bodyJson e.toEvidenceBody

/-- The id of a body that is made into an envelope is the one that was computed for it. -/
theorem make_identified {b : EvidenceBody} (hobservations : sorted b.observations = b.observations)
    (hprovenance : sorted b.provenance = b.provenance) :
    ((EvidenceEnvelope.make fm b).bind fun e => e.identified (b.evidenceId fm)) = EvidenceEnvelope.make fm b := by
  cases hmake : EvidenceEnvelope.make fm b with
  | error f => rfl
  | ok e =>
    have hbody : e.toEvidenceBody = b := by
      rw [(make_ok_iff.mp hmake).2, hobservations, hprovenance]
    change e.identified (b.evidenceId fm) = .ok e
    unfold EvidenceEnvelope.identified
    rw [hbody, if_neg (show b.evidenceId fm ≠ _ from (fm.hash_real _).2), if_neg (fun h => h rfl)]

section Body
variable {b : EvidenceBody} (hfitness : b.fitness.map fm.float = b.fitness.map some)
  (hbudget : fm.float b.budgetUsedUsd = some b.budgetUsedUsd) (hobservations : sorted b.observations = b.observations)
  (hprovenance : sorted b.provenance = b.provenance)
include hfitness hbudget hobservations hprovenance

theorem decodeMembers_bodyJson : decodeMembers fm (arranged (b.toJson fm)) = EvidenceEnvelope.make fm b := by
  have hget : ∀ (i : ℕ) {k : Text} {x : Value}, (b.toJson fm)[i]? = some (k, x) →
      get (arranged (b.toJson fm)) k = some (sorted x) := fun i _ _ => get_arranged_at (nodup_bodyJson b) i
  unfold decodeMembers
  rw [hget 0 rfl, hget 2 rfl, hget 3 rfl, hget 4 rfl, hget 5 rfl, hget 6 rfl, hget 7 rfl, hget 8 rfl, hget 9 rfl,
    hget 10 rfl, hget 11 rfl, hget 12 rfl, hget 13 rfl, hget 14 rfl, hget 15 rfl]
  rw [namespace_back, coverage_back, optionalBool_back, optionalBool_back, optionalText_back, optionalText_back,
    faultText_back, float_back _ hfitness]
  rw [sorted_string, sorted_string, sorted_bool, sorted_number, sorted, sortedItems_strings]
  have hid : identifier (some (.string (b.evidenceId fm))) = .ok (b.evidenceId fm) := if_neg (fm.hash_real _).1
  have hspent : optionalFiniteFloat fm "budget_used_usd".toList (some (.number b.budgetUsedUsd)) =
      .ok (some b.budgetUsedUsd) := by rw [optionalFiniteFloat, hbudget]
  simp only [hid, reasonsOf, strictBool, hspent, candidateText, bind, Except.bind, faultOf_back, budgetOf,
    texts_strings, Option.getD_some, hobservations, hprovenance]
  exact make_identified hobservations hprovenance

/-- The encoding of a body is accepted exactly when the body itself is, and with the same error otherwise. -/
theorem decodeEvidence_bodyJson : decodeEvidence fm (sorted (.object (b.toJson fm))) = EvidenceEnvelope.make fm b := by
  rw [sorted_object_eq, decodeEvidence]
  have hversion : isOne (get (arranged (b.toJson fm)) "schema_version".toList) = true := by
    rw [get_arranged_at (nodup_bodyJson b) 1 rfl, sorted_number]
    decide
  have hnames : keysAre (arranged (b.toJson fm)) requiredNames = true := by
    apply keysAre_arranged (nodup_bodyJson b)
    intro k
    rw [keys_bodyJson]
    unfold requiredNames
    simp only [List.mem_cons, List.not_mem_nil, or_false]
    grind
  rw [hversion, hnames]
  exact decodeMembers_bodyJson hfitness hbudget hobservations hprovenance

end Body

theorem decodeEvidence_toJson (e : EvidenceEnvelope fm) : decodeEvidence fm (sorted (.object e.toJson)) = .ok e :=
  (decodeEvidence_bodyJson e.fitness_float e.budget_float e.observations_sorted e.provenance_sorted).trans (make_self e)

theorem object_toJson (e : EvidenceEnvelope fm) : IsObject (.object e.toJson) := ⟨_, rfl⟩

theorem distinct_namespaceJson (n : ScoreNamespace) : Distinct (namespaceJson n) := by
  refine ⟨?_, trivial, trivial, trivial, trivial, trivial⟩
  exact (by decide : (["criterion_hash".toList, "measurement_hash".toList, "evaluator_hash".toList,
    "universe_hash".toList] : List Text).Nodup)

theorem distinct_coverageJson (c : Coverage) : Distinct (coverageJson c) := by
  refine ⟨?_, trivial, trivial, trivial, trivial⟩
  exact (by decide : (["planned_units".toList, "executed_units".toList,
    "trustworthy_units".toList] : List Text).Nodup)

theorem distinct_toJson (e : EvidenceEnvelope fm) : Distinct (.object e.toJson) := by
  have hbool : ∀ b, Distinct (optional .bool b) := by
    intro b
    cases b <;> trivial
  have htext : ∀ t, Distinct (optional .string t) := by
    intro t
    cases t <;> trivial
  have hnumber : ∀ n, Distinct (optional .number n) := by
    intro n
    cases n <;> trivial
  have hkind : ∀ k, Distinct (optional (fun k : FaultKind => .string k.value) k) := by
    intro k
    cases k <;> trivial
  exact ⟨nodup_toJson e, trivial, trivial, trivial, distinct_namespaceJson _, trivial, hbool _, hnumber _, hkind _,
    distinct_coverageJson _, hbool _, htext _, e.observations_distinct, distinctItems_strings _, trivial, e.provenance_distinct, htext _,
    trivial⟩

theorem line_eq (e : EvidenceEnvelope fm) : e.line = textOf [] (.object e.toJson) := dumpsCompact_eq_textOf _

theorem loads_line (e : EvidenceEnvelope fm) : loads e.line = some (sorted (.object e.toJson)) := by
  rw [line_eq]
  exact loads_textOf (by simp) (distinct_toJson e) (object_toJson e)

theorem loads_line_cut (e : EvidenceEnvelope fm) {t u : Text} (htu : t ++ u = e.line) (hu : u ≠ []) :
    loads t = none := by
  rw [line_eq] at htu
  exact loads_textOf_cut (by simp) (distinct_toJson e) (object_toJson e) htu hu

end EvoHarness.Evaluation
