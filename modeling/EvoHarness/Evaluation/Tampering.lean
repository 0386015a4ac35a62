import EvoHarness.Evaluation.Sink
import EvoHarness.Library.JsonNumbers

/-! What `decode_evidence` accepts: how it reads each field of a mapping, and which changes of one
field it can tell. -/
namespace EvoHarness.Evaluation
open PyText Json Hoare
open Research (Coverage ScoreNamespace)

inductive Field where
  | evidenceId
  | candidateId
  | scoreNamespace
  | evaluationValid
  | admissible
  | fitness
  | faultKind
  | coverage
  | objectiveMet
  | objectiveVerifierHash
  | observations
  | missingReasons
  | budgetUsedUsd
  | provenance
  | artifactsRef
  | schemaVersion
deriving DecidableEq

def Field.name : Field → Text
  | .evidenceId => "evidence_id".toList
  | .candidateId => "candidate_id".toList
  | .scoreNamespace => "namespace".toList
  | .evaluationValid => "evaluation_valid".toList
  | .admissible => "admissible".toList
  | .fitness => "fitness".toList
  | .faultKind => "fault_kind".toList
  | .coverage => "coverage".toList
  | .objectiveMet => "objective_met".toList
  | .objectiveVerifierHash => "objective_verifier_hash".toList
  | .observations => "observations".toList
  | .missingReasons => "missing_reasons".toList
  | .budgetUsedUsd => "budget_used_usd".toList
  | .provenance => "provenance".toList
  | .artifactsRef => "artifacts_ref".toList
  | .schemaVersion => "schema_version".toList

def Field.all : List Field :=
  [.evidenceId, .candidateId, .scoreNamespace, .evaluationValid, .admissible, .fitness, .faultKind, .coverage,
    .objectiveMet, .objectiveVerifierHash, .observations, .missingReasons, .budgetUsedUsd, .provenance, .artifactsRef,
    .schemaVersion]

theorem Field.names : requiredNames = Field.all.map Field.name := rfl

theorem Field.mem_all (f : Field) : f ∈ Field.all := by
  cases f <;> decide

theorem Field.name_injective {f g : Field} (h : f.name = g.name) : f = g := by
  have hnodup : (Field.all.map Field.name).Nodup := by decide
  exact List.inj_on_of_nodup_map hnodup f.mem_all g.mem_all h

variable {fm : EvidenceFormats}

def ReadsFloat (fm : EvidenceFormats) (x : Value) : Option Numeral → Prop
  | none => x = .null
  | some m => ∃ n, x = .number n ∧ fm.float n = some m

def Reads (e : EvidenceEnvelope fm) (x : Value) : Field → Prop
  | .evidenceId => ∃ id, x = .string id ∧ id ≠ [] ∧ (id = "auto".toList ∨ id = e.evidenceId fm)
  | .candidateId => x = .string e.candidateId
  | .scoreNamespace => namespaceFromJson (some x) = .ok e.scoreNamespace
  | .evaluationValid => x = .bool e.evaluationValid
  | .admissible => x = optional .bool e.admissible
  | .fitness => ReadsFloat fm x e.fitness
  | .faultKind => x = optional (fun k => .string k.value) e.faultKind
  | .coverage => decodeCoverage (some x) = .ok e.coverage
  | .objectiveMet => x = optional .bool e.objectiveMet
  | .objectiveVerifierHash => x = optional .string e.objectiveVerifierHash
  | .observations => sorted x = e.observations ∧ Distinct x
  | .missingReasons => x = .array (e.missingReasons.map .string)
  | .budgetUsedUsd => ReadsFloat fm x (some e.budgetUsedUsd)
  | .provenance => sorted x = e.provenance ∧ Distinct x
  | .artifactsRef => x = optional .string e.artifactsRef
  | .schemaVersion => isOne (some x) = true

theorem identifier_ok_iff {x : Value} {id : Text} : identifier (some x) = .ok id ↔ x = .string id ∧ id ≠ [] := by
  cases x with
  | string t =>
    rw [identifier]
    split
    · next h => simp [mistyped, h]
    · next h =>
      rw [Except.ok.injEq, Value.string.injEq]
      exact ⟨fun h' => ⟨h', h' ▸ h⟩, And.left⟩
  | _ => simp [identifier, mistyped]

theorem optionalBool_ok_iff {name : Text} {x : Value} {b : Option Bool} :
    optionalBool name (some x) = .ok b ↔ x = optional .bool b := by
  cases x <;> cases b <;> simp [optionalBool, optional, mistyped]

theorem optionalText_ok_iff {message : Text} {x : Value} {t : Option Text} :
    optionalText message (some x) = .ok t ↔ x = optional .string t := by
  cases x <;> cases t <;> simp [optionalText, optional, mismatched]

theorem strictBool_ok_iff {name : Text} {x : Value} {b : Bool} :
    strictBool name (some x) = .ok b ↔ x = .bool b := by
  cases x <;> simp [strictBool, mistyped]

theorem candidateText_ok_iff {x : Value} {t : Text} : candidateText (some x) = .ok t ↔ x = .string t := by
  cases x <;> simp [candidateText, mismatched]

theorem optionalFiniteFloat_ok_iff {name : Text} {x : Value} {r : Option Numeral} :
    optionalFiniteFloat fm name (some x) = .ok r ↔ ReadsFloat fm x r := by
  cases x with
  | null => cases r <;> simp [optionalFiniteFloat, ReadsFloat]
  | number n =>
    cases hfloat : fm.float n with
    | none =>
      have hfails : ∃ f, optionalFiniteFloat fm name (some (.number n)) = .error f := by
        rw [optionalFiniteFloat, hfloat]
        dsimp only
        split <;> exact ⟨_, rfl⟩
      obtain ⟨f, hf⟩ := hfails
      rw [hf]
      refine iff_of_false (fun h => by cases h) ?_
      cases r <;> simp [ReadsFloat, hfloat]
    | some k =>
      rw [optionalFiniteFloat, hfloat]
      cases r <;> simp [ReadsFloat, hfloat]
  | _ => cases r <;> simp [optionalFiniteFloat, ReadsFloat, mistyped]

theorem budgetOf_ok_iff {n : Option Numeral} {m : Numeral} : budgetOf n = .ok m ↔ n = some m := by
  cases n <;> simp [budgetOf, mismatched]

theorem value_of_ofValue {t : Text} {k : FaultKind} (h : FaultKind.ofValue t = some k) : k.value = t := by
  simpa using List.find?_some h

theorem fault_ok_iff {x : Value} {k : Option FaultKind} :
    (∃ t, faultText (some x) = .ok t ∧ faultOf t = .ok k) ↔ x = optional (fun k => .string k.value) k := by
  constructor
  · rintro ⟨t, htext, hfault⟩
    cases x with
    | null =>
      cases htext
      cases hfault
      rfl
    | string s =>
      cases htext
      rw [faultOf] at hfault
      cases hvalue : FaultKind.ofValue s with
      | none => rw [hvalue] at hfault; cases hfault
      | some j =>
        rw [hvalue] at hfault
        cases hfault
        rw [optional, Option.map_some, Option.getD_some, value_of_ofValue hvalue]
    | _ => cases htext
  · rintro rfl
    cases k with
    | none => exact ⟨none, rfl, rfl⟩
    | some j =>
      refine ⟨some j.value, rfl, ?_⟩
      rw [faultOf, FaultKind.ofValue_value]

theorem texts_ok_iff {message : Text} {xs : List Value} {ts : List Text} :
    texts message xs = .ok ts ↔ xs = ts.map .string := by
  constructor
  · intro h
    induction xs generalizing ts with
    | nil =>
      cases h
      rfl
    | cons x xs ih =>
      cases x with
      | string t =>
        rw [texts, bind_ok_iff] at h
        obtain ⟨rest, hrest, hts⟩ := h
        cases hts
        rw [List.map_cons, ih hrest]
      | _ => cases h
  · rintro rfl
    exact texts_strings message ts

theorem reasonsOf_ok_iff {x : Value} {xs : List Value} : reasonsOf (some x) = .ok xs ↔ x = .array xs := by
  cases x <;> simp [reasonsOf, mistyped]

theorem identified_ok_iff {id : Text} {e e' : EvidenceEnvelope fm} : e.identified id = .ok e' ↔
    e' = e ∧ (id = "auto".toList ∨ id = e.evidenceId fm) := by
  unfold EvidenceEnvelope.identified
  split
  · next h =>
    rw [Except.ok.injEq]
    exact ⟨fun heq => ⟨heq.symm, .inl h⟩, fun heq => heq.1.symm⟩
  · next h =>
    split
    · next hne => exact iff_of_false (fun h => nomatch h) fun h' => h'.2.elim h hne
    · next heq =>
      rw [Except.ok.injEq]
      exact ⟨fun h' => ⟨h'.symm, .inr (not_not.mp heq)⟩, fun h' => h'.1.symm⟩

theorem keysAre_iff {ps : List (Text × Value)} {names : List Text} :
    keysAre ps names = true ↔ (∀ p ∈ ps, p.1 ∈ names) ∧ ∀ name ∈ names, (get ps name).isSome = true := by
  rw [keysAre, Bool.and_eq_true, List.all_eq_true, List.all_eq_true]
  simp only [decide_eq_true_eq]

variable {ps : List (Text × Value)} {e e' : EvidenceEnvelope fm}

theorem decodeMembers_ok_iff {x : Field → Value} (hx : ∀ f : Field, get ps f.name = some (x f)) :
    decodeMembers fm ps = .ok e ↔ ∀ f, f ≠ .schemaVersion → Reads e (x f) f := by
  unfold decodeMembers
  rw [show get ps "evidence_id".toList = _ from hx .evidenceId, show get ps "candidate_id".toList = _ from hx .candidateId,
    show get ps "namespace".toList = _ from hx .scoreNamespace,
    show get ps "evaluation_valid".toList = _ from hx .evaluationValid,
    show get ps "admissible".toList = _ from hx .admissible, show get ps "fitness".toList = _ from hx .fitness,
    show get ps "fault_kind".toList = _ from hx .faultKind, show get ps "coverage".toList = _ from hx .coverage,
    show get ps "objective_met".toList = _ from hx .objectiveMet,
    show get ps "objective_verifier_hash".toList = _ from hx .objectiveVerifierHash,
    show get ps "observations".toList = _ from hx .observations,
    show get ps "missing_reasons".toList = _ from hx .missingReasons,
    show get ps "budget_used_usd".toList = _ from hx .budgetUsedUsd,
    show get ps "provenance".toList = _ from hx .provenance,
    show get ps "artifacts_ref".toList = _ from hx .artifactsRef]
  simp only [bind_ok_iff, Option.getD_some, identifier_ok_iff, strictBool_ok_iff, optionalBool_ok_iff, optionalText_ok_iff,
    candidateText_ok_iff, optionalFiniteFloat_ok_iff, budgetOf_ok_iff, texts_ok_iff, reasonsOf_ok_iff, make_ok_iff,
    identified_ok_iff]
  constructor
  · rintro ⟨id, ⟨hid, hne⟩, raw, hraw, reasons, hreasons, space, hspace, valid, hvalid, admissible, hadmissible, fitness,
      hfitness, kind, hkind, coverage, hcoverage, met, hmet, budget, hbudget, candidate, hcandidate, spent, hspent, ref, href,
      missing, hmissing, verifier, hverifier, env, ⟨⟨-, -, hobservations, hprovenance⟩, hbody⟩, rfl, hident⟩ f hf
    have hfault : x .faultKind = optional (fun k => .string k.value) kind := fault_ok_iff.mp ⟨raw, hraw, hkind⟩
    cases f <;> simp_all [Reads]
  · intro h
    obtain ⟨id, hid, hne, hident⟩ := h .evidenceId (by decide)
    obtain ⟨raw, hraw, hkind⟩ := fault_ok_iff.mpr (h .faultKind (by decide))
    have hobservations := h .observations (by decide)
    have hprovenance := h .provenance (by decide)
    refine ⟨id, ⟨hid, hne⟩, raw, hraw, _, h .missingReasons (by decide), e.scoreNamespace, h .scoreNamespace (by decide),
      e.evaluationValid, h .evaluationValid (by decide), e.admissible, h .admissible (by decide), e.fitness,
      h .fitness (by decide), e.faultKind, hkind, e.coverage, h .coverage (by decide), e.objectiveMet,
      h .objectiveMet (by decide), some e.budgetUsedUsd, h .budgetUsedUsd (by decide), e.candidateId,
      h .candidateId (by decide), e.budgetUsedUsd, rfl, e.artifactsRef, h .artifactsRef (by decide), e.missingReasons, rfl,
      e.objectiveVerifierHash, h .objectiveVerifierHash (by decide), e,
      ⟨⟨e.fitness_float, e.budget_float, hobservations.2, hprovenance.2⟩, ?_⟩, rfl, hident⟩
    rw [hobservations.1, hprovenance.1]

/-- `decode_evidence` accepts a mapping with the right fields, each of which reads as that of the envelope. -/
theorem decodeEvidence_ok_iff : decodeEvidence fm (.object ps) = .ok e ↔
    (∀ p ∈ ps, p.1 ∈ requiredNames) ∧ ∀ f : Field, ∃ x, get ps f.name = some x ∧ Reads e x f := by
  have hnames : (∀ name ∈ requiredNames, (get ps name).isSome = true) ↔ ∀ f : Field, (get ps f.name).isSome = true := by
    rw [Field.names, List.forall_mem_map]
    exact ⟨fun h f => h f f.mem_all, fun h f _ => h f⟩
  rw [decodeEvidence]
  constructor
  · intro h
    split at h
    · cases h
    · next hversion =>
      split at h
      · cases h
      · next hkeys =>
        rw [Bool.not_eq_false, keysAre_iff, hnames] at hkeys
        have hx : ∀ f : Field, get ps f.name = some ((get ps f.name).get (hkeys.2 f)) := fun f => (Option.some_get _).symm
        refine ⟨hkeys.1, fun f => ⟨_, hx f, ?_⟩⟩
        by_cases hf : f = .schemaVersion
        · subst hf
          rw [Bool.not_eq_false, show get ps "schema_version".toList = _ from hx .schemaVersion] at hversion
          exact hversion
        · exact (decodeMembers_ok_iff hx).mp h f hf
  · rintro ⟨hkeys, hreads⟩
    choose x hx hread using hreads
    have hversion : isOne (get ps "schema_version".toList) = true := by
      rw [show get ps "schema_version".toList = _ from hx .schemaVersion]
      exact hread .schemaVersion
    have hall : keysAre ps requiredNames = true :=
      keysAre_iff.mpr ⟨hkeys, hnames.mpr fun f => by rw [hx f]; rfl⟩
    rw [hversion, hall]
    exact (decodeMembers_ok_iff hx).mpr fun f _ => hread f

def fieldJson (e : EvidenceEnvelope fm) : Field → Value
  | .evidenceId => .string (e.evidenceId fm)
  | .candidateId => .string e.candidateId
  | .scoreNamespace => namespaceJson e.scoreNamespace
  | .evaluationValid => .bool e.evaluationValid
  | .admissible => optional .bool e.admissible
  | .fitness => optional .number e.fitness
  | .faultKind => optional (fun k => .string k.value) e.faultKind
  | .coverage => coverageJson e.coverage
  | .objectiveMet => optional .bool e.objectiveMet
  | .objectiveVerifierHash => optional .string e.objectiveVerifierHash
  | .observations => e.observations
  | .missingReasons => .array (e.missingReasons.map .string)
  | .budgetUsedUsd => .number e.budgetUsedUsd
  | .provenance => e.provenance
  | .artifactsRef => optional .string e.artifactsRef
  | .schemaVersion => .number (.ofNat 1)

theorem get_toJson (e : EvidenceEnvelope fm) (f : Field) : get e.toJson f.name = some (fieldJson e f) := by
  have hmem : ∀ (i : ℕ) {p : Text × Value}, e.toJson[i]? = some p → p ∈ e.toJson := fun _ _ => List.mem_of_getElem?
  refine get_of_mem (nodup_toJson e) ?_
  cases f with
  | evidenceId => exact hmem 0 rfl
  | schemaVersion => exact hmem 1 rfl
  | candidateId => exact hmem 2 rfl
  | scoreNamespace => exact hmem 3 rfl
  | evaluationValid => exact hmem 4 rfl
  | admissible => exact hmem 5 rfl
  | fitness => exact hmem 6 rfl
  | faultKind => exact hmem 7 rfl
  | coverage => exact hmem 8 rfl
  | objectiveMet => exact hmem 9 rfl
  | objectiveVerifierHash => exact hmem 10 rfl
  | observations => exact hmem 11 rfl
  | missingReasons => exact hmem 12 rfl
  | budgetUsedUsd => exact hmem 13 rfl
  | provenance => exact hmem 14 rfl
  | artifactsRef => exact hmem 15 rfl

theorem content_eq (e : EvidenceEnvelope fm) : e.content =
    [Field.schemaVersion, .candidateId, .scoreNamespace, .evaluationValid, .admissible, .fitness, .faultKind, .coverage,
      .objectiveMet, .objectiveVerifierHash, .observations, .missingReasons, .budgetUsedUsd, .provenance,
      .artifactsRef].map fun f => (f.name, fieldJson e f) := rfl

theorem eq_of_content (h : sorted (.object e.content) = sorted (.object e'.content)) : e = e' := by
  have hnodup : ∀ e : EvidenceEnvelope fm, (e.content.map (·.1)).Nodup := fun e =>
    (nodup_toJson e).sublist (List.sublist_cons_self _ _)
  have hid : e.evidenceId fm = e'.evidenceId fm := by
    rw [EvidenceBody.evidenceId, EvidenceBody.evidenceId, dumpsCompact, dumpsCompact, h]
  have hsorted : sorted (.object e.toJson) = sorted (.object e'.toJson) := by
    refine sorted_object_congr (nodup_toJson e) (nodup_toJson e') fun k => ?_
    have hget : ∀ e : EvidenceEnvelope fm, get e.toJson k =
        if "evidence_id".toList = k then some (.string (e.evidenceId fm)) else get e.content k := by
      intro e
      rw [EvidenceEnvelope.toJson, Json.get, List.find?_cons]
      by_cases hk : "evidence_id".toList = k
      · simp only [hk, decide_true, if_true, Option.map_some]
      · simp only [hk, decide_false, if_false]
        rfl
    rw [hget, hget, hid]
    split
    · rfl
    · rw [sorted_object_eq, sorted_object_eq, Value.object.injEq] at h
      rw [← get_arranged (hnodup e), ← get_arranged (hnodup e'), h]
  have hback := decodeEvidence_toJson e
  rw [hsorted, decodeEvidence_toJson e'] at hback
  exact (Except.ok.inj hback).symm

theorem eq_of_evidenceId (hhash : Function.Injective fm.hash) (h : e.evidenceId fm = e'.evidenceId fm) : e = e' := by
  have hdistinct : ∀ e : EvidenceEnvelope fm, Distinct (.object e.content) := by
    intro e
    have hall := distinct_object.mp (distinct_toJson e)
    exact distinct_object.mpr ⟨hall.1.sublist (List.sublist_cons_self _ _), fun p hp => hall.2 p (List.mem_cons_of_mem _ hp)⟩
  exact eq_of_content (sorted_of_dumpsCompact (hdistinct e) (hdistinct e') ⟨_, rfl⟩ ⟨_, rfl⟩ (hhash h))

theorem Reads.fieldJson_eq {x : Value} {f : Field} (h : Reads e x f) (h' : Reads e' x f) (hf : f ≠ .evidenceId) :
    fieldJson e f = fieldJson e' f := by
  have hfloat : ∀ a b : Option Numeral, ReadsFloat fm x a → ReadsFloat fm x b → a = b := by
    intro a b ha hb
    cases a with
    | none => cases b <;> simp_all [ReadsFloat]
    | some m =>
      obtain ⟨n, rfl, hn⟩ := ha
      cases b with
      | none => exact nomatch hb
      | some m' =>
        obtain ⟨n', hn', hfloat⟩ := hb
        cases hn'
        exact hn.symm.trans hfloat
  cases f with
  | evidenceId => exact absurd rfl hf
  | schemaVersion => rfl
  | candidateId | evaluationValid | admissible | faultKind | objectiveMet | objectiveVerifierHash | missingReasons
  | artifactsRef => exact Eq.trans (Eq.symm h) h'
  | scoreNamespace =>
    have hspace := Except.ok.inj (Eq.trans (Eq.symm h) h')
    rw [fieldJson, fieldJson, hspace]
  | coverage =>
    have hcoverage := Except.ok.inj (Eq.trans (Eq.symm h) h')
    rw [fieldJson, fieldJson, hcoverage]
  | observations | provenance => exact Eq.trans (Eq.symm h.1) h'.1
  | fitness => rw [fieldJson, fieldJson, hfloat _ _ h h']
  | budgetUsedUsd => rw [fieldJson, fieldJson, Option.some.inj (hfloat _ _ h h')]

theorem namespace_alike {x : Value} {n : ScoreNamespace} (hx : Distinct x) (h : namespaceFromJson (some x) = .ok n) :
    Alike x (namespaceJson n) := by
  cases x with
  | object qs =>
    rw [namespaceFromJson] at h
    split at h
    · cases h
    · next hkeys =>
      rw [Bool.not_eq_false, keysAre_iff] at hkeys
      split at h
      · next a b c d ha hb hc hd =>
        split at h
        · cases h
          refine Alike.object_of_names (distinct_object.mp hx).1 (distinct_object.mp (distinct_namespaceJson _)).1 hkeys.1 (fun q hq => ?_) fun k hk => ?_
          · exact List.mem_map_of_mem (f := (·.1)) hq
          · simp only [List.mem_cons, List.not_mem_nil, or_false] at hk
            rcases hk with rfl | rfl | rfl | rfl
            · rw [ha]
              exact .some (Alike.refl _)
            · rw [hb]
              exact .some (Alike.refl _)
            · rw [hc]
              exact .some (Alike.refl _)
            · rw [hd]
              exact .some (Alike.refl _)
        · cases h
      · cases h
  | _ => cases h

theorem coverageOf_ok {planned executed trustworthy : ℤ} {c : Coverage}
    (h : coverageOf planned executed trustworthy = .ok c) :
    (c.plannedUnits : ℤ) = planned ∧ (c.executedUnits : ℤ) = executed ∧ (c.trustworthyUnits : ℤ) = trustworthy := by
  unfold coverageOf at h
  split at h
  · cases h
  · split at h
    · cases h
    · split at h
      · cases h
      · split at h
        · split at h
          · cases h
            refine ⟨?_, ?_, ?_⟩ <;> dsimp only <;> omega
          · cases h
        · cases h

theorem strictInt_alike {name : Text} {x : Option Value} {k : ℕ} (h : strictInt name x = .ok k) :
    Option.Rel Alike x (some (.number (.ofNat k))) := by
  unfold strictInt at h
  split at h
  · next n =>
    split at h
    · next z hz =>
      cases h
      exact .some (Alike.number_iff.mpr (by rw [value_of_toInt hz, value_ofNat]; rfl))
    · exact nomatch h
  · exact nomatch h

theorem coverage_alike {x : Value} {c : Coverage} (hx : Distinct x) (h : decodeCoverage (some x) = .ok c) :
    Alike x (coverageJson c) := by
  cases x with
  | object qs =>
    rw [decodeCoverage] at h
    split at h
    · cases h
    · next hkeys =>
      rw [Bool.not_eq_false, keysAre_iff] at hkeys
      simp only [bind_ok_iff] at h
      obtain ⟨planned, hplanned, executed, hexecuted, trustworthy, htrustworthy, hc⟩ := h
      obtain ⟨rfl, rfl, rfl⟩ := coverageOf_ok hc
      refine Alike.object_of_names (distinct_object.mp hx).1 (distinct_object.mp (distinct_coverageJson _)).1 hkeys.1 (fun q hq => ?_) fun k hk => ?_
      · exact List.mem_map_of_mem (f := (·.1)) hq
      · simp only [List.mem_cons, List.not_mem_nil, or_false] at hk
        rcases hk with rfl | rfl | rfl
        · exact strictInt_alike hplanned
        · exact strictInt_alike hexecuted
        · exact strictInt_alike htrustworthy
  | _ => cases h

/-- A value of a field that encoding does not change, up to how numbers are written. -/
def Plain (fm : EvidenceFormats) (x : Value) : Field → Prop
  | .evidenceId => x ≠ .string "auto".toList
  | .fitness | .budgetUsedUsd => ∀ n m, x = .number n → fm.float n = some m → n.value = m.value
  | .schemaVersion => x ≠ .bool true
  | _ => True

theorem ReadsFloat.alike_iff {x : Value} {r : Option Numeral} (h : ReadsFloat fm x r) :
    Alike x (optional .number r) ↔ ∀ n m, x = .number n → fm.float n = some m → n.value = m.value := by
  cases r with
  | none =>
    obtain rfl : x = .null := h
    exact iff_of_true (Alike.refl _) fun n m hn => nomatch hn
  | some k =>
    obtain ⟨n, rfl, hn⟩ := h
    refine Alike.number_iff.trans ⟨?_, fun hall => hall n k rfl hn⟩
    rintro hvalue n' m ⟨⟩ hm
    rw [hn] at hm
    cases hm
    exact hvalue

theorem isOne_iff {x : Value} : isOne (some x) = true ↔
    x = .bool true ∨ ∃ n, x = .number n ∧ (n.text = ['1'] ∨ n.text = "1.0".toList) := by
  cases x <;> simp [isOne]

theorem value_one {n : Numeral} (h : n.text = ['1'] ∨ n.text = "1.0".toList) : n.value = (Numeral.ofNat 1).value := by
  rw [value_ofNat, Numeral.value]
  have hsize : Json.sizeOf n.text = 1 := by
    rcases h with h | h <;> rw [h] <;> decide +kernel
  have hsign : n.text.head? ≠ some '-' := by
    rcases h with h | h <;> rw [h] <;> decide
  rw [if_neg hsign, hsize, Nat.cast_one]

theorem Reads.alike_iff {x : Value} {f : Field} (h : Reads e x f) (hx : Distinct x) :
    Alike x (fieldJson e f) ↔ Plain fm x f := by
  cases f with
  | evidenceId =>
    obtain ⟨id, rfl, -, hid⟩ := h
    have hne : e.evidenceId fm ≠ "auto".toList := (fm.hash_real _).2
    rw [fieldJson, Alike.string_iff, Plain, Ne, Value.string.injEq]
    exact ⟨fun h => h ▸ hne, hid.resolve_left⟩
  | schemaVersion =>
    rcases isOne_iff.mp h with rfl | ⟨n, rfl, hn⟩
    · exact iff_of_false (fun h => nomatch h) fun hne => hne rfl
    · exact iff_of_true (Alike.number_iff.mpr (value_one hn)) fun h => nomatch h
  | candidateId | evaluationValid | admissible | faultKind | objectiveMet | objectiveVerifierHash | missingReasons
  | artifactsRef =>
    obtain rfl : x = _ := h
    exact iff_of_true (Alike.refl _) trivial
  | scoreNamespace => exact iff_of_true (namespace_alike hx h) trivial
  | coverage => exact iff_of_true (coverage_alike hx h) trivial
  | observations =>
    refine iff_of_true (Alike.of_sorted ?_) trivial
    rw [fieldJson, ← h.1, sorted_sorted]
  | provenance =>
    refine iff_of_true (Alike.of_sorted ?_) trivial
    rw [fieldJson, ← h.1, sorted_sorted]
  | fitness => exact ReadsFloat.alike_iff h
  | budgetUsedUsd => exact ReadsFloat.alike_iff (r := some e.budgetUsedUsd) h

theorem alike_toJson_iff (hps : Distinct (.object ps)) (h : decodeEvidence fm (.object ps) = .ok e) :
    Alike (.object ps) (.object e.toJson) ↔ ∀ f x, get ps f.name = some x → Plain fm x f := by
  obtain ⟨hnames, hreads⟩ := decodeEvidence_ok_iff.mp h
  have hdistinct := distinct_object.mp hps
  have hplain : ∀ f x, get ps f.name = some x → (Alike x (fieldJson e f) ↔ Plain fm x f) := by
    intro f x hx
    obtain ⟨y, hy, hread⟩ := hreads f
    cases hx.symm.trans hy
    exact hread.alike_iff (hdistinct.2 _ (mem_of_get hx))
  constructor
  · intro halike f x hx
    have hrel := halike.get_rel hdistinct.1 (nodup_toJson e) f.name
    rw [hx, get_toJson] at hrel
    cases hrel with
    | some hrel => exact (hplain f x hx).mp hrel
  · intro hall
    have hkeys : ∀ p ∈ e.toJson, p.1 ∈ requiredNames := by
      intro p hp
      have hnames : ∀ k ∈ e.toJson.map (·.1), k ∈ requiredNames := by
        change ∀ k ∈ (e.toEvidenceBody.toJson fm).map (·.1), k ∈ requiredNames
        rw [keys_bodyJson]
        decide
      exact hnames p.1 (List.mem_map_of_mem hp)
    refine Alike.object_of_names hdistinct.1 (nodup_toJson e) hnames hkeys fun k hk => ?_
    rw [Field.names] at hk
    obtain ⟨f, -, rfl⟩ := List.mem_map.mp hk
    obtain ⟨x, hx, -⟩ := hreads f
    rw [hx, get_toJson]
    exact .some ((hplain f x hx).mpr (hall f x hx))

def Blind (fm : EvidenceFormats) (x v : Value) : Field → Prop
  | .evidenceId => v = .string "auto".toList
  | .fitness | .budgetUsedUsd => ∃ n m, x = .number n ∧ v = .number m ∧ fm.float m = fm.float n
  | .schemaVersion => v = .bool true
  | _ => False

theorem readsFloat_iff_blind {x v : Value} {r : Option Numeral} (hx : ReadsFloat fm x r) (hchanged : ¬Alike v x) :
    ReadsFloat fm v r ↔ ∃ n m, x = .number n ∧ v = .number m ∧ fm.float m = fm.float n := by
  cases r with
  | none =>
    obtain rfl : x = .null := hx
    refine iff_of_false ?_ fun ⟨n, m, hn, _⟩ => nomatch hn
    rintro rfl
    exact hchanged (Alike.refl _)
  | some k =>
    obtain ⟨n, rfl, hn⟩ := hx
    constructor
    · rintro ⟨m, rfl, hm⟩
      exact ⟨n, m, rfl, rfl, hm.trans hn.symm⟩
    · rintro ⟨n', m, hn', rfl, hm⟩
      cases hn'
      exact ⟨m, rfl, hm.trans hn⟩

theorem reads_iff_blind {x v : Value} {f : Field} (hread : Reads e x f) (hplain : Plain fm x f) (hx : Distinct x)
    (hv : Distinct v) (hchanged : ¬Alike v x) : Reads e v f ↔ Blind fm x v f := by
  have hnot : Reads e v f → ¬Plain fm v f := fun h hp =>
    hchanged (((h.alike_iff hv).mpr hp).trans ((hread.alike_iff hx).mpr hplain).symm)
  cases f with
  | evidenceId =>
    refine ⟨fun h => not_not.mp (hnot h), ?_⟩
    rintro rfl
    exact ⟨_, rfl, by decide, .inl rfl⟩
  | schemaVersion =>
    refine ⟨fun h => not_not.mp (hnot h), ?_⟩
    rintro rfl
    rfl
  | fitness => exact readsFloat_iff_blind hread hchanged
  | budgetUsedUsd => exact readsFloat_iff_blind (r := some e.budgetUsedUsd) hread hchanged
  | _ => exact iff_of_false (fun h => hnot h trivial) id

theorem eq_of_put (hhash : Function.Injective fm.hash) {f : Field} {v : Value}
    (hauto : get ps Field.evidenceId.name ≠ some (.string "auto".toList)) (h : decodeEvidence fm (.object ps) = .ok e)
    (h' : decodeEvidence fm (.object (put ps f.name v)) = .ok e') : e' = e := by
  have hreads := (decodeEvidence_ok_iff.mp h).2
  have hreads' := (decodeEvidence_ok_iff.mp h').2
  have hother : ∀ g, g ≠ f → ∃ x, get ps g.name = some x ∧ Reads e x g ∧ Reads e' x g := by
    intro g hg
    obtain ⟨x, hx, hread⟩ := hreads g
    obtain ⟨y, hy, hread'⟩ := hreads' g
    rw [get_put, if_neg fun heq => hg (Field.name_injective heq), hx] at hy
    cases hy
    exact ⟨x, hx, hread, hread'⟩
  by_cases hf : f = .evidenceId
  · subst hf
    refine eq_of_content ?_
    rw [content_eq, content_eq]
    refine congrArg (fun ps => sorted (.object ps)) (List.map_congr_left fun g hg => ?_)
    have hid : g ≠ .evidenceId := by
      rintro rfl
      exact absurd hg (by decide)
    obtain ⟨x, -, hread, hread'⟩ := hother g hid
    rw [hread'.fieldJson_eq hread hid]
  · obtain ⟨x, hx, ⟨id, rfl, -, hid⟩, id', hid', -, hread'⟩ := hother .evidenceId (Ne.symm hf)
    cases hid'
    have hne : id ≠ "auto".toList := by
      rintro rfl
      exact hauto hx
    exact eq_of_evidenceId hhash ((hread'.resolve_left hne).symm.trans (hid.resolve_left hne))

theorem decode_put_ok_iff (hhash : Function.Injective fm.hash) {f : Field} {v : Value}
    (hauto : get ps Field.evidenceId.name ≠ some (.string "auto".toList)) (h : decodeEvidence fm (.object ps) = .ok e) :
    (∃ e', decodeEvidence fm (.object (put ps f.name v)) = .ok e') ↔ Reads e v f := by
  obtain ⟨hnames, hreads⟩ := decodeEvidence_ok_iff.mp h
  obtain ⟨x, hx, -⟩ := hreads f
  constructor
  · rintro ⟨e', he'⟩
    obtain rfl := eq_of_put hhash hauto h he'
    obtain ⟨y, hy, hread⟩ := (decodeEvidence_ok_iff.mp he').2 f
    rw [get_put, if_pos rfl, hx] at hy
    cases hy
    exact hread
  · intro hread
    refine ⟨e, decodeEvidence_ok_iff.mpr ⟨mem_keys_put hnames, fun g => ?_⟩⟩
    rw [get_put]
    by_cases hg : g = f
    · subst hg
      exact ⟨v, by rw [if_pos rfl, hx]; rfl, hread⟩
    · rw [if_neg fun heq => hg (Field.name_injective heq)]
      exact hreads g

/-- Evidence identity: what was built is read back, by the same checks; and what was read is encoded again and tells every
change of a field, except for the values that are read as others. -/
theorem evidence_exact_iff (hhash : Function.Injective fm.hash) :
    (∀ e : EvidenceEnvelope fm, ∃ x, loads e.line = some x ∧ decodeEvidence fm x = .ok e) ∧
    (∀ b : EvidenceBody, b.fitness.map fm.float = b.fitness.map some → fm.float b.budgetUsedUsd = some b.budgetUsedUsd →
      sorted b.observations = b.observations → sorted b.provenance = b.provenance →
      decodeEvidence fm (sorted (.object (b.toJson fm))) = EvidenceEnvelope.make fm b) ∧
    ∀ (ps : List (Text × Value)) (e : EvidenceEnvelope fm) (f : Field) (x v : Value), Distinct (.object ps) → Distinct v →
      decodeEvidence fm (.object ps) = .ok e → get ps f.name = some x → ¬Alike v x →
      (Alike (.object ps) (.object e.toJson) ∧ (∃ fault, decodeEvidence fm (.object (put ps f.name v)) = .error fault) ↔
        (∀ g y, get ps g.name = some y → Plain fm y g) ∧ ¬Blind fm x v f) := by
  refine ⟨fun e => ⟨_, loads_line e, decodeEvidence_toJson e⟩, fun b => decodeEvidence_bodyJson, ?_⟩
  intro ps e f x v hps hv h hx hchanged
  rw [alike_toJson_iff hps h]
  refine and_congr_right fun hplain => ?_
  have hauto : get ps Field.evidenceId.name ≠ some (.string "auto".toList) := fun hid => hplain .evidenceId _ hid rfl
  obtain ⟨y, hy, hread⟩ := (decodeEvidence_ok_iff.mp h).2 f
  cases hx.symm.trans hy
  rw [← reads_iff_blind hread (hplain f x hx) ((distinct_object.mp hps).2 _ (mem_of_get hx)) hv hchanged,
    ← decode_put_ok_iff hhash hauto h]
  cases decodeEvidence fm (.object (put ps f.name v)) with
  | error fault => exact iff_of_true ⟨fault, rfl⟩ fun ⟨_, h⟩ => nomatch h
  | ok e' => exact iff_of_false (fun ⟨_, h⟩ => nomatch h) fun h => h ⟨e', rfl⟩

def taggedFormats : EvidenceFormats where
  float := some
  hash t := 'h' :: t
  float_float := float_some
  hash_real := marked_real
  float_zero := some_zero

theorem tagged_injective : Function.Injective taggedFormats.hash := fun _ _ h => (List.cons.inj h).2

def tagged : EvidenceEnvelope taggedFormats where
  toEvidenceBody := lostWorker
  checked := lostWorker_checked
  fitness_float := rfl
  budget_float := rfl
  observations_sorted := lostWorker_observations
  provenance_sorted := lostWorker_provenance
  observations_distinct := lostWorker_observed_once
  provenance_distinct := lostWorker_provided_once

theorem decode_arranged (e : EvidenceEnvelope fm) : decodeEvidence fm (.object (arranged e.toJson)) = .ok e := by
  rw [← sorted_object_eq]
  exact decodeEvidence_toJson e

theorem distinct_arranged (e : EvidenceEnvelope fm) : Distinct (.object (arranged e.toJson)) := by
  rw [← sorted_object_eq]
  exact distinct_sorted _ (distinct_toJson e)

theorem plain_arranged (e : EvidenceEnvelope fm) (g : Field) (y : Value) (h : get (arranged e.toJson) g.name = some y) :
    Plain fm y g := by
  have halike : Alike (.object (arranged e.toJson)) (.object e.toJson) := by
    refine Alike.of_sorted ?_
    rw [← sorted_object_eq, sorted_sorted]
  exact (alike_toJson_iff (distinct_arranged e) (decode_arranged e)).mp halike g y h

theorem evidence_exact_tagged :
    Alike (.object (arranged tagged.toJson)) (.object tagged.toJson) ∧ ∃ fault, decodeEvidence taggedFormats
      (.object (put (arranged tagged.toJson) Field.candidateId.name (.string "a2".toList))) = .error fault := by
  have hget : get (arranged tagged.toJson) Field.candidateId.name = some (.string "a1".toList) :=
    get_arranged_at (nodup_toJson tagged) 2 rfl
  have hchanged : ¬Alike (.string "a2".toList) (.string "a1".toList) := by
    rw [Alike.string_iff]
    decide
  exact ((evidence_exact_iff tagged_injective).2.2 _ tagged .candidateId _ (.string "a2".toList) (distinct_arranged tagged)
    trivial (decode_arranged tagged) hget hchanged).mpr ⟨plain_arranged tagged, id⟩

theorem evidence_id_auto : Function.Injective taggedFormats.hash ∧
    decodeEvidence taggedFormats (.object (arranged tagged.toJson)) = .ok tagged ∧
    ∃ id, get (arranged tagged.toJson) Field.evidenceId.name = some (.string id) ∧ id ≠ "auto".toList ∧
      ∃ e, decodeEvidence taggedFormats
        (.object (put (arranged tagged.toJson) Field.evidenceId.name (.string "auto".toList))) = .ok e := by
  have hget : get (arranged tagged.toJson) Field.evidenceId.name = some (.string (tagged.evidenceId taggedFormats)) :=
    get_arranged_at (nodup_toJson tagged) 0 rfl
  have hreads : Reads tagged (.string "auto".toList) .evidenceId := ⟨_, rfl, by decide, .inl rfl⟩
  refine ⟨tagged_injective, decode_arranged tagged, _, hget, (taggedFormats.hash_real _).2, ?_⟩
  exact (decode_put_ok_iff tagged_injective (fun h => plain_arranged tagged .evidenceId _ h rfl)
    (decode_arranged tagged)).mpr hreads

end EvoHarness.Evaluation
