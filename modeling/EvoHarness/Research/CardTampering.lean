import EvoHarness.Research.DecisionCards
import EvoHarness.Evaluation.RoundTrip

/-! Which changes of a decision card are told when it is read. -/
namespace EvoHarness.Research.Cards
open PyText Json Hoare
open Evaluation (negative zero float_some some_zero)

inductive Field where
  | schemaVersion
  | requestId
  | kind
  | experimentId
  | question
  | alternatives
  | recommendedAction
  | evidenceRefs
  | uncertainty
  | consequenceOfWaiting
  | estimatedCosts
  | subjectHash
  | payload
  | createdAt
  | allowedActions
  | defaultAction
  | approvalRequired
deriving DecidableEq

def Field.name : Field → Text
  | .schemaVersion => "schema_version".toList
  | .requestId => "request_id".toList
  | .kind => "kind".toList
  | .experimentId => "experiment_id".toList
  | .question => "question".toList
  | .alternatives => "alternatives".toList
  | .recommendedAction => "recommended_action".toList
  | .evidenceRefs => "evidence_refs".toList
  | .uncertainty => "uncertainty".toList
  | .consequenceOfWaiting => "consequence_of_waiting".toList
  | .estimatedCosts => "estimated_costs".toList
  | .subjectHash => "subject_hash".toList
  | .payload => "payload".toList
  | .createdAt => "created_at".toList
  | .allowedActions => "allowed_actions".toList
  | .defaultAction => "default_action".toList
  | .approvalRequired => "approval_required".toList

def Field.covered : List Field :=
  [.kind, .experimentId, .question, .alternatives, .recommendedAction, .evidenceRefs, .uncertainty, .consequenceOfWaiting,
    .estimatedCosts, .subjectHash, .payload, .allowedActions, .defaultAction, .approvalRequired]

def Field.all : List Field :=
  [.schemaVersion, .requestId, .kind, .experimentId, .question, .alternatives, .recommendedAction, .evidenceRefs,
    .uncertainty, .consequenceOfWaiting, .estimatedCosts, .subjectHash, .payload, .createdAt, .allowedActions,
    .defaultAction, .approvalRequired]

theorem Field.names : fieldNames = Field.all.map Field.name := rfl

theorem Field.mem_all (f : Field) : f ∈ Field.all := by
  cases f <;> decide

theorem Field.name_injective {f g : Field} (h : f.name = g.name) : f = g := by
  have hnodup : (Field.all.map Field.name).Nodup := by decide
  exact List.inj_on_of_nodup_map hnodup f.mem_all g.mem_all h

theorem Field.mem_covered (f : Field) :
    f ∈ Field.covered ∨ f = .schemaVersion ∨ f = .requestId ∨ f = .createdAt := by
  cases f <;> decide

variable {fm : CardFormats}

def costsRead (fm : CardFormats) (x : Option Value) : Except CardFault (List (Value × Option Numeral)) :=
  tupleOf (x.getD (.array [])) >>= costPairs fm

def Reads (fm : CardFormats) (b : RequestBody) (x : Option Value) : Field → Prop
  | .schemaVersion => isOne x = true
  | .requestId => x = some (.string (b.requestId fm))
  | .kind => x = some (.string b.kind)
  | .experimentId => x = some (.string b.experimentId)
  | .question => x = some (.string b.question)
  | .alternatives => ∃ xs, tupleOf (x.getD (.array [])) = .ok xs ∧ sortedItems xs = b.alternatives
  | .recommendedAction => x = some (.string b.recommendedAction)
  | .evidenceRefs => tupleOf (x.getD (.array [])) = .ok (b.evidenceRefs.map .string)
  | .uncertainty => sorted (x.getD (.string [])) = b.uncertainty
  | .consequenceOfWaiting => sorted (x.getD (.string [])) = b.consequenceOfWaiting
  | .estimatedCosts => costsRead fm x = .ok (b.estimatedCosts.map fun p => (.string p.1, some p.2))
  | .subjectHash => sorted (x.getD (.string [])) = b.subjectHash
  | .payload => canonicalObject fm (x.getD (.string "\x7b\x7d".toList)) = .ok b.payload
  | .createdAt => (Stamp.value (x.getD (.number zero))).sorted = b.createdAt
  | .allowedActions => actionsOf x = .ok (b.policy.allowedActions.map .string)
  | .defaultAction => x = some (.string b.policy.defaultAction)
  | .approvalRequired => isFlag b.policy.approvalRequired x = true

theorem isText_iff {t : Text} {x : Option Value} : isText t x = true ↔ x = some (.string t) := by
  unfold isText
  split
  · simp
  · next h => exact iff_of_false (fun h' => nomatch h') fun h' => h t h'

theorem areTexts_iff {ts : List Text} {xs : List Value} : areTexts ts xs = true ↔ xs = ts.map .string := by
  induction ts generalizing xs with
  | nil => cases xs <;> simp [areTexts]
  | cons t ts ih =>
    cases xs with
    | nil => simp [areTexts]
    | cons x xs => rw [areTexts, Bool.and_eq_true, isText_iff, ih, Option.some.injEq, List.map_cons, List.cons.injEq]

theorem required_ok_iff {ps : List (Text × Value)} {name : Text} {x : Value} :
    required ps name = .ok x ↔ get ps name = some x := by
  unfold required
  cases get ps name <;> simp

theorem noOther_ok_iff {ps : List (Text × Value)} {u : Unit} :
    noOther ps = .ok u ↔ ∀ p ∈ ps, p.1 ∈ fieldNames := by
  unfold noOther
  split
  · next h => simpa using h
  · next h => simpa using h

theorem distinct_tupleOf {x : Value} {xs : List Value} (hx : Distinct x) (h : tupleOf x = .ok xs) : DistinctItems xs := by
  have hstrings : ∀ {α : Type} (f : α → Text) (as : List α), DistinctItems (as.map fun a => .string (f a)) := by
    intro α f as
    induction as with
    | nil => trivial
    | cons a as ih => exact ⟨trivial, ih⟩
  cases x with
  | array ys =>
    cases h
    exact hx
  | string s =>
    cases h
    exact hstrings _ s
  | object ps =>
    cases h
    exact hstrings _ ps
  | _ => exact nomatch h

theorem distinct_getD {ps : List (Text × Value)} {k : Text} {d : Value} (hps : Distinct (.object ps)) (hd : Distinct d) :
    Distinct ((get ps k).getD d) := by
  cases hget : get ps k with
  | none => exact hd
  | some x => exact (distinct_object.mp hps).2 _ (mem_of_get hget)

theorem float_floatOf {x : Value} {m : Numeral} (h : floatOf fm x = .ok (some m)) : fm.float m = some m := by
  cases x with
  | number n =>
    rw [floatOf] at h
    split at h
    · next k hk =>
      cases h
      exact fm.float_float n _ hk
    · split at h <;> exact nomatch h
  | bool b =>
    cases h
    cases b
    · exact fm.float_zero
    · exact fm.float_one
  | string t =>
    rw [floatOf] at h
    split at h
    · next k hk =>
      cases h
      exact fm.float_text t m hk
    · exact nomatch h
  | _ => exact nomatch h

theorem float_costPairs {xs : List Value} {pairs : List (Value × Option Numeral)} (h : costPairs fm xs = .ok pairs) :
    ∀ p ∈ pairs, ∀ m, p.2 = some m → fm.float m = some m := by
  induction xs generalizing pairs with
  | nil =>
    cases h
    exact fun p hp => nomatch hp
  | cons x xs ih =>
    rw [costPairs, bind_ok_iff] at h
    obtain ⟨pair, hpair, h⟩ := h
    obtain ⟨rest, hrest, hpairs⟩ := bind_ok_iff.mp h
    cases hpairs
    refine List.forall_mem_cons.mpr ⟨fun m hm => ?_, ih hrest⟩
    rw [costPair, bind_ok_iff] at hpair
    obtain ⟨parts, -, hparts⟩ := hpair
    split at hparts
    · exact nomatch hparts
    · exact nomatch hparts
    · obtain ⟨amount, hamount, hpair⟩ := bind_ok_iff.mp hparts
      cases hpair
      cases hm
      exact float_floatOf hamount
    · exact nomatch hparts

theorem approvalRequired_of_policyOf {kind : Text} {policy : DecisionPolicy} (h : policyOf kind = some policy) :
    policy.approvalRequired = true := by
  obtain ⟨p, hp, rfl⟩ := Option.map_eq_some_iff.mp h
  have hall : ∀ p ∈ decisionPolicies, p.2.approvalRequired = true := by decide
  exact hall p (List.mem_of_find?_eq_some hp)

theorem request_ext {r r' : DecisionRequest fm} (h : r.toRequestBody = r'.toRequestBody) : r = r' := by
  cases r
  cases r'
  cases h
  rfl

theorem policyOf_request (r : DecisionRequest fm) : policyOf r.kind = some r.policy := by
  have h := r.normalised
  unfold normalise at h
  simp only [bind_ok_iff] at h
  obtain ⟨kind, -, experimentId, -, question, -, policy, hpolicy, action, -, alternatives, -, subject, -, refs, -, costs, -,
    payload, -, hb⟩ := h
  rw [← Except.ok.inj hb]
  exact policyFor_ok_iff.mp hpolicy

theorem make_ok_iff {args : RequestFields} {r : DecisionRequest fm} :
    DecisionRequest.make fm args = .ok r ↔ args.Proper fm ∧ Gives fm args r.toRequestBody := by
  unfold DecisionRequest.make
  constructor
  · intro h
    split at h
    · next hproper =>
      split at h
      · exact nomatch h
      · next b hb =>
        cases h
        exact ⟨hproper, gives_of_normalise hb⟩
    · exact nomatch h
  · rintro ⟨hproper, hgives⟩
    have hnormalise := normalise_of_gives r.normalised hgives
    rw [dif_pos hproper]
    split
    · next h =>
      rw [hnormalise] at h
      exact nomatch h
    · next b hb =>
      rw [hnormalise] at hb
      exact congrArg Except.ok (request_ext (Except.ok.inj hb).symm)

theorem identified_ok_iff {ps : List (Text × Value)} {r r' : DecisionRequest fm} : r'.identified ps = .ok r ↔ r' = r ∧
    Reads fm r.toRequestBody (get ps Field.requestId.name) .requestId ∧
    Reads fm r.toRequestBody (get ps Field.allowedActions.name) .allowedActions ∧
    Reads fm r.toRequestBody (get ps Field.defaultAction.name) .defaultAction ∧
    Reads fm r.toRequestBody (get ps Field.approvalRequired.name) .approvalRequired := by
  unfold DecisionRequest.identified
  constructor
  · intro h
    split at h
    · exact nomatch h
    · next hid =>
      rw [bind_ok_iff] at h
      obtain ⟨allowed, hallowed, h⟩ := h
      split at h
      · exact nomatch h
      · next hpolicy =>
        cases h
        rw [Bool.not_eq_false] at hid hpolicy
        rw [Bool.and_eq_true, Bool.and_eq_true, areTexts_iff, isText_iff] at hpolicy
        obtain ⟨⟨rfl, hdefault⟩, happroval⟩ := hpolicy
        exact ⟨rfl, isText_iff.mp hid, hallowed, hdefault, happroval⟩
  · rintro ⟨rfl, hid, hallowed, hdefault, happroval⟩
    rw [if_neg (by rw [Bool.not_eq_false]; exact isText_iff.mpr hid)]
    refine bind_ok_iff.mpr ⟨_, hallowed, if_neg ?_⟩
    rw [Bool.not_eq_false, Bool.and_eq_true, Bool.and_eq_true]
    exact ⟨⟨areTexts_iff.mpr rfl, isText_iff.mpr hdefault⟩, happroval⟩

/-- `from_json` accepts a card that has no other fields and whose fields read as those of the request. -/
theorem fromJson_ok_iff {ps : List (Text × Value)} {r : DecisionRequest fm} (hps : Distinct (.object ps)) :
    DecisionRequest.fromJson fm ps = .ok r ↔
      (∀ p ∈ ps, p.1 ∈ fieldNames) ∧ ∀ f : Field, Reads fm r.toRequestBody (get ps f.name) f := by
  unfold DecisionRequest.fromJson
  constructor
  · intro h
    split at h
    · exact nomatch h
    · next hversion =>
      simp only [bind_ok_iff, required_ok_iff, make_ok_iff, identified_ok_iff] at h
      obtain ⟨alternatives, halternatives, refs, hrefs, costs, hcosts, pairs, hpairs, u, hnames, kind, hkind, experimentId,
        hexperiment, question, hquestion, action, haction, request, ⟨-, hgives⟩, rfl, hid, hallowed, hdefault,
        happroval⟩ := h
      refine ⟨noOther_ok_iff.mp hnames, fun f => ?_⟩
      cases f with
      | schemaVersion => exact (Bool.not_eq_false _).mp hversion
      | requestId => exact hid
      | kind => exact hkind.trans (congrArg some hgives.kind)
      | experimentId => exact hexperiment.trans (congrArg some hgives.experimentId)
      | question => exact hquestion.trans (congrArg some hgives.question)
      | alternatives => exact ⟨alternatives, halternatives, hgives.alternatives⟩
      | recommendedAction => exact haction.trans (congrArg some hgives.recommendedAction)
      | evidenceRefs => exact hrefs.trans (congrArg Except.ok hgives.evidenceRefs)
      | uncertainty => exact hgives.uncertainty
      | consequenceOfWaiting => exact hgives.consequenceOfWaiting
      | estimatedCosts =>
        exact (bind_ok_iff.mpr ⟨costs, hcosts, hpairs⟩).trans (congrArg Except.ok hgives.estimatedCosts)
      | subjectHash => exact hgives.subjectHash
      | payload => exact hgives.payload
      | createdAt => exact hgives.createdAt
      | allowedActions => exact hallowed
      | defaultAction => exact hdefault
      | approvalRequired => exact happroval
  · rintro ⟨hnames, hreads⟩
    obtain ⟨alternatives, halternatives, hsorted⟩ := hreads .alternatives
    obtain ⟨costs, hcosts, hpairs⟩ := bind_ok_iff.mp (hreads .estimatedCosts)
    have hversion : ¬isOne (get ps "schema_version".toList) = false := (Bool.not_eq_false _).mpr (hreads .schemaVersion)
    rw [if_neg hversion]
    simp only [bind_ok_iff, required_ok_iff, make_ok_iff, identified_ok_iff]
    refine ⟨alternatives, halternatives, _, hreads .evidenceRefs, costs, hcosts, _, hpairs, (), noOther_ok_iff.mpr hnames, _,
      hreads .kind, _, hreads .experimentId, _, hreads .question, _, hreads .recommendedAction, r, ⟨⟨?_, ?_, ?_, ?_, ?_, ?_⟩, ?_⟩,
      rfl, hreads .requestId, hreads .allowedActions, hreads .defaultAction, hreads .approvalRequired⟩
    · exact distinct_tupleOf (distinct_getD (d := .array []) hps trivial) halternatives
    · exact distinct_getD hps trivial
    · exact distinct_getD hps trivial
    · exact distinct_getD hps trivial
    · exact distinct_getD hps trivial
    · intro p hp
      have hfloat := float_costPairs hpairs p hp
      cases hcost : p.2 with
      | none => rfl
      | some m => exact congrArg some (hfloat m hcost)
    · exact {
        kind := rfl
        experimentId := rfl
        question := rfl
        alternatives := hsorted
        recommendedAction := rfl
        evidenceRefs := rfl
        uncertainty := hreads .uncertainty
        consequenceOfWaiting := hreads .consequenceOfWaiting
        estimatedCosts := rfl
        subjectHash := hreads .subjectHash
        payload := hreads .payload
        createdAt := hreads .createdAt }

def fieldJson (fm : CardFormats) (b : RequestBody) (createdAt : Value) : Field → Value
  | .schemaVersion => .number (.ofNat 1)
  | .requestId => .string (b.requestId fm)
  | .kind => .string b.kind
  | .experimentId => .string b.experimentId
  | .question => .string b.question
  | .alternatives => .array b.alternatives
  | .recommendedAction => .string b.recommendedAction
  | .evidenceRefs => textsJson b.evidenceRefs
  | .uncertainty => b.uncertainty
  | .consequenceOfWaiting => b.consequenceOfWaiting
  | .estimatedCosts => costsJson b.estimatedCosts
  | .subjectHash => b.subjectHash
  | .payload => .string b.payload
  | .createdAt => createdAt
  | .allowedActions => textsJson b.policy.allowedActions
  | .defaultAction => .string b.policy.defaultAction
  | .approvalRequired => .bool b.policy.approvalRequired

theorem toJson_eq (b : RequestBody) (x : Value) :
    b.toJson fm x = Field.all.map fun f => (f.name, fieldJson fm b x f) := rfl

theorem content_eq (fm : CardFormats) (b : RequestBody) (x : Value) : b.content =
    ("kind_".toList, .string "decision_request".toList) :: Field.covered.map fun f => (f.name, fieldJson fm b x f) := rfl

theorem nodup_toJson (b : RequestBody) (x : Value) : ((b.toJson fm x).map (·.1)).Nodup := by
  rw [toJson_eq, List.map_map]
  exact (by decide : (Field.all.map Field.name).Nodup)

theorem nodup_content (b : RequestBody) : (b.content.map (·.1)).Nodup :=
  (by decide : ("kind_".toList :: Field.covered.map Field.name).Nodup)

theorem get_toJson (b : RequestBody) (x : Value) (f : Field) :
    get (arranged (b.toJson fm x)) f.name = some (sorted (fieldJson fm b x f)) := by
  have hmem : (f.name, fieldJson fm b x f) ∈ b.toJson fm x := by
    rw [toJson_eq]
    exact List.mem_map_of_mem f.mem_all
  rw [get_arranged (nodup_toJson b x), get_of_mem (nodup_toJson b x) hmem]
  rfl

theorem get_content (fm : CardFormats) (b : RequestBody) (x : Value) {f : Field} (hf : f ∈ Field.covered) :
    get (arranged b.content) f.name = some (sorted (fieldJson fm b x f)) := by
  have hmem : (f.name, fieldJson fm b x f) ∈ b.content := by
    rw [content_eq fm b x]
    exact List.mem_cons_of_mem _ (List.mem_map_of_mem hf)
  rw [get_arranged (nodup_content b), get_of_mem (nodup_content b) hmem]
  rfl

theorem sorted_textsJson (ts : List Text) : sorted (textsJson ts) = textsJson ts := by
  rw [textsJson, sorted, sortedItems_strings]

theorem sorted_costsJson (costs : List (Text × Numeral)) : sorted (costsJson costs) = costsJson costs := by
  rw [costsJson, sorted]
  congr 1
  induction costs with
  | nil => rfl
  | cons p costs ih =>
    rw [List.map_cons, sortedItems, ih]
    rfl

theorem costsRead_costsJson {costs : List (Text × Numeral)} (h : ∀ p ∈ costs, fm.float p.2 = some p.2) :
    costsRead fm (some (costsJson costs)) = .ok (costs.map fun p => (.string p.1, some p.2)) := by
  have hpairs : costPairs fm (costs.map fun p => .array [.string p.1, .number p.2]) =
      .ok (costs.map fun p => (.string p.1, some p.2)) := by
    induction costs with
    | nil => rfl
    | cons p costs ih =>
      rw [List.forall_mem_cons] at h
      have hpair : costPair fm (.array [.string p.1, .number p.2]) = .ok (.string p.1, some p.2) := by
        have hfloat : floatOf fm (.number p.2) = .ok (some p.2) := by rw [floatOf, h.1]
        exact bind_ok_iff.mpr ⟨_, rfl, bind_ok_iff.mpr ⟨_, hfloat, rfl⟩⟩
      rw [List.map_cons, costPairs]
      exact bind_ok_iff.mpr ⟨_, hpair, bind_ok_iff.mpr ⟨_, ih h.2, rfl⟩⟩
  exact bind_ok_iff.mpr ⟨_, rfl, hpairs⟩

theorem reads_fieldJson (r : DecisionRequest fm) {x : Value} (hx : r.createdAt = .value x) (f : Field) :
    Reads fm r.toRequestBody (some (sorted (fieldJson fm r.toRequestBody x f))) f := by
  have hgives := gives_of_normalise r.normalised
  cases f with
  | schemaVersion =>
    rw [fieldJson, sorted_number]
    exact (by decide : isOne (some (.number (.ofNat 1))) = true)
  | requestId | kind | experimentId | question | recommendedAction | defaultAction => exact congrArg some (sorted_string _)
  | alternatives =>
    refine ⟨sortedItems r.alternatives, ?_, ?_⟩
    · rw [fieldJson, sorted]
      rfl
    · exact (sortedItems_sortedItems _).trans hgives.alternatives
  | evidenceRefs =>
    rw [fieldJson, sorted_textsJson]
    rfl
  | uncertainty => exact (sorted_sorted _).trans hgives.uncertainty
  | consequenceOfWaiting => exact (sorted_sorted _).trans hgives.consequenceOfWaiting
  | estimatedCosts =>
    rw [fieldJson, sorted_costsJson]
    refine costsRead_costsJson fun p hp => ?_
    obtain ⟨-, -, -, -, -, hcosts⟩ := r.proper
    exact Option.some.inj (hcosts _ (List.mem_map_of_mem hp))
  | subjectHash => exact (sorted_sorted _).trans hgives.subjectHash
  | payload =>
    rw [fieldJson, sorted_string]
    exact hgives.payload
  | createdAt =>
    have hcreated := hgives.createdAt
    rw [RequestBody.fields, hx] at hcreated
    change Stamp.value (sorted (sorted x)) = r.createdAt
    rw [sorted_sorted, hx]
    exact hcreated
  | allowedActions =>
    rw [fieldJson, sorted_textsJson]
    rfl
  | approvalRequired =>
    rw [fieldJson, sorted_bool]
    exact decide_eq_true rfl

theorem distinct_costsJson (costs : List (Text × Numeral)) : Distinct (costsJson costs) := by
  change DistinctItems (costs.map fun p => .array [.string p.1, .number p.2])
  induction costs with
  | nil => trivial
  | cons p costs ih => exact ⟨⟨trivial, trivial, trivial⟩, ih⟩

theorem distinct_fieldJson (r : DecisionRequest fm) {x : Value} (hx : Distinct x) (f : Field) :
    Distinct (fieldJson fm r.toRequestBody x f) := by
  obtain ⟨halternatives, huncertainty, hconsequence, hsubject, -, -⟩ := r.proper
  cases f with
  | alternatives => exact halternatives
  | evidenceRefs => exact distinctItems_strings _
  | uncertainty => exact huncertainty
  | consequenceOfWaiting => exact hconsequence
  | estimatedCosts => exact distinct_costsJson _
  | subjectHash => exact hsubject
  | createdAt => exact hx
  | allowedActions => exact distinctItems_strings _
  | _ => trivial

theorem distinct_toJson (r : DecisionRequest fm) {x : Value} (hx : Distinct x) :
    Distinct (.object (r.toJson fm x)) := by
  refine distinct_object.mpr ⟨nodup_toJson _ x, fun p hp => ?_⟩
  rw [toJson_eq] at hp
  obtain ⟨f, -, rfl⟩ := List.mem_map.mp hp
  exact distinct_fieldJson r hx f

theorem distinct_content (r : DecisionRequest fm) : Distinct (.object r.content) := by
  refine distinct_object.mpr ⟨nodup_content _, fun p hp => ?_⟩
  rw [content_eq fm _ .null] at hp
  rcases List.mem_cons.mp hp with rfl | hp
  · trivial
  · obtain ⟨f, -, rfl⟩ := List.mem_map.mp hp
    exact distinct_fieldJson r (x := .null) trivial f

theorem fromJson_toJson (r : DecisionRequest fm) {x : Value} (hx : r.createdAt = .value x) :
    DecisionRequest.fromJson fm (arranged (r.toJson fm x)) = .ok r := by
  have hcreated : Distinct x := by
    obtain ⟨-, -, -, -, hstamp, -⟩ := r.proper
    rw [RequestBody.fields, hx] at hstamp
    exact hstamp
  have hdistinct : Distinct (.object (arranged (r.toJson fm x))) := by
    rw [← sorted_object_eq]
    exact distinct_sorted _ (distinct_toJson r hcreated)
  refine (fromJson_ok_iff hdistinct).mpr ⟨fun p hp => ?_, fun f => ?_⟩
  · have hmem : p.1 ∈ (arranged (r.toJson fm x)).map (·.1) := List.mem_map_of_mem hp
    rw [(keys_arranged _).mem_iff, toJson_eq, List.map_map] at hmem
    exact hmem
  · rw [get_toJson]
    exact reads_fieldJson r hx f

theorem eq_of_covered {r r' : DecisionRequest fm} {x : Value} (hx : r.createdAt = .value x) (hx' : r'.createdAt = .value x)
    (h : ∀ f ∈ Field.covered, sorted (fieldJson fm r.toRequestBody x f) = sorted (fieldJson fm r'.toRequestBody x f))
    (hid : r.requestId fm = r'.requestId fm) : r = r' := by
  have hall : ∀ f, sorted (fieldJson fm r.toRequestBody x f) = sorted (fieldJson fm r'.toRequestBody x f) := by
    intro f
    rcases f.mem_covered with hf | rfl | rfl | rfl
    · exact h f hf
    · rfl
    · rw [fieldJson, fieldJson, hid]
    · rfl
  have hmembers : sortedMembers (r.toJson fm x) = sortedMembers (r'.toJson fm x) := by
    rw [sortedMembers_eq_map, sortedMembers_eq_map, toJson_eq, toJson_eq, List.map_map, List.map_map]
    exact List.map_congr_left fun f _ => congrArg (Prod.mk f.name) (hall f)
  have hback := fromJson_toJson r hx
  rw [arranged, hmembers, ← arranged, fromJson_toJson r' hx'] at hback
  exact (Except.ok.inj hback).symm

theorem eq_of_requestId (hhash : Function.Injective fm.hash) {r r' : DecisionRequest fm} {x : Value}
    (hx : r.createdAt = .value x) (hx' : r'.createdAt = .value x) (hid : r.requestId fm = r'.requestId fm) : r = r' := by
  have hcontent := sorted_of_dumpsCompact (distinct_content r) (distinct_content r') ⟨_, rfl⟩ ⟨_, rfl⟩ (hhash hid)
  rw [sorted_object_eq, sorted_object_eq, Value.object.injEq] at hcontent
  refine eq_of_covered hx hx' (fun f hf => ?_) hid
  have hget := get_content fm r.toRequestBody x hf
  rw [hcontent, get_content fm r'.toRequestBody x hf] at hget
  exact (Option.some.inj hget).symm

def SameReading (fm : CardFormats) (x y : Option Value) : Field → Prop
  | .schemaVersion => isOne y = true
  | .alternatives => ∃ xs ys, tupleOf (x.getD (.array [])) = .ok xs ∧ tupleOf (y.getD (.array [])) = .ok ys ∧
      sortedItems ys = sortedItems xs
  | .evidenceRefs => tupleOf (y.getD (.array [])) = tupleOf (x.getD (.array []))
  | .uncertainty | .consequenceOfWaiting | .subjectHash => sorted (y.getD (.string [])) = sorted (x.getD (.string []))
  | .estimatedCosts => costsRead fm y = costsRead fm x
  | .payload => ∃ s t ps qs, x.getD (.string "\x7b\x7d".toList) = .string s ∧
      y.getD (.string "\x7b\x7d".toList) = .string t ∧ loads s = some (.object ps) ∧ loads t = some (.object qs) ∧
      allNumbers (fun n => (fm.written n).isSome) (.object qs) = true ∧
      sorted (rewritten fm (.object qs)) = sorted (rewritten fm (.object ps))
  | .allowedActions => actionsOf y = actionsOf x
  | .approvalRequired => isFlag true y = true
  | _ => False

theorem payload_iff {x y : Value} {t : Text} (hx : canonicalObject fm x = .ok t) :
    canonicalObject fm y = .ok t ↔ ∃ s u ps qs, x = .string s ∧ y = .string u ∧ loads s = some (.object ps) ∧
      loads u = some (.object qs) ∧ allNumbers (fun n => (fm.written n).isSome) (.object qs) = true ∧
      sorted (rewritten fm (.object qs)) = sorted (rewritten fm (.object ps)) := by
  obtain ⟨s, ps, rfl, hs, -, rfl⟩ := canonicalObject_ok_iff.mp hx
  rw [canonicalObject_ok_iff]
  constructor
  · rintro ⟨u, qs, rfl, hu, hall, hsame⟩
    have hdistinct : ∀ {v : Text} {rs : List (Text × Value)}, loads v = some (.object rs) →
        Distinct (rewritten fm (.object rs)) := fun h => distinct_mapNumbers _ _ (distinct_loads h)
    exact ⟨s, u, ps, qs, rfl, rfl, hs, hu, hall,
      sorted_of_dumpsCompact (hdistinct hu) (hdistinct hs) ⟨_, rfl⟩ ⟨_, rfl⟩ hsame⟩
  · rintro ⟨s', u, ps', qs, ⟨⟩, rfl, hs', hu, hall, hsame⟩
    cases hs.symm.trans hs'
    exact ⟨u, qs, rfl, hu, hall, by rw [dumpsCompact, dumpsCompact, hsame]⟩

theorem reads_iff_same (r : DecisionRequest fm) {x y : Option Value} {f : Field} (h : Reads fm r.toRequestBody x f)
    (hchanged : y.map sorted ≠ x.map sorted) (hf : f ≠ .createdAt) :
    Reads fm r.toRequestBody y f ↔ SameReading fm x y f := by
  cases f with
  | createdAt => exact absurd rfl hf
  | schemaVersion => exact Iff.rfl
  | requestId | kind | experimentId | question | recommendedAction | defaultAction =>
    refine iff_of_false (fun hy => hchanged ?_) id
    rw [show y = _ from hy, show x = _ from h]
  | alternatives =>
    obtain ⟨xs, hxs, hsorted⟩ := h
    constructor
    · rintro ⟨ys, hys, hsame⟩
      exact ⟨xs, ys, hxs, hys, hsame.trans hsorted.symm⟩
    · rintro ⟨xs', ys, hxs', hys, hsame⟩
      cases hxs.symm.trans hxs'
      exact ⟨ys, hys, hsame.trans hsorted⟩
  | evidenceRefs => exact ⟨fun hy => Eq.trans hy (Eq.symm h), fun hy => Eq.trans hy h⟩
  | uncertainty => exact ⟨fun hy => Eq.trans hy (Eq.symm h), fun hy => Eq.trans hy h⟩
  | consequenceOfWaiting => exact ⟨fun hy => Eq.trans hy (Eq.symm h), fun hy => Eq.trans hy h⟩
  | estimatedCosts => exact ⟨fun hy => Eq.trans hy (Eq.symm h), fun hy => Eq.trans hy h⟩
  | subjectHash => exact ⟨fun hy => Eq.trans hy (Eq.symm h), fun hy => Eq.trans hy h⟩
  | payload => exact payload_iff h
  | allowedActions => exact ⟨fun hy => Eq.trans hy (Eq.symm h), fun hy => Eq.trans hy h⟩
  | approvalRequired =>
    rw [Reads, approvalRequired_of_policyOf (policyOf_request r)]
    exact Iff.rfl

theorem Reads.fieldJson_eq {r r' : DecisionRequest fm} {x : Option Value} {z : Value} {f : Field}
    (h : Reads fm r.toRequestBody x f) (h' : Reads fm r'.toRequestBody x f) (hf : f ∈ Field.covered) :
    fieldJson fm r.toRequestBody z f = fieldJson fm r'.toRequestBody z f := by
  have hstrings : ∀ {ss ts : List Text}, ss.map Value.string = ts.map Value.string → textsJson ss = textsJson ts :=
    congrArg Value.array
  cases f with
  | schemaVersion | requestId | createdAt => exact absurd hf (by decide)
  | kind | experimentId | question | recommendedAction | defaultAction =>
    exact Option.some.inj (Eq.trans (Eq.symm h) h')
  | alternatives =>
    obtain ⟨xs, hxs, hsorted⟩ := h
    obtain ⟨xs', hxs', hsorted'⟩ := h'
    cases hxs.symm.trans hxs'
    exact congrArg Value.array (hsorted.symm.trans hsorted')
  | evidenceRefs => exact hstrings (Except.ok.inj (Eq.trans (Eq.symm h) h'))
  | uncertainty => exact Eq.trans (Eq.symm h) h'
  | consequenceOfWaiting => exact Eq.trans (Eq.symm h) h'
  | estimatedCosts =>
    have hcosts := Except.ok.inj (Eq.trans (Eq.symm h) h')
    have hinjective : Function.Injective fun p : Text × Numeral => (Value.string p.1, some p.2) := by
      rintro ⟨a, m⟩ ⟨b, n⟩ heq
      cases heq
      rfl
    rw [fieldJson, fieldJson, List.map_injective_iff.mpr hinjective hcosts]
  | subjectHash => exact Eq.trans (Eq.symm h) h'
  | payload => exact congrArg Value.string (Except.ok.inj (Eq.trans (Eq.symm h) h'))
  | allowedActions => exact hstrings (Except.ok.inj (Eq.trans (Eq.symm h) h'))
  | approvalRequired =>
    rw [fieldJson, fieldJson, approvalRequired_of_policyOf (policyOf_request r),
      approvalRequired_of_policyOf (policyOf_request r')]

variable {ps ps' : List (Text × Value)} {r r' : DecisionRequest fm} {f : Field}

theorem eq_of_changed (hhash : Function.Injective fm.hash) (hps : Distinct (.object ps)) (hps' : Distinct (.object ps'))
    (hother : ∀ k, k ≠ f.name → get ps' k = get ps k) (hf : f ≠ .createdAt)
    (h : DecisionRequest.fromJson fm ps = .ok r) (h' : DecisionRequest.fromJson fm ps' = .ok r') : r' = r := by
  have hreads := ((fromJson_ok_iff hps).mp h).2
  have hreads' : ∀ g, g ≠ f → Reads fm r'.toRequestBody (get ps g.name) g := by
    intro g hg
    rw [← hother g.name fun heq => hg (Field.name_injective heq)]
    exact ((fromJson_ok_iff hps').mp h').2 g
  have hcreated : r'.createdAt = r.createdAt := Eq.trans (Eq.symm (hreads' .createdAt (Ne.symm hf))) (hreads .createdAt)
  obtain ⟨z, hz⟩ : ∃ z, r.createdAt = .value z := ⟨_, Eq.symm (hreads .createdAt)⟩
  by_cases hid : f = .requestId
  · subst hid
    have hcovered : ∀ g ∈ Field.covered, fieldJson fm r'.toRequestBody z g = fieldJson fm r.toRequestBody z g := by
      intro g hg
      have hne : g ≠ .requestId := by
        rintro rfl
        exact absurd hg (by decide)
      exact Reads.fieldJson_eq (hreads' g hne) (hreads g) hg
    refine eq_of_covered (hcreated.trans hz) hz (fun g hg => congrArg sorted (hcovered g hg)) ?_
    have hcontent : r'.content = r.content := by
      rw [content_eq fm _ z, content_eq fm _ z]
      exact congrArg _ (List.map_congr_left fun g hg => congrArg (Prod.mk g.name) (hcovered g hg))
    rw [RequestBody.requestId, RequestBody.requestId, hcontent]
  · have hsame : some (Value.string (r'.requestId fm)) = some (.string (r.requestId fm)) :=
      Eq.trans (Eq.symm (hreads' .requestId (Ne.symm hid))) (hreads .requestId)
    exact eq_of_requestId hhash (hcreated.trans hz) hz (Value.string.inj (Option.some.inj hsame))

theorem changed_ok_iff (hhash : Function.Injective fm.hash) (hps : Distinct (.object ps)) (hps' : Distinct (.object ps'))
    (hother : ∀ k, k ≠ f.name → get ps' k = get ps k) (hf : f ≠ .createdAt)
    (h : DecisionRequest.fromJson fm ps = .ok r) :
    (∃ r', DecisionRequest.fromJson fm ps' = .ok r') ↔ Reads fm r.toRequestBody (get ps' f.name) f := by
  obtain ⟨hnames, hreads⟩ := (fromJson_ok_iff hps).mp h
  constructor
  · rintro ⟨r', hr'⟩
    obtain rfl := eq_of_changed hhash hps hps' hother hf h hr'
    exact ((fromJson_ok_iff hps').mp hr').2 f
  · intro hread
    refine ⟨r, (fromJson_ok_iff hps').mpr ⟨fun p hp => ?_, fun g => ?_⟩⟩
    · by_cases hp' : p.1 = f.name
      · rw [hp', Field.names]
        exact List.mem_map_of_mem f.mem_all
      · have hget := get_of_mem (distinct_object.mp hps').1 hp
        rw [hother p.1 hp'] at hget
        exact hnames _ (mem_of_get hget)
    · by_cases hg : g = f
      · exact hg ▸ hread
      · rw [hother g.name fun heq => hg (Field.name_injective heq)]
        exact hreads g

def taggedFormats : CardFormats where
  float := some
  floatText _ := none
  written := some
  hash t := 'h' :: t
  repr _ := []
  float_float := float_some
  float_text _ _ h := nomatch h
  float_zero := some_zero
  float_one := rfl
  written_written := float_some

theorem tagged_injective : Function.Injective taggedFormats.hash := fun _ _ h => (List.cons.inj h).2

def branchBody : RequestBody where
  kind := "generic".toList
  experimentId := "e1".toList
  question := "Which branch?".toList
  alternatives := [.string "a".toList, .string "b".toList]
  recommendedAction := "branch".toList
  evidenceRefs := []
  uncertainty := .string []
  consequenceOfWaiting := .string []
  estimatedCosts := []
  subjectHash := .string []
  payload := "\x7b\x7d".toList
  createdAt := .value (.number zero)
  policy := ⟨["approve".toList, "branch".toList, "veto".toList, "revise".toList, "request-more-evidence".toList],
    "veto".toList, true⟩

theorem branchBody_payload : canonicalObject taggedFormats (.string "\x7b\x7d".toList) = .ok "\x7b\x7d".toList := by
  have hempty : sorted (.object []) = .object [] := by simp [sorted, sortedMembers]
  have htext : dumpsCompact (.object []) = "\x7b\x7d".toList := by decide +kernel
  refine canonicalObject_ok_iff.mpr ⟨_, [], rfl, ?_, rfl, htext⟩
  rw [← htext, loads_dumpsCompact (by decide) ⟨_, rfl⟩, hempty]

theorem branchBody_policy : policyOf branchBody.kind = some branchBody.policy := by decide

theorem branchBody_normalised : normalise taggedFormats branchBody.fields = .ok branchBody := by
  unfold normalise
  simp only [bind_ok_iff]
  refine ⟨_, nonEmpty_ok_iff.mpr ⟨rfl, by decide⟩, _, nonEmpty_ok_iff.mpr ⟨rfl, by decide⟩, _,
    nonEmpty_ok_iff.mpr ⟨rfl, by decide⟩, _, policyFor_ok_iff.mpr branchBody_policy, _,
    allowedAction_ok_iff.mpr ⟨rfl, by decide⟩, _, rfl, _, rfl, _, rfl, _, rfl, _, branchBody_payload, ?_⟩
  rfl

theorem branchBody_proper : branchBody.fields.Proper taggedFormats := by decide

def branchRequest : DecisionRequest taggedFormats where
  toRequestBody := branchBody
  normalised := branchBody_normalised
  proper := branchBody_proper

def branchCard : List (Text × Value) := arranged (branchRequest.toJson taggedFormats (.number zero))

theorem branchCard_fromJson : DecisionRequest.fromJson taggedFormats branchCard = .ok branchRequest :=
  fromJson_toJson branchRequest rfl

theorem branchCard_distinct : Distinct (.object branchCard) := by
  rw [branchCard, ← sorted_object_eq]
  exact distinct_sorted _ (distinct_toJson branchRequest trivial)

end EvoHarness.Research.Cards
