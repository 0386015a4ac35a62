import EvoHarness.Library.JsonReading
import EvoHarness.Evaluation.Evidence
import EvoHarness.Research.Inbox

/-! Decision cards: what a request is built from, the identity it is given, its JSON and reading it back. -/
namespace EvoHarness.Research.Cards
open PyText Json Hoare
open Evaluation (negative zero)

inductive CardFault where
  | valueError (message : Text)
  | typeError
  | attributeError
  | overflowError
deriving DecidableEq

theorem one_isNumeral : isNumeral "1.0".toList = true := by decide +kernel

def one : Numeral := ⟨"1.0".toList, one_isNumeral⟩

/-- `float` of a number and of a text, as `repr` writes it (`none` is for what is not finite), the number that
`json.loads` reads and `json.dumps` writes again, SHA-256 of a text, and `repr`. -/
structure CardFormats where
  float : Numeral → Option Numeral
  floatText : Text → Option (Option Numeral)
  written : Numeral → Option Numeral
  hash : Text → Text
  repr : Value → Text
  float_float : ∀ n m, float n = some m → float m = some m
  float_text : ∀ t m, floatText t = some (some m) → float m = some m
  float_zero : float zero = some zero
  float_one : float one = some one
  written_written : ∀ n m, written n = some m → written m = some m

/-- `created_at` is taken as it is given, a float that is not finite included. -/
inductive Stamp where
  | value (x : Value)
  | nonFinite

def Stamp.sorted : Stamp → Stamp
  | .value x => .value (Json.sorted x)
  | .nonFinite => .nonFinite

def Stamp.Distinct : Stamp → Prop
  | .value x => Json.Distinct x
  | .nonFinite => True

instance (s : Stamp) : Decidable s.Distinct := by
  cases s
  · exact inferInstanceAs (Decidable (Json.Distinct _))
  · exact inferInstanceAs (Decidable True)

structure RequestFields where
  kind : Value
  experimentId : Value
  question : Value
  alternatives : List Value
  recommendedAction : Value
  evidenceRefs : List Value
  uncertainty : Value
  consequenceOfWaiting : Value
  estimatedCosts : List (Value × Option Numeral)
  subjectHash : Value
  payload : Value
  createdAt : Stamp

/-- What a request is once `__post_init__` has gone through it. What may be any value lists its keys in order. -/
structure RequestBody where
  kind : Text
  experimentId : Text
  question : Text
  alternatives : List Value
  recommendedAction : Text
  evidenceRefs : List Text
  uncertainty : Value
  consequenceOfWaiting : Value
  estimatedCosts : List (Text × Numeral)
  subjectHash : Value
  payload : Text
  createdAt : Stamp
  policy : DecisionPolicy

variable (fm : CardFormats)

def refused (message : Text) {α : Type} : Except CardFault α := .error (.valueError message)

def nonEmpty (name : Text) : Value → Except CardFault Text
  | .string t => if strip t = [] then refused (name ++ " must be a non-empty string".toList) else .ok t
  | _ => refused (name ++ " must be a non-empty string".toList)

def policyFor (kind : Text) : Except CardFault DecisionPolicy :=
  match policyOf kind with
  | some policy => .ok policy
  | none => refused ("unknown decision kind ".toList ++ fm.repr (.string kind) ++ "; expected one of ".toList ++
      fm.repr (.array (((decisionPolicies.map (·.1)).mergeSort fun a b => decide (a ≤ b)).map .string)))

def allowedAction (policy : DecisionPolicy) : Value → Except CardFault Text
  | .string t =>
    if t ∈ policy.allowedActions then .ok t
    else refused "recommended_action must be allowed by the decision-kind policy".toList
  | _ => refused "recommended_action must be allowed by the decision-kind policy".toList

def someOf : List Value → Except CardFault (List Value)
  | [] => refused "alternatives must be non-empty".toList
  | x :: xs => .ok (sortedItems (x :: xs))

def subjectOf (kind : Text) (x : Value) : Except CardFault Value :=
  if kind = "generic".toList then .ok (sorted x)
  else
    match x with
    | .string t => if strip t = [] then refused (kind ++ " requests require a subject_hash".toList) else .ok x
    | _ => .error .attributeError

def refsOf : List Value → Except CardFault (List Text)
  | [] => .ok []
  | .string t :: xs => do
    if strip t = [] then refused "evidence_refs must contain non-empty strings".toList
    else do
      let ts ← refsOf xs
      return t :: ts
  | _ => refused "evidence_refs must contain non-empty strings".toList

def costsOf (policy : DecisionPolicy) : List Text → List (Value × Option Numeral) → Except CardFault (List (Text × Numeral))
  | _, [] => .ok []
  | seen, (.string action, some cost) :: rest =>
    if action ∉ policy.allowedActions then
      refused ("cost supplied for disallowed action ".toList ++ fm.repr (.string action))
    else if action ∈ seen then refused ("duplicate estimated cost for action ".toList ++ fm.repr (.string action))
    else if negative cost then refused "estimated costs must be non-negative and finite".toList
    else do
      let costs ← costsOf policy (action :: seen) rest
      return (action, cost) :: costs
  | seen, (.string action, none) :: _ =>
    if action ∉ policy.allowedActions then
      refused ("cost supplied for disallowed action ".toList ++ fm.repr (.string action))
    else if action ∈ seen then refused ("duplicate estimated cost for action ".toList ++ fm.repr (.string action))
    else refused "estimated costs must be non-negative and finite".toList
  | _, (action, _) :: _ => refused ("cost supplied for disallowed action ".toList ++ fm.repr action)

def rewritten (x : Value) : Value := mapNumbers (fun n => (fm.written n).getD n) x

/-- `canonical_json(json.loads(payload))`. A text that holds `NaN` or `Infinity` is refused as one that is no JSON. -/
def canonicalObject : Value → Except CardFault Text
  | .string t =>
    match loads t with
    | none => refused "payload must be valid JSON".toList
    | some (.object ps) =>
      if allNumbers (fun n => (fm.written n).isSome) (.object ps) then .ok (dumpsCompact (rewritten fm (.object ps)))
      else refused "non-finite floats are not valid spec values".toList
    | some _ => refused "payload must encode a JSON object".toList
  | _ => refused "payload must be valid JSON".toList

def normalise (r : RequestFields) : Except CardFault RequestBody := do
  let kind ← nonEmpty "kind".toList r.kind
  let experimentId ← nonEmpty "experiment_id".toList r.experimentId
  let question ← nonEmpty "question".toList r.question
  let policy ← policyFor fm kind
  let recommendedAction ← allowedAction policy r.recommendedAction
  let alternatives ← someOf r.alternatives
  let subjectHash ← subjectOf kind r.subjectHash
  let evidenceRefs ← refsOf r.evidenceRefs
  let estimatedCosts ← costsOf fm policy [] r.estimatedCosts
  let payload ← canonicalObject fm r.payload
  return {
    kind, experimentId, question, alternatives, recommendedAction, evidenceRefs, estimatedCosts, subjectHash, payload, policy
    uncertainty := sorted r.uncertainty
    consequenceOfWaiting := sorted r.consequenceOfWaiting
    createdAt := r.createdAt.sorted }

def RequestBody.fields (b : RequestBody) : RequestFields where
  kind := .string b.kind
  experimentId := .string b.experimentId
  question := .string b.question
  alternatives := b.alternatives
  recommendedAction := .string b.recommendedAction
  evidenceRefs := b.evidenceRefs.map .string
  uncertainty := b.uncertainty
  consequenceOfWaiting := b.consequenceOfWaiting
  estimatedCosts := b.estimatedCosts.map fun p => (.string p.1, some p.2)
  subjectHash := b.subjectHash
  payload := .string b.payload
  createdAt := b.createdAt

theorem nonEmpty_ok_iff {name : Text} {x : Value} {t : Text} :
    nonEmpty name x = .ok t ↔ x = .string t ∧ strip t ≠ [] := by
  cases x with
  | string s =>
    rw [nonEmpty]
    split
    · next h =>
      refine iff_of_false (fun h' => nomatch h') ?_
      rintro ⟨⟨⟩, h'⟩
      exact h' h
    · next h =>
      rw [Except.ok.injEq, Value.string.injEq]
      exact ⟨fun h' => ⟨h', h' ▸ h⟩, And.left⟩
  | _ => simp [nonEmpty, refused]

variable {fm}

theorem policyFor_ok_iff {kind : Text} {policy : DecisionPolicy} :
    policyFor fm kind = .ok policy ↔ policyOf kind = some policy := by
  unfold policyFor
  cases policyOf kind <;> simp [refused]

theorem allowedAction_ok_iff {policy : DecisionPolicy} {x : Value} {t : Text} :
    allowedAction policy x = .ok t ↔ x = .string t ∧ t ∈ policy.allowedActions := by
  cases x with
  | string s =>
    rw [allowedAction]
    split
    · next h =>
      rw [Except.ok.injEq, Value.string.injEq]
      exact ⟨fun h' => ⟨h', h' ▸ h⟩, And.left⟩
    · next h =>
      refine iff_of_false (fun h' => nomatch h') ?_
      rintro ⟨⟨⟩, h'⟩
      exact h h'
  | _ => simp [allowedAction, refused]

theorem someOf_ok_iff {xs ys : List Value} : someOf xs = .ok ys ↔ xs ≠ [] ∧ sortedItems xs = ys := by
  cases xs <;> simp [someOf, refused]

theorem subjectOf_again {kind : Text} {x y : Value} (h : subjectOf kind x = .ok y) :
    y = sorted x ∧ subjectOf kind y = .ok y := by
  unfold subjectOf at h ⊢
  split at h
  · next hkind =>
    cases h
    rw [if_pos hkind, sorted_sorted]
    exact ⟨rfl, rfl⟩
  · next hkind =>
    rw [if_neg hkind]
    split at h
    · split at h
      · exact nomatch h
      · next hstrip =>
        cases h
        exact ⟨rfl, if_neg hstrip⟩
    · exact nomatch h

theorem subjectOf_of_sorted {kind : Text} {x y : Value} (h : sorted x = y) (hy : subjectOf kind y = .ok y) :
    subjectOf kind x = .ok y := by
  unfold subjectOf at hy ⊢
  split at hy
  · next hkind => rw [if_pos hkind, h]
  · next hkind =>
    rw [if_neg hkind]
    split at hy
    · next t =>
      split at hy
      · exact nomatch hy
      · next hstrip =>
        cases x with
        | string s =>
          cases h
          exact if_neg hstrip
        | array xs => rw [sorted] at h; exact nomatch h
        | object ps => rw [sorted_object_eq] at h; exact nomatch h
        | _ => exact nomatch h
    · exact nomatch hy

theorem refsOf_ok_iff {xs : List Value} {ts : List Text} :
    refsOf xs = .ok ts ↔ xs = ts.map .string ∧ ∀ t ∈ ts, strip t ≠ [] := by
  constructor
  · intro h
    induction xs generalizing ts with
    | nil =>
      cases h
      exact ⟨rfl, fun t ht => nomatch ht⟩
    | cons x xs ih =>
      cases x with
      | string t =>
        rw [refsOf] at h
        split at h
        · exact nomatch h
        · next ht =>
          rw [bind_ok_iff] at h
          obtain ⟨rest, hrest, hts⟩ := h
          cases hts
          obtain ⟨hxs, hall⟩ := ih hrest
          exact ⟨by rw [List.map_cons, hxs], List.forall_mem_cons.mpr ⟨ht, hall⟩⟩
      | _ => exact nomatch h
  · rintro ⟨rfl, hall⟩
    induction ts with
    | nil => rfl
    | cons t ts ih =>
      rw [List.forall_mem_cons] at hall
      rw [List.map_cons, refsOf, if_neg hall.1, ih hall.2]
      rfl

theorem costsOf_again {policy : DecisionPolicy} {seen : List Text} {xs : List (Value × Option Numeral)}
    {costs : List (Text × Numeral)} (h : costsOf fm policy seen xs = .ok costs) :
    xs = costs.map fun p => (.string p.1, some p.2) := by
  induction xs generalizing seen costs with
  | nil =>
    cases h
    rfl
  | cons x xs ih =>
    obtain ⟨action, cost⟩ := x
    cases action with
    | string action =>
      cases cost with
      | none =>
        rw [costsOf] at h
        split at h
        · exact nomatch h
        · split at h <;> exact nomatch h
      | some cost =>
        rw [costsOf] at h
        split at h
        · exact nomatch h
        · split at h
          · exact nomatch h
          · split at h
            · exact nomatch h
            · rw [bind_ok_iff] at h
              obtain ⟨rest, hrest, hcosts⟩ := h
              cases hcosts
              rw [List.map_cons, ← ih hrest]
    | _ => cases cost <;> exact nomatch h

theorem canonicalObject_ok_iff {x : Value} {t : Text} : canonicalObject fm x = .ok t ↔ ∃ s ps, x = .string s ∧
    loads s = some (.object ps) ∧ allNumbers (fun n => (fm.written n).isSome) (.object ps) = true ∧
      dumpsCompact (rewritten fm (.object ps)) = t := by
  cases x with
  | string s =>
    rw [canonicalObject]
    cases hloads : loads s with
    | none => simp [refused, hloads]
    | some y =>
      cases y with
      | object ps =>
        dsimp only
        split
        · next hall => simp [hloads, hall]
        · next hall => simp [refused, hloads, hall]
      | _ => simp [refused, hloads]
  | _ => simp [canonicalObject, refused]

theorem rewritten_again {x : Value} (hx : allNumbers (fun n => (fm.written n).isSome) x = true) :
    allNumbers (fun n => (fm.written n).isSome) (rewritten fm x) = true ∧ rewritten fm (rewritten fm x) = rewritten fm x := by
  refine mapNumbers_again (fun n hn => ?_) x hx
  obtain ⟨m, hm⟩ := Option.isSome_iff_exists.mp hn
  have hagain := fm.written_written n m hm
  rw [hm, Option.getD_some, hagain]
  exact ⟨rfl, rfl⟩

theorem loads_canonical {ps : List (Text × Value)} {s : Text} (h : loads s = some (.object ps)) :
    loads (dumpsCompact (rewritten fm (.object ps))) = some (sorted (rewritten fm (.object ps))) :=
  loads_dumpsCompact (distinct_mapNumbers _ _ (distinct_loads h)) ⟨_, rfl⟩

theorem canonicalObject_again {x : Value} {t : Text} (h : canonicalObject fm x = .ok t) :
    canonicalObject fm (.string t) = .ok t := by
  obtain ⟨s, ps, rfl, hs, hall, rfl⟩ := canonicalObject_ok_iff.mp h
  obtain ⟨hall', hmap⟩ := rewritten_again hall
  have hloads : loads (dumpsCompact (rewritten fm (.object ps))) = _ := loads_canonical hs
  obtain ⟨qs, hqs⟩ : ∃ qs, sorted (rewritten fm (.object ps)) = .object qs := ⟨_, sorted_object_eq _⟩
  refine canonicalObject_ok_iff.mpr ⟨_, qs, rfl, hloads.trans (congrArg some hqs), ?_, ?_⟩
  · rw [← hqs, allNumbers_sorted, hall']
  · rw [← hqs, rewritten, mapNumbers_sorted, ← rewritten, hmap, dumpsCompact, sorted_sorted, ← dumpsCompact]

def RequestFields.Proper (fm : CardFormats) (r : RequestFields) : Prop :=
  Json.Distinct (.array r.alternatives) ∧ Json.Distinct r.uncertainty ∧ Json.Distinct r.consequenceOfWaiting ∧
    Json.Distinct r.subjectHash ∧ r.createdAt.Distinct ∧ ∀ p ∈ r.estimatedCosts, p.2.map fm.float = p.2.map some

instance (r : RequestFields) : Decidable (r.Proper fm) :=
  inferInstanceAs (Decidable (Json.Distinct (.array r.alternatives) ∧ Json.Distinct r.uncertainty ∧
    Json.Distinct r.consequenceOfWaiting ∧ Json.Distinct r.subjectHash ∧ r.createdAt.Distinct ∧
      ∀ p ∈ r.estimatedCosts, p.2.map fm.float = p.2.map some))

structure Gives (fm : CardFormats) (r : RequestFields) (b : RequestBody) : Prop where
  kind : r.kind = .string b.kind
  experimentId : r.experimentId = .string b.experimentId
  question : r.question = .string b.question
  alternatives : sortedItems r.alternatives = b.alternatives
  recommendedAction : r.recommendedAction = .string b.recommendedAction
  evidenceRefs : r.evidenceRefs = b.evidenceRefs.map .string
  uncertainty : sorted r.uncertainty = b.uncertainty
  consequenceOfWaiting : sorted r.consequenceOfWaiting = b.consequenceOfWaiting
  estimatedCosts : r.estimatedCosts = b.estimatedCosts.map fun p => (.string p.1, some p.2)
  subjectHash : sorted r.subjectHash = b.subjectHash
  payload : canonicalObject fm r.payload = .ok b.payload
  createdAt : r.createdAt.sorted = b.createdAt

theorem gives_of_normalise {r : RequestFields} {b : RequestBody} (h : normalise fm r = .ok b) : Gives fm r b := by
  unfold normalise at h
  simp only [bind_ok_iff] at h
  obtain ⟨kind, hkind, experimentId, hexperiment, question, hquestion, policy, hpolicy, action, haction, alternatives,
    halternatives, subject, hsubject, refs, hrefs, costs, hcosts, payload, hpayload, hb⟩ := h
  cases hb
  exact {
    kind := (nonEmpty_ok_iff.mp hkind).1
    experimentId := (nonEmpty_ok_iff.mp hexperiment).1
    question := (nonEmpty_ok_iff.mp hquestion).1
    alternatives := (someOf_ok_iff.mp halternatives).2
    recommendedAction := (allowedAction_ok_iff.mp haction).1
    evidenceRefs := (refsOf_ok_iff.mp hrefs).1
    uncertainty := rfl
    consequenceOfWaiting := rfl
    estimatedCosts := costsOf_again hcosts
    subjectHash := (subjectOf_again hsubject).1.symm
    payload := hpayload
    createdAt := rfl }

theorem gives_again {r : RequestFields} {b : RequestBody} (h : Gives fm r b) : Gives fm b.fields b where
  kind := rfl
  experimentId := rfl
  question := rfl
  alternatives := by
    rw [RequestBody.fields, ← h.alternatives, sortedItems_sortedItems]
  recommendedAction := rfl
  evidenceRefs := rfl
  uncertainty := by
    rw [RequestBody.fields, ← h.uncertainty, sorted_sorted]
  consequenceOfWaiting := by
    rw [RequestBody.fields, ← h.consequenceOfWaiting, sorted_sorted]
  estimatedCosts := rfl
  subjectHash := by
    rw [RequestBody.fields, ← h.subjectHash, sorted_sorted]
  payload := canonicalObject_again h.payload
  createdAt := by
    rw [RequestBody.fields, ← h.createdAt]
    cases r.createdAt with
    | nonFinite => rfl
    | value x => rw [Stamp.sorted, Stamp.sorted, sorted_sorted]

theorem normalise_of_gives {r r' : RequestFields} {b : RequestBody} (hr' : normalise fm r' = .ok b) (h : Gives fm r b) :
    normalise fm r = .ok b := by
  unfold normalise at hr' ⊢
  simp only [bind_ok_iff] at hr' ⊢
  obtain ⟨kind, hkind, experimentId, hexperiment, question, hquestion, policy, hpolicy, action, haction, alternatives,
    halternatives, subject, hsubject, refs, hrefs, costs, hcosts, payload, hpayload, hbody⟩ := hr'
  cases hbody
  refine ⟨kind, nonEmpty_ok_iff.mpr ⟨h.kind, (nonEmpty_ok_iff.mp hkind).2⟩, experimentId,
    nonEmpty_ok_iff.mpr ⟨h.experimentId, (nonEmpty_ok_iff.mp hexperiment).2⟩, question,
    nonEmpty_ok_iff.mpr ⟨h.question, (nonEmpty_ok_iff.mp hquestion).2⟩, policy, hpolicy, action,
    allowedAction_ok_iff.mpr ⟨h.recommendedAction, (allowedAction_ok_iff.mp haction).2⟩, alternatives,
    someOf_ok_iff.mpr ⟨?_, h.alternatives⟩, subject, subjectOf_of_sorted h.subjectHash (subjectOf_again hsubject).2, refs,
    refsOf_ok_iff.mpr ⟨h.evidenceRefs, (refsOf_ok_iff.mp hrefs).2⟩, costs, ?_, payload, h.payload, ?_⟩
  · intro hnil
    obtain ⟨hsome, hsorted⟩ := someOf_ok_iff.mp halternatives
    have hempty : sortedItems r.alternatives = [] := by rw [hnil, sortedItems]
    rw [h.alternatives] at hempty
    have hempty : sortedItems r'.alternatives = [] := hsorted.trans hempty
    cases hxs : r'.alternatives with
    | nil => exact hsome hxs
    | cons x xs =>
      rw [hxs, sortedItems] at hempty
      exact nomatch hempty
  · rw [h.estimatedCosts, ← costsOf_again hcosts]
    exact hcosts
  · rw [h.uncertainty, h.consequenceOfWaiting, h.createdAt]
    rfl

theorem normalise_again {r : RequestFields} {b : RequestBody} (h : normalise fm r = .ok b) :
    normalise fm b.fields = .ok b :=
  normalise_of_gives h (gives_again (gives_of_normalise h))

theorem proper_again {r : RequestFields} {b : RequestBody} (h : normalise fm r = .ok b) (hr : r.Proper fm) :
    b.fields.Proper fm := by
  have hgives := gives_of_normalise h
  obtain ⟨halternatives, huncertainty, hconsequence, hsubject, hcreated, hcosts⟩ := hr
  refine ⟨?_, ?_, ?_, ?_, ?_, ?_⟩
  · rw [RequestBody.fields, ← hgives.alternatives]
    exact distinctItems_sorted _ halternatives
  · rw [RequestBody.fields, ← hgives.uncertainty]
    exact distinct_sorted _ huncertainty
  · rw [RequestBody.fields, ← hgives.consequenceOfWaiting]
    exact distinct_sorted _ hconsequence
  · rw [RequestBody.fields, ← hgives.subjectHash]
    exact distinct_sorted _ hsubject
  · rw [RequestBody.fields, ← hgives.createdAt]
    cases hstamp : r.createdAt with
    | nonFinite => trivial
    | value x =>
      rw [hstamp] at hcreated
      exact distinct_sorted _ hcreated
  · rw [RequestBody.fields, ← hgives.estimatedCosts]
    exact hcosts

variable (fm)

structure DecisionRequest extends RequestBody where
  normalised : normalise fm toRequestBody.fields = .ok toRequestBody
  proper : toRequestBody.fields.Proper fm

def DecisionRequest.make (r : RequestFields) : Except CardFault (DecisionRequest fm) :=
  if hr : r.Proper fm then
    match h : normalise fm r with
    | .error e => .error e
    | .ok b => .ok { b with normalised := normalise_again h, proper := proper_again h hr }
  else .error .typeError

def textsJson (ts : List Text) : Value := .array (ts.map .string)

def costsJson (costs : List (Text × Numeral)) : Value := .array (costs.map fun p => .array [.string p.1, .number p.2])

def RequestBody.content (b : RequestBody) : List (Text × Value) :=
  [("kind_".toList, .string "decision_request".toList), ("kind".toList, .string b.kind),
    ("experiment_id".toList, .string b.experimentId), ("question".toList, .string b.question),
    ("alternatives".toList, .array b.alternatives), ("recommended_action".toList, .string b.recommendedAction),
    ("evidence_refs".toList, textsJson b.evidenceRefs), ("uncertainty".toList, b.uncertainty),
    ("consequence_of_waiting".toList, b.consequenceOfWaiting), ("estimated_costs".toList, costsJson b.estimatedCosts),
    ("subject_hash".toList, b.subjectHash), ("payload".toList, .string b.payload),
    ("allowed_actions".toList, textsJson b.policy.allowedActions),
    ("default_action".toList, .string b.policy.defaultAction), ("approval_required".toList, .bool b.policy.approvalRequired)]

def RequestBody.requestId (b : RequestBody) : Text := fm.hash (dumpsCompact (.object b.content))

def RequestBody.toJson (b : RequestBody) (createdAt : Value) : List (Text × Value) :=
  [("schema_version".toList, .number (.ofNat 1)), ("request_id".toList, .string (b.requestId fm)),
    ("kind".toList, .string b.kind), ("experiment_id".toList, .string b.experimentId),
    ("question".toList, .string b.question), ("alternatives".toList, .array b.alternatives),
    ("recommended_action".toList, .string b.recommendedAction), ("evidence_refs".toList, textsJson b.evidenceRefs),
    ("uncertainty".toList, b.uncertainty), ("consequence_of_waiting".toList, b.consequenceOfWaiting),
    ("estimated_costs".toList, costsJson b.estimatedCosts), ("subject_hash".toList, b.subjectHash),
    ("payload".toList, .string b.payload), ("created_at".toList, createdAt),
    ("allowed_actions".toList, textsJson b.policy.allowedActions),
    ("default_action".toList, .string b.policy.defaultAction), ("approval_required".toList, .bool b.policy.approvalRequired)]

/-- `canonical_json(r.to_json())`, which raises for a float that is not finite. -/
def RequestBody.line (b : RequestBody) : Option Text :=
  match b.createdAt with
  | .value x => some (dumpsCompact (.object (b.toJson fm x)))
  | .nonFinite => none

def tupleOf : Value → Except CardFault (List Value)
  | .array xs => .ok xs
  | .string s => .ok (s.map fun c => .string [c])
  | .object ps => .ok (ps.map fun p => .string p.1)
  | _ => .error .typeError

def floatOf : Value → Except CardFault (Option Numeral)
  | .number n =>
    match fm.float n with
    | some m => .ok (some m)
    | none => if n.isInteger then .error .overflowError else .ok none
  | .bool b => .ok (some (if b then one else zero))
  | .string t =>
    match fm.floatText t with
    | some m => .ok m
    | none => refused ("could not convert string to float: ".toList ++ fm.repr (.string t))
  | _ => .error .typeError

def costPair (x : Value) : Except CardFault (Value × Option Numeral) := do
  let pair ← tupleOf x
  match pair with
  | [] => refused "not enough values to unpack (expected 2, got 0)".toList
  | [_] => refused "not enough values to unpack (expected 2, got 1)".toList
  | [action, cost] => do
    let amount ← floatOf fm cost
    return (action, amount)
  | _ => refused "too many values to unpack (expected 2)".toList

def costPairs : List Value → Except CardFault (List (Value × Option Numeral))
  | [] => .ok []
  | x :: xs => do
    let pair ← costPair fm x
    let pairs ← costPairs xs
    return pair :: pairs

def falsy : Value → Bool
  | .null => true
  | .bool b => !b
  | .number n => (n.text.takeWhile fun c => c ≠ 'e' ∧ c ≠ 'E').all fun c => !('1' ≤ c && c ≤ '9')
  | _ => false

def actionsOf (x : Option Value) : Except CardFault (List Value) :=
  match x with
  | none => .ok []
  | some x => if falsy x then .ok [] else tupleOf x

def isText (t : Text) : Option Value → Bool
  | some (.string s) => s = t
  | _ => false

def areTexts : List Text → List Value → Bool
  | [], [] => true
  | t :: ts, x :: xs => isText t (some x) && areTexts ts xs
  | _, _ => false

/-- `x == b` for a truth value: a number equals one too. -/
def isFlag (b : Bool) : Option Value → Bool
  | some (.bool c) => c = b
  | some (.number n) => if b then isOne (some (.number n)) else falsy (.number n)
  | _ => false

def fieldNames : List Text :=
  ["schema_version".toList, "request_id".toList, "kind".toList, "experiment_id".toList, "question".toList,
    "alternatives".toList, "recommended_action".toList, "evidence_refs".toList, "uncertainty".toList,
    "consequence_of_waiting".toList, "estimated_costs".toList, "subject_hash".toList, "payload".toList,
    "created_at".toList, "allowed_actions".toList, "default_action".toList, "approval_required".toList]

def required (ps : List (Text × Value)) (name : Text) : Except CardFault Value :=
  match get ps name with
  | some x => .ok x
  | none => .error .typeError

def noOther (ps : List (Text × Value)) : Except CardFault Unit :=
  if ps.all fun p => p.1 ∈ fieldNames then .ok () else .error .typeError

variable {fm}

def DecisionRequest.identified (ps : List (Text × Value)) (r : DecisionRequest fm) :
    Except CardFault (DecisionRequest fm) :=
  if isText (r.requestId fm) (get ps "request_id".toList) = false then
    refused "DecisionRequest content does not match request_id".toList
  else do
    let allowed ← actionsOf (get ps "allowed_actions".toList)
    if (areTexts r.policy.allowedActions allowed && isText r.policy.defaultAction (get ps "default_action".toList) &&
        isFlag r.policy.approvalRequired (get ps "approval_required".toList)) = false then
      refused "DecisionRequest policy fields do not match kind".toList
    else return r

def DecisionRequest.fromJson (fm : CardFormats) (ps : List (Text × Value)) : Except CardFault (DecisionRequest fm) :=
  if isOne (get ps "schema_version".toList) = false then
    refused "DecisionRequest schema_version must be 1".toList
  else do
    let alternatives ← tupleOf ((get ps "alternatives".toList).getD (.array []))
    let evidenceRefs ← tupleOf ((get ps "evidence_refs".toList).getD (.array []))
    let costs ← tupleOf ((get ps "estimated_costs".toList).getD (.array []))
    let estimatedCosts ← costPairs fm costs
    noOther ps
    let kind ← required ps "kind".toList
    let experimentId ← required ps "experiment_id".toList
    let question ← required ps "question".toList
    let recommendedAction ← required ps "recommended_action".toList
    let request ← DecisionRequest.make fm {
      kind, experimentId, question, alternatives, recommendedAction, evidenceRefs, estimatedCosts
      uncertainty := (get ps "uncertainty".toList).getD (.string [])
      consequenceOfWaiting := (get ps "consequence_of_waiting".toList).getD (.string [])
      subjectHash := (get ps "subject_hash".toList).getD (.string [])
      payload := (get ps "payload".toList).getD (.string "\x7b\x7d".toList)
      createdAt := .value ((get ps "created_at".toList).getD (.number zero)) }
    request.identified ps

end EvoHarness.Research.Cards
