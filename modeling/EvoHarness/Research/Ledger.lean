import EvoHarness.Library.FirstSeen
import EvoHarness.Research.Inbox

/-! The inbox as a ledger: requests and their answers in two tables of one database, written by
the transactions of any number of processes. -/
namespace EvoHarness.Research
open PyText

structure CanonicalEncoders extends Encoders where
  canonical_again : ∀ t c, canonicalObject t = .ok c → canonicalObject c = .ok c

inductive Refusal where
  | inboxError (message : Text)
  | storeError (message : Text)
  | fault (e : Fault)
deriving DecidableEq

def decisionActions : List Text :=
  ["approve".toList, "veto".toList, "branch".toList, "revise".toList, "request-more-evidence".toList,
    "approve-protocol-change".toList]

variable {enc : CanonicalEncoders} {ω : Type}

structure RequestJson where
  schemaVersion : ℕ
  requestId : Text
  body : RequestBody
  createdAt : ℚ
  allowedActions : List Text
  defaultAction : Text
  approvalRequired : Bool
deriving DecidableEq

def derivedPolicy (kind : Text) : DecisionPolicy := (policyOf kind).getD ⟨[], [], true⟩

def DecisionRequest.toJson (r : DecisionRequest enc.toEncoders) : RequestJson where
  schemaVersion := 1
  requestId := r.requestId
  body := r.toRequestBody
  createdAt := r.createdAt
  allowedActions := (derivedPolicy r.kind).allowedActions
  defaultAction := (derivedPolicy r.kind).defaultAction
  approvalRequired := (derivedPolicy r.kind).approvalRequired

/-- `DecisionRequest.from_json` derives the policy fields again. -/
def requestFromJson (enc : CanonicalEncoders) (j : RequestJson) : Except Fault (DecisionRequest enc.toEncoders) :=
  if j.schemaVersion ≠ 1 then .error (.valueError "DecisionRequest schema_version must be 1".toList)
  else
    match DecisionRequest.make enc.toEncoders j.body j.createdAt with
    | .error e => .error e
    | .ok r =>
      if j.requestId ≠ r.requestId then
        .error (.valueError "DecisionRequest content does not match request_id".toList)
      else if derivedPolicy r.kind ≠ ⟨j.allowedActions, j.defaultAction, j.approvalRequired⟩ then
        .error (.valueError "DecisionRequest policy fields do not match kind".toList)
      else .ok r

structure RequestRow where
  requestId : Text
  experimentId : Text
  payload : RequestJson

/-- A row of `research_decisions`. `writer` is the process that wrote it. -/
structure DecisionRow (ω : Type) where
  requestId : Option Text
  decision : ResearchDecision
  writer : ω

/-- Both tables, in the order of their sequence numbers. `submitted` are the requests whose
submission wrote a row. -/
structure Ledger (enc : CanonicalEncoders) (ω : Type) where
  requests : List RequestRow := []
  decisions : List (DecisionRow ω) := []
  submitted : List (DecisionRequest enc.toEncoders) := []

def Ledger.answered? (l : Ledger enc ω) (requestId : Text) : Bool :=
  l.decisions.any fun d => d.requestId = some requestId

def Ledger.findRequest (l : Ledger enc ω) (requestId : Text) : Option RequestRow :=
  l.requests.find? (·.requestId = requestId)

def decodeAll (enc : CanonicalEncoders) : List RequestRow → Except Fault (List (DecisionRequest enc.toEncoders))
  | [] => .ok []
  | row :: rest =>
    match requestFromJson enc row.payload with
    | .error e => .error e
    | .ok r =>
      match decodeAll enc rest with
      | .error e => .error e
      | .ok rs => .ok (r :: rs)

def Ledger.pending (l : Ledger enc ω) : Except Fault (List (DecisionRequest enc.toEncoders)) :=
  decodeAll enc (l.requests.filter fun row => !l.answered? row.requestId)

def Ledger.get (l : Ledger enc ω) (requestId : Text) : Except Refusal (DecisionRequest enc.toEncoders) :=
  match l.findRequest requestId with
  | none => .error (.inboxError ("unknown request ".toList ++ requestId))
  | some row =>
    match requestFromJson enc row.payload with
    | .error e => .error (.fault e)
    | .ok r => .ok r

def Ledger.decision (l : Ledger enc ω) (requestId : Text) : Option ResearchDecision :=
  (l.decisions.find? fun d => d.requestId = some requestId).map (·.decision)

def Ledger.requireDecision (l : Ledger enc ω) (requestId kind action experimentId subjectHash : Text) :
    Except Refusal (DecisionRequest enc.toEncoders × ResearchDecision) :=
  match l.get requestId with
  | .error e => .error e
  | .ok request =>
    match l.decision requestId with
    | none => .error (.inboxError ("request ".toList ++ requestId ++ " has not been answered".toList))
    | some decision =>
      if request.kind ≠ kind then
        .error (.inboxError ("request kind is ".toList ++ enc.repr request.kind ++ ", expected ".toList ++ enc.repr kind))
      else if decision.action ≠ action then
        .error (.inboxError ("decision action is ".toList ++ enc.repr decision.action ++ ", expected ".toList ++
          enc.repr action))
      else if request.experimentId ≠ experimentId ∨ decision.experimentId ≠ experimentId then
        .error (.inboxError "decision is attached to a different experiment".toList)
      else if request.subjectHash ≠ subjectHash then
        .error (.inboxError "decision was issued for a different subject".toList)
      else .ok (request, decision)

/-- `loaded` says whether the experiment of the request could be loaded before. -/
def Ledger.submit (l : Ledger enc ω) (r : DecisionRequest enc.toEncoders) (loaded : Except Fault Unit) :
    Except Refusal Text × Ledger enc ω :=
  match loaded with
  | .error e => (.error (.fault e), l)
  | .ok () =>
    match l.findRequest r.requestId with
    | none =>
      (.ok r.requestId,
        { l with requests := l.requests ++ [⟨r.requestId, r.experimentId, r.toJson⟩], submitted := l.submitted ++ [r] })
    | some row =>
      if row.payload ≠ r.toJson then
        (.error (.inboxError "request_id collision with different content".toList), l)
      else (.ok r.requestId, l)

def checkDecision (enc : Encoders) (d : ResearchDecision) : Except Fault Unit :=
  if d.action ∉ decisionActions then
    .error (.valueError ("unknown decision action ".toList ++ enc.repr d.action ++ "; expected one of ".toList ++
      enc.reprs (decisionActions.mergeSort fun a b => decide (a ≤ b))))
  else
    match [("experiment_id".toList, d.experimentId), ("reason".toList, d.reason), ("actor".toList, d.actor)].find?
        (fun p => strip p.2 = []) with
    | some (name, _) => .error (.valueError (name ++ " must be non-empty".toList))
    | none => .ok ()

structure Answering where
  requestId : Text
  action : Text
  actor : Text
  reason : Text
  source : Text
  now : ℚ

def refuseAction (enc : Encoders) (r : DecisionRequest enc) (action : Text) : Refusal :=
  .inboxError ("action ".toList ++ enc.repr action ++ " not allowed for ".toList ++ r.kind ++
    " card (allowed: ".toList ++ enc.reprs (derivedPolicy r.kind).allowedActions ++ ")".toList)

def Answering.decision (a : Answering) (experimentId : Text) : ResearchDecision :=
  ⟨experimentId, a.action, a.reason, a.actor, a.now, a.requestId, a.source⟩

def Ledger.answerOf (l : Ledger enc ω) (w : ω) (r : DecisionRequest enc.toEncoders) (a : Answering) :
    Except Refusal ResearchDecision × Ledger enc ω :=
  if a.action ∉ (derivedPolicy r.kind).allowedActions then (.error (refuseAction enc.toEncoders r a.action), l)
  else if l.answered? a.requestId = true then
    (.error (.inboxError ("request ".toList ++ a.requestId ++ " already answered".toList)), l)
  else
    match checkDecision enc.toEncoders (a.decision r.experimentId) with
    | .error e => (.error (.fault e), l)
    | .ok () =>
      (.ok (a.decision r.experimentId),
        { l with decisions := l.decisions ++ [⟨some a.requestId, a.decision r.experimentId, w⟩] })

def Ledger.answer (l : Ledger enc ω) (authorized : List Text) (w : ω) (a : Answering) :
    Except Refusal ResearchDecision × Ledger enc ω :=
  if a.actor ∉ authorized then
    (.error (.inboxError ("actor ".toList ++ enc.repr a.actor ++ " is not authorized for this inbox".toList)), l)
  else
    match l.get a.requestId with
    | .error e => (.error e, l)
    | .ok r => l.answerOf w r a

def bypassMessage : Text :=
  ("decisions tied to a request must be committed through InboxStore.answer() so authorization and " ++
    "one-answer transaction rules cannot be bypassed").toList

/-- `ResearchStore.append_decision`, the second writer of the table. -/
def Ledger.appendDecision (l : Ledger enc ω) (w : ω) (d : ResearchDecision) (loaded : Except Fault Unit) :
    Except Refusal Unit × Ledger enc ω :=
  match loaded with
  | .error e => (.error (.fault e), l)
  | .ok () =>
    if d.requestId ≠ [] then (.error (.storeError bypassMessage), l)
    else (.ok (), { l with decisions := l.decisions ++ [⟨none, d, w⟩] })

inductive Transaction where
  | submit (body : RequestBody) (createdAt : ℚ) (loaded : Except Fault Unit)
  | answer (a : Answering)
  | appendDecision (d : ResearchDecision) (loaded : Except Fault Unit)

/-- One transaction of process `w`, whose inbox has its own authorized actors. -/
def Ledger.commit (authorized : ω → List Text) (l : Ledger enc ω) (t : ω × Transaction) : Ledger enc ω :=
  match t.2 with
  | .submit body createdAt loaded =>
    match DecisionRequest.make enc.toEncoders body createdAt with
    | .error _ => l
    | .ok r => (l.submit r loaded).2
  | .answer a => (l.answer (authorized t.1) t.1 a).2
  | .appendDecision d loaded => (l.appendDecision t.1 d loaded).2

def Ledger.after (authorized : ω → List Text) (l : Ledger enc ω) (ts : List (ω × Transaction)) : Ledger enc ω :=
  ts.foldl (Ledger.commit authorized) l

/-- The request of a call of `submit` that returned. -/
def Ledger.acknowledgedBy (l : Ledger enc ω) (t : ω × Transaction) : List (DecisionRequest enc.toEncoders) :=
  match t.2 with
  | .submit body createdAt loaded =>
    match DecisionRequest.make enc.toEncoders body createdAt with
    | .error _ => []
    | .ok r =>
      match (l.submit r loaded).1 with
      | .error _ => []
      | .ok _ => [r]
  | _ => []

/-- The requests whose submission returned, in the order of the calls. -/
def Ledger.acknowledged (authorized : ω → List Text) (l : Ledger enc ω) :
    List (ω × Transaction) → List (DecisionRequest enc.toEncoders)
  | [] => []
  | t :: ts => l.acknowledgedBy t ++ (l.commit authorized t).acknowledged authorized ts

structure Ledger.Sound (authorized : ω → List Text) (l : Ledger enc ω) : Prop where
  once : (l.decisions.filterMap (·.requestId)).Nodup
  pending : l.pending = .ok (l.submitted.filter fun r => !l.answered? r.requestId)
  decided : ∀ d ∈ l.decisions, ∀ q, d.requestId = some q → d.decision.actor ∈ authorized d.writer ∧
    ∃ r ∈ l.submitted, r.requestId = q ∧ ∃ policy, policyOf r.kind = some policy ∧
      d.decision.action ∈ policy.allowedActions

/-- What the calls tell of the ledger after them: the submitted requests are those whose submission returned, each once and
where it was first; a submission returns unless its experiment cannot be loaded or another request with its id was
acknowledged; and the decision that an answer returned is the one that is read later. -/
structure Recorded (enc : CanonicalEncoders) (authorized : ω → List Text) (ts : List (ω × Transaction)) : Prop where
  submitted : (({} : Ledger enc ω).after authorized ts).submitted =
    FirstSeen.addAll [] (({} : Ledger enc ω).acknowledged authorized ts)
  returned : ∀ before w body createdAt loaded rest r, ts = before ++ (w, .submit body createdAt loaded) :: rest →
    DecisionRequest.make enc.toEncoders body createdAt = .ok r →
      (((({} : Ledger enc ω).after authorized before).submit r loaded).1 = .ok r.requestId ↔ loaded = .ok () ∧
        ∀ r' ∈ ({} : Ledger enc ω).acknowledged authorized before, r'.requestId = r.requestId → r' = r)
  answered : ∀ before w a rest d, ts = before ++ (w, .answer a) :: rest →
    ((({} : Ledger enc ω).after authorized before).answer (authorized w) w a).1 = .ok d →
      (({} : Ledger enc ω).after authorized ts).decision a.requestId = some d

def DecisionRequest.Canonical (r : DecisionRequest enc.toEncoders) : Prop :=
  enc.canonicalObject r.payload = .ok r.payload

theorem make_canonical {b : RequestBody} {createdAt : ℚ} {r : DecisionRequest enc.toEncoders}
    (h : DecisionRequest.make enc.toEncoders b createdAt = .ok r) : r.Canonical := by
  unfold DecisionRequest.make at h
  split at h
  · exact nomatch h
  · next payload hpayload =>
    split at h
    · obtain rfl := Except.ok.inj h
      exact enc.canonical_again b.payload payload hpayload
    · exact nomatch h

theorem make_again {r : DecisionRequest enc.toEncoders} (hr : r.Canonical) :
    DecisionRequest.make enc.toEncoders r.toRequestBody r.createdAt = .ok r := by
  unfold DecisionRequest.make
  rw [hr]
  dsimp only
  split
  · rfl
  · next e he =>
    have hchecked : r.toRequestBody.check enc.toEncoders = .error e := he
    rw [r.checked] at hchecked
    cases hchecked

theorem decode_encode {r : DecisionRequest enc.toEncoders} (hr : r.Canonical) :
    requestFromJson enc r.toJson = .ok r := by
  unfold requestFromJson DecisionRequest.toJson
  simp only [make_again hr, ne_eq, not_true_eq_false, if_false]

theorem policyOf_of_checked (r : DecisionRequest enc.toEncoders) :
    policyOf r.kind = some (derivedPolicy r.kind) := by
  have h := r.checked
  unfold RequestBody.check at h
  split at h
  · exact nomatch h
  · cases hp : policyOf r.kind with
    | none =>
      rw [hp] at h
      exact nomatch h
    | some policy => rw [derivedPolicy, hp, Option.getD_some]

structure Kept (authorized : ω → List Text) (l : Ledger enc ω) : Prop where
  rows : l.requests = l.submitted.map fun r => ⟨r.requestId, r.experimentId, r.toJson⟩
  canonical : ∀ r ∈ l.submitted, r.Canonical
  distinct : (l.submitted.map (·.requestId)).Nodup
  once : (l.decisions.filterMap (·.requestId)).Nodup
  decided : ∀ d ∈ l.decisions, ∀ q, d.requestId = some q → d.decision.actor ∈ authorized d.writer ∧
    ∃ r ∈ l.submitted, r.requestId = q ∧ ∃ policy, policyOf r.kind = some policy ∧
      d.decision.action ∈ policy.allowedActions

variable {authorized : ω → List Text} {l : Ledger enc ω}

theorem kept_empty : Kept authorized ({} : Ledger enc ω) :=
  ⟨rfl, fun _ hr => (List.not_mem_nil hr).elim, List.nodup_nil, List.nodup_nil, fun _ hd => (List.not_mem_nil hd).elim⟩

theorem decodeAll_submitted {rs : List (DecisionRequest enc.toEncoders)} (h : ∀ r ∈ rs, r.Canonical) :
    decodeAll enc (rs.map fun r => ⟨r.requestId, r.experimentId, r.toJson⟩) = .ok rs := by
  induction rs with
  | nil => rfl
  | cons r rs ih =>
    rw [List.map_cons, decodeAll, decode_encode (h r List.mem_cons_self),
      ih fun r' hr' => h r' (List.mem_cons_of_mem r hr')]

theorem Kept.sound (h : Kept authorized l) : l.Sound authorized := by
  refine ⟨h.once, ?_, h.decided⟩
  unfold Ledger.pending
  rw [h.rows, List.filter_map]
  exact decodeAll_submitted fun r hr => h.canonical r (List.mem_of_mem_filter hr)

theorem Kept.get (h : Kept authorized l) {q : Text} {r : DecisionRequest enc.toEncoders} (hget : l.get q = .ok r) :
    r ∈ l.submitted ∧ r.requestId = q := by
  unfold Ledger.get Ledger.findRequest at hget
  split at hget
  · exact nomatch hget
  · next row hrow =>
    have hmem := List.mem_of_find?_eq_some hrow
    have hid : row.requestId = q := of_decide_eq_true (List.find?_some (p := fun row : RequestRow => decide (row.requestId = q)) hrow)
    rw [h.rows] at hmem
    obtain ⟨r', hr', rfl⟩ := List.mem_map.mp hmem
    rw [show requestFromJson enc r'.toJson = .ok r' from decode_encode (h.canonical r' hr')] at hget
    obtain rfl := Except.ok.inj hget
    exact ⟨hr', hid⟩

theorem answered_false {q : Text} (h : ¬l.answered? q = true) :
    q ∉ l.decisions.filterMap (·.requestId) := by
  intro hq
  obtain ⟨d, hd, hdq⟩ := List.mem_filterMap.mp hq
  exact h (List.any_eq_true.mpr ⟨d, hd, decide_eq_true hdq⟩)

theorem toJson_injective : Function.Injective fun r : DecisionRequest enc.toEncoders => r.toJson := by
  intro r r' h
  have hbody : r.toRequestBody = r'.toRequestBody := congrArg RequestJson.body h
  have htime : r.createdAt = r'.createdAt := congrArg RequestJson.createdAt h
  cases r
  cases r'
  cases hbody
  cases htime
  rfl

theorem Kept.fresh (h : Kept authorized l) {q : Text} (hfind : l.findRequest q = none) : ∀ r ∈ l.submitted, r.requestId ≠ q := by
  intro r hr hid
  unfold Ledger.findRequest at hfind
  rw [h.rows, List.find?_eq_none] at hfind
  exact hfind _ (List.mem_map_of_mem hr) (decide_eq_true hid)

theorem Kept.found (h : Kept authorized l) {q : Text} {row : RequestRow} (hfind : l.findRequest q = some row) :
    ∃ r ∈ l.submitted, r.requestId = q ∧ row.payload = r.toJson := by
  have hmem := List.mem_of_find?_eq_some hfind
  have hid : row.requestId = q := of_decide_eq_true (List.find?_some (p := fun row : RequestRow => decide (row.requestId = q)) hfind)
  rw [h.rows] at hmem
  obtain ⟨r, hr, rfl⟩ := List.mem_map.mp hmem
  exact ⟨r, hr, hid, rfl⟩

/-- A submission returns exactly when its experiment is loaded and no other request has its id. -/
theorem Kept.submit_ok_iff (h : Kept authorized l) (r : DecisionRequest enc.toEncoders) (loaded : Except Fault Unit) :
    (l.submit r loaded).1 = .ok r.requestId ↔ loaded = .ok () ∧ ∀ r' ∈ l.submitted, r'.requestId = r.requestId → r' = r := by
  unfold Ledger.submit
  cases loaded with
  | error e => exact iff_of_false (fun hok => nomatch hok) fun hok => nomatch hok.1
  | ok u =>
    dsimp only
    cases hfind : l.findRequest r.requestId with
    | none => exact iff_of_true rfl ⟨rfl, fun r' hr' hid => absurd hid (h.fresh hfind r' hr')⟩
    | some row =>
      obtain ⟨found, hfound, hid, hpayload⟩ := h.found hfind
      dsimp only
      by_cases hsame : row.payload = r.toJson
      · rw [if_neg (not_not.mpr hsame)]
        obtain rfl : found = r := toJson_injective (hpayload.symm.trans hsame)
        exact iff_of_true rfl ⟨rfl, fun r' hr' hid' => List.inj_on_of_nodup_map h.distinct hr' hfound hid'⟩
      · rw [if_pos hsame]
        exact iff_of_false (fun hok => nomatch hok) fun hok => hsame (hpayload.trans (congrArg _ (hok.2 found hfound hid)))

theorem Kept.submit (h : Kept authorized l) {r : DecisionRequest enc.toEncoders} (hr : r.Canonical)
    (loaded : Except Fault Unit) : Kept authorized (l.submit r loaded).2 := by
  unfold Ledger.submit
  cases loaded with
  | error e => exact h
  | ok u =>
    dsimp only
    cases hfind : l.findRequest r.requestId with
    | some row =>
      dsimp only
      split
      · exact h
      · exact h
    | none =>
      refine ⟨?_, ?_, ?_, h.once, ?_⟩
      · show l.requests ++ _ = (l.submitted ++ [r]).map _
        rw [h.rows, List.map_append]
        rfl
      · intro r' hr'
        cases List.mem_append.mp hr' with
        | inl hmem => exact h.canonical r' hmem
        | inr hmem => rw [List.mem_singleton.mp hmem]; exact hr
      · show ((l.submitted ++ [r]).map (·.requestId)).Nodup
        rw [List.map_append, List.map_singleton]
        refine List.nodup_append.mpr ⟨h.distinct, List.nodup_singleton _, ?_⟩
        intro q hq q' hq' heq
        obtain ⟨r', hr', hid⟩ := List.mem_map.mp hq
        exact h.fresh hfind r' hr' (hid.trans (heq.trans (List.mem_singleton.mp hq')))
      · intro d hd q hq
        obtain ⟨hactor, r', hr', hrest⟩ := h.decided d hd q hq
        exact ⟨hactor, r', List.mem_append_left _ hr', hrest⟩

theorem Kept.answerOf (h : Kept authorized l) {w : ω} {r : DecisionRequest enc.toEncoders} {a : Answering}
    (hmem : r ∈ l.submitted) (hid : r.requestId = a.requestId) (hactor : a.actor ∈ authorized w) :
    Kept authorized (l.answerOf w r a).2 := by
  unfold Ledger.answerOf
  split
  · exact h
  · next haction =>
    split
    · exact h
    · next hnew =>
      split
      · exact h
      · refine ⟨h.rows, h.canonical, h.distinct, ?_, ?_⟩
        · show ((l.decisions ++ [_]).filterMap DecisionRow.requestId).Nodup
          rw [List.filterMap_append]
          refine List.nodup_append.mpr ⟨h.once, List.nodup_singleton _, ?_⟩
          intro q hq q' hq' heq
          rw [List.mem_singleton.mp hq'] at heq
          rw [heq] at hq
          exact answered_false hnew hq
        · intro d hd q hq
          cases List.mem_append.mp hd with
          | inl hd => exact h.decided d hd q hq
          | inr hd =>
            rw [List.mem_singleton.mp hd] at hq ⊢
            have heq : a.requestId = q := Option.some.inj hq
            exact ⟨hactor, r, hmem, hid.trans heq, derivedPolicy r.kind, policyOf_of_checked r, not_not.mp haction⟩

theorem Kept.answer (h : Kept authorized l) (w : ω) (a : Answering) :
    Kept authorized (l.answer (authorized w) w a).2 := by
  unfold Ledger.answer
  split
  · exact h
  · next hactor =>
    cases hget : l.get a.requestId with
    | error e => exact h
    | ok r =>
      obtain ⟨hmem, hid⟩ := h.get hget
      exact h.answerOf hmem hid (not_not.mp hactor)

theorem Kept.appendDecision (h : Kept authorized l) (w : ω) (d : ResearchDecision) (loaded : Except Fault Unit) :
    Kept authorized (l.appendDecision w d loaded).2 := by
  unfold Ledger.appendDecision
  cases loaded with
  | error e => exact h
  | ok u =>
    dsimp only
    split
    · exact h
    · refine ⟨h.rows, h.canonical, h.distinct, ?_, ?_⟩
      · show ((l.decisions ++ [_]).filterMap DecisionRow.requestId).Nodup
        rw [List.filterMap_append, List.filterMap_cons_none rfl, List.filterMap_nil, List.append_nil]
        exact h.once
      · intro d' hd' q hq
        cases List.mem_append.mp hd' with
        | inl hd' => exact h.decided d' hd' q hq
        | inr hd' =>
          rw [List.mem_singleton.mp hd'] at hq
          exact nomatch hq

theorem Kept.commit (h : Kept authorized l) (t : ω × Transaction) : Kept authorized (l.commit authorized t) := by
  unfold Ledger.commit
  cases t.2 with
  | submit body createdAt loaded =>
    dsimp only
    cases hmake : DecisionRequest.make enc.toEncoders body createdAt with
    | error e => exact h
    | ok r => exact h.submit (make_canonical hmake) loaded
  | answer a => exact h.answer t.1 a
  | appendDecision d loaded => exact h.appendDecision t.1 d loaded

theorem decisions_submit (r : DecisionRequest enc.toEncoders) (loaded : Except Fault Unit) :
    (l.submit r loaded).2.decisions = l.decisions := by
  unfold Ledger.submit
  cases loaded with
  | error e => rfl
  | ok u =>
    dsimp only
    cases l.findRequest r.requestId with
    | none => rfl
    | some row =>
      dsimp only
      split
      · rfl
      · rfl

theorem decisions_answer (actors : List Text) (w : ω) (a : Answering) :
    l.decisions <+: (l.answer actors w a).2.decisions := by
  unfold Ledger.answer
  split
  · exact List.prefix_refl _
  · cases l.get a.requestId with
    | error e => exact List.prefix_refl _
    | ok r =>
      show l.decisions <+: (l.answerOf w r a).2.decisions
      unfold Ledger.answerOf
      split
      · exact List.prefix_refl _
      · split
        · exact List.prefix_refl _
        · split
          · exact List.prefix_refl _
          · exact List.prefix_append _ _

theorem decisions_commit (t : ω × Transaction) : l.decisions <+: (l.commit authorized t).decisions := by
  unfold Ledger.commit
  cases t.2 with
  | submit body createdAt loaded =>
    dsimp only
    cases DecisionRequest.make enc.toEncoders body createdAt with
    | error e => exact List.prefix_refl _
    | ok r =>
      dsimp only
      rw [decisions_submit]
  | answer a => exact decisions_answer (authorized t.1) t.1 a
  | appendDecision d loaded =>
    dsimp only
    unfold Ledger.appendDecision
    cases loaded with
    | error e => exact List.prefix_refl _
    | ok u =>
      dsimp only
      split
      · exact List.prefix_refl _
      · exact List.prefix_append _ _

theorem submitted_submit (r : DecisionRequest enc.toEncoders) (loaded : Except Fault Unit) :
    l.submitted <+: (l.submit r loaded).2.submitted := by
  unfold Ledger.submit
  cases loaded with
  | error e => exact List.prefix_refl _
  | ok u =>
    dsimp only
    cases l.findRequest r.requestId with
    | none => exact List.prefix_append _ _
    | some row =>
      dsimp only
      split
      · exact List.prefix_refl _
      · exact List.prefix_refl _

theorem submitted_answer (actors : List Text) (w : ω) (a : Answering) :
    (l.answer actors w a).2.submitted = l.submitted := by
  unfold Ledger.answer
  split
  · rfl
  · cases l.get a.requestId with
    | error e => rfl
    | ok r =>
      show (l.answerOf w r a).2.submitted = l.submitted
      unfold Ledger.answerOf
      split
      · rfl
      · split
        · rfl
        · split
          · rfl
          · rfl

theorem submitted_commit (t : ω × Transaction) : l.submitted <+: (l.commit authorized t).submitted := by
  unfold Ledger.commit
  cases t.2 with
  | submit body createdAt loaded =>
    dsimp only
    cases DecisionRequest.make enc.toEncoders body createdAt with
    | error e => exact List.prefix_refl _
    | ok r => exact submitted_submit r loaded
  | answer a =>
    dsimp only
    rw [submitted_answer]
  | appendDecision d loaded =>
    dsimp only
    unfold Ledger.appendDecision
    cases loaded with
    | error e => exact List.prefix_refl _
    | ok u =>
      dsimp only
      split
      · exact List.prefix_refl _
      · exact List.prefix_refl _

theorem find_submit {q : Text} {row : RequestRow} (r : DecisionRequest enc.toEncoders)
    (loaded : Except Fault Unit) (h : l.findRequest q = some row) : (l.submit r loaded).2.findRequest q = some row := by
  unfold Ledger.submit
  cases loaded with
  | error e => exact h
  | ok u =>
    dsimp only
    cases l.findRequest r.requestId with
    | none =>
      unfold Ledger.findRequest at h ⊢
      dsimp only
      rw [List.find?_append, h]
      rfl
    | some other =>
      dsimp only
      split
      · exact h
      · exact h

theorem requests_answer (names : List Text) (w : ω) (a : Answering) :
    (l.answer names w a).2.requests = l.requests := by
  unfold Ledger.answer
  split
  · rfl
  · cases l.get a.requestId with
    | error e => rfl
    | ok r =>
      show (l.answerOf w r a).2.requests = l.requests
      unfold Ledger.answerOf
      split
      · rfl
      · split
        · rfl
        · split
          · rfl
          · rfl

theorem get_commit {q : Text} {r : DecisionRequest enc.toEncoders} (t : ω × Transaction) (h : l.get q = .ok r) : (l.commit authorized t).get q = .ok r := by
  have hfind {l' : Ledger enc ω} (hrows : ∀ row, l.findRequest q = some row → l'.findRequest q = some row) : l'.get q = .ok r := by
    unfold Ledger.get at h ⊢
    cases hrow : l.findRequest q with
    | none =>
      rw [hrow] at h
      cases h
    | some row =>
      rw [hrow] at h
      rw [hrows row hrow]
      exact h
  unfold Ledger.commit
  cases t.2 with
  | submit body createdAt loaded =>
    dsimp only
    cases DecisionRequest.make enc.toEncoders body createdAt with
    | error e => exact h
    | ok made => exact hfind fun row hrow => find_submit made loaded hrow
  | answer a =>
    refine hfind fun row hrow => ?_
    unfold Ledger.findRequest at hrow ⊢
    dsimp only
    rw [requests_answer]
    exact hrow
  | appendDecision d loaded =>
    refine hfind fun row hrow => ?_
    dsimp only
    unfold Ledger.appendDecision
    cases loaded with
    | error e => exact hrow
    | ok u =>
      dsimp only
      split
      · exact hrow
      · exact hrow

theorem get_after {q : Text} {r : DecisionRequest enc.toEncoders} (h : l.get q = .ok r) (ts : List (ω × Transaction)) :
    (l.after authorized ts).get q = .ok r := by
  induction ts generalizing l with
  | nil => exact h
  | cons t ts ih => exact ih (get_commit t h)

theorem decisions_after (ts : List (ω × Transaction)) : l.decisions <+: (l.after authorized ts).decisions := by
  induction ts generalizing l with
  | nil => exact List.prefix_refl _
  | cons t ts ih => exact (decisions_commit t).trans ih

theorem kept_after (h : Kept authorized l) (ts : List (ω × Transaction)) : Kept authorized (l.after authorized ts) := by
  induction ts generalizing l with
  | nil => exact h
  | cons t ts ih => exact ih (h.commit t)

theorem after_append (ts later : List (ω × Transaction)) :
    l.after authorized (ts ++ later) = (l.after authorized ts).after authorized later := by
  unfold Ledger.after
  rw [List.foldl_append]

/-- A transaction adds the request that it acknowledges, if it is new. -/
theorem Kept.acknowledge (h : Kept authorized l) (t : ω × Transaction) :
    (l.commit authorized t).submitted = FirstSeen.addAll l.submitted (l.acknowledgedBy t) := by
  unfold Ledger.commit Ledger.acknowledgedBy
  cases t.2 with
  | submit body createdAt loaded =>
    dsimp only
    cases DecisionRequest.make enc.toEncoders body createdAt with
    | error e => rfl
    | ok r =>
      dsimp only
      unfold Ledger.submit
      cases loaded with
      | error e => rfl
      | ok u =>
        dsimp only
        cases hfind : l.findRequest r.requestId with
        | none =>
          have hnew : r ∉ l.submitted := fun hr => h.fresh hfind r hr rfl
          show l.submitted ++ [r] = FirstSeen.add l.submitted r
          rw [FirstSeen.add, if_neg hnew]
        | some row =>
          obtain ⟨found, hfound, -, hpayload⟩ := h.found hfind
          dsimp only
          by_cases hsame : row.payload = r.toJson
          · rw [if_neg (not_not.mpr hsame)]
            obtain rfl : found = r := toJson_injective (hpayload.symm.trans hsame)
            show l.submitted = FirstSeen.add l.submitted found
            rw [FirstSeen.add, if_pos hfound]
          · rw [if_pos hsame]
            rfl
  | answer a => exact submitted_answer (authorized t.1) t.1 a
  | appendDecision d loaded =>
    dsimp only
    unfold Ledger.appendDecision
    cases loaded with
    | error e => rfl
    | ok u =>
      dsimp only
      split
      · rfl
      · rfl

theorem acknowledged_after (h : Kept authorized l) (ts : List (ω × Transaction)) :
    (l.after authorized ts).submitted = FirstSeen.addAll l.submitted (l.acknowledged authorized ts) := by
  induction ts generalizing l with
  | nil => rfl
  | cons t ts ih =>
    rw [Ledger.acknowledged, FirstSeen.addAll_append, ← h.acknowledge t]
    exact ih (h.commit t)

theorem decision_of_prefix {l' : Ledger enc ω} {q : Text} {d : ResearchDecision} (h : l.decision q = some d)
    (hfirst : l.decisions <+: l'.decisions) : l'.decision q = some d := by
  obtain ⟨more, hmore⟩ := hfirst
  obtain ⟨row, hrow, rfl⟩ := Option.map_eq_some_iff.mp h
  rw [Ledger.decision, ← hmore, List.find?_append, hrow]
  rfl

theorem decision_answer {names : List Text} {w : ω} {a : Answering} {d : ResearchDecision}
    (h : (l.answer names w a).1 = .ok d) : (l.answer names w a).2.decision a.requestId = some d := by
  unfold Ledger.answer at h ⊢
  split at h
  · cases h
  · next hactor =>
    rw [if_neg hactor]
    cases hget : l.get a.requestId with
    | error e =>
      rw [hget] at h
      cases h
    | ok r =>
      rw [hget] at h
      dsimp only at h ⊢
      unfold Ledger.answerOf at h ⊢
      split at h
      · cases h
      · next haction =>
        rw [if_neg haction]
        split at h
        · cases h
        · next hnew =>
          rw [if_neg hnew]
          cases hcheck : checkDecision enc.toEncoders (a.decision r.experimentId) with
          | error e =>
            rw [hcheck] at h
            cases h
          | ok u =>
            rw [hcheck] at h
            cases h
            have hnone : l.decisions.find? (fun d => d.requestId = some a.requestId) = none := by
              rw [List.find?_eq_none]
              intro row hrow hid
              exact hnew (List.any_eq_true.mpr ⟨row, hrow, hid⟩)
            rw [Ledger.decision, List.find?_append, hnone]
            simp

theorem recorded (ts : List (ω × Transaction)) : Recorded enc authorized ts where
  submitted := acknowledged_after kept_empty ts
  returned before w body createdAt loaded rest r _ _ := by
    rw [(kept_after kept_empty before).submit_ok_iff, acknowledged_after kept_empty before]
    simp only [FirstSeen.mem_addAll, List.not_mem_nil, false_or]
  answered before w a rest d hts hanswer := by
    rw [hts, after_append]
    refine decision_of_prefix (decision_answer hanswer) ?_
    exact decisions_after (l := (Ledger.commit authorized (({} : Ledger enc ω).after authorized before) (w, .answer a))) rest

/-- After any interleaving of transactions the ledger is sound, and holds what its callers were told; and no later one
changes or removes a decision. -/
theorem ledger_sound (authorized : ω → List Text) (ts later : List (ω × Transaction)) :
    (({} : Ledger enc ω).after authorized ts).Sound authorized ∧ Recorded enc authorized ts ∧
      (({} : Ledger enc ω).after authorized ts).decisions <+:
        (({} : Ledger enc ω).after authorized (ts ++ later)).decisions := by
  refine ⟨(kept_after kept_empty ts).sound, recorded ts, ?_⟩
  rw [after_append]
  exact decisions_after later

end EvoHarness.Research
