import EvoHarness.Research.Routing

/-! What a call of the router does, as the list of its deeds, and what it offers to the inbox and reads. -/
namespace EvoHarness.Research
open PyText Hoare

variable {o : Router}

/-- `time` is when a card says it was made, if that is not for the router's clock to say. -/
inductive Deed (o : Router) where
  | auto (detail runId : Text)
  | assess (a : ClaimAssessment) (runId : Text)
  | card (eventKind runId : Text) (body : Except Fault RequestBody) (time : Option ℚ)
  | submit (r : DecisionRequest o.enc)
  | fail (e : Fault)

def timeOf : Option ℚ → Routes o ℚ
  | none => nowForCard
  | some t => pure t

def offerCard (eventKind experimentId runId : Text) (body : Except Fault RequestBody) (time : Option ℚ) :
    Routes o Unit := do
  let createdAt ← timeOf time
  let body ← ofExcept body
  let card ← ofExcept (DecisionRequest.make o.enc body createdAt)
  route eventKind experimentId (some card) [] runId 0

def Deed.perform (experimentId : Text) : Deed o → Routes o Unit
  | .auto detail runId => route "record-outcome".toList experimentId none detail runId 0
  | .assess a runId => recordAssessment a experimentId runId
  | .card eventKind runId body time => offerCard eventKind experimentId runId body time
  | .submit r => Research.submit r
  | .fail e => Prog.raise (.fault e)

inductive RouterCall (o : Router) where
  | run (outcome : ExperimentOutcome) (evidence : Except Fault (List EvidenceEnvelope)) (budgetUsd : Option ℚ)
      (guard : AssessmentGuard)
  | assessment (a : ClaimAssessment) (experimentId candidateId runId : Text) (estimatedCosts : List (Text × ℚ))
  | promotion (experimentId : Text) (previous : Option ReferenceRecord) (promoted : ReferenceRecord)
      (reasons : List Text)
  | submit (r : DecisionRequest o.enc)

def RouterCall.experimentId : RouterCall o → Text
  | .run outcome _ _ _ => outcome.experimentId
  | .assessment _ experimentId _ _ _ => experimentId
  | .promotion experimentId _ _ _ => experimentId
  | .submit r => r.experimentId

def RouterCall.perform : RouterCall o → Routes o Unit
  | .run outcome evidence budgetUsd guard => routeRun outcome evidence budgetUsd guard
  | .assessment a experimentId candidateId runId costs => routeAssessment a experimentId candidateId runId costs
  | .promotion experimentId previous promoted reasons => routePromotion experimentId previous promoted reasons
  | .submit r => Research.submit r

def assessmentDeeds (a : ClaimAssessment) (experimentId candidateId runId : Text) (costs : List (Text × ℚ)) :
    List (Deed o) :=
  .assess a runId ::
    (if a.claimKind = .objectiveMet ∧ a.status = .supported then
      [.card "announce-breakthrough".toList runId (breakthroughRequest o a experimentId candidateId costs) none]
    else [])

def envelopeDeeds (outcome : ExperimentOutcome) (guard : AssessmentGuard) (e : EvidenceEnvelope) : List (Deed o) :=
  if e.objectiveMet = none then []
  else
    match Claim.make .objectiveMet e.candidateId [] 0 >>= fun claim => guard.assess o.fm claim e with
    | .ok a => assessmentDeeds a outcome.experimentId e.candidateId outcome.runId []
    | .error fault => [.fail fault]

def RouterCall.deeds : RouterCall o → List (Deed o)
  | .run outcome evidence budgetUsd guard =>
    .auto (runDetail (o := o) outcome) outcome.runId ::
      ((match budgetExpansionCardFor o outcome budgetUsd with
        | .ok none => []
        | .ok (some body) => [.card "expand-budget".toList outcome.runId (.ok body) (some outcome.createdAt)]
        | .error e => [.fail e]) ++
      (match evidence with
        | .ok envelopes => envelopes.flatMap (envelopeDeeds outcome guard)
        | .error e => [.fail e]))
  | .assessment a experimentId candidateId runId costs => assessmentDeeds a experimentId candidateId runId costs
  | .promotion experimentId previous promoted reasons =>
    match previous with
    | none => []
    | some previous =>
      if previous.candidateId = promoted.candidateId then []
      else [.card "accept-ranking-flip".toList [] (rankingFlipRequest o experimentId previous promoted reasons) none]
  | .submit r => [.submit r]

abbrev performAll (experimentId : Text) (ds : List (Deed o)) : Routes o Unit :=
  Prog.forEach ds (Deed.perform experimentId)

theorem performAll_single (experimentId : Text) (d : Deed o) :
    performAll experimentId [d] = d.perform experimentId := by
  show d.perform experimentId >>= (fun _ => pure ()) = d.perform experimentId
  exact bind_pure (d.perform experimentId)

@[simp] theorem ofExcept_ok {α : Type} (a : α) : (ofExcept (.ok a) : Routes o α) = pure a := rfl

@[simp] theorem ofExcept_error_bind {α β : Type} (e : Fault) (f : α → Routes o β) :
    (ofExcept (.error e) : Routes o α) >>= f = Prog.raise (.fault e) := rfl

theorem ofExcept_bind {α β : Type} (x : Except Fault α) (f : α → Except Fault β) :
    (ofExcept (x >>= f) : Routes o β) = ofExcept x >>= fun a => ofExcept (f a) := by
  cases x <;> rfl

theorem routeAssessment_deeds (a : ClaimAssessment) (experimentId candidateId runId : Text) (costs : List (Text × ℚ)) :
    routeAssessment a experimentId candidateId runId costs =
      performAll experimentId (assessmentDeeds (o := o) a experimentId candidateId runId costs) := by
  unfold routeAssessment assessmentDeeds performAll
  rw [Prog.forEach]
  apply congrArg
  funext _
  split
  · exact (performAll_single experimentId (.card "announce-breakthrough".toList runId
      (breakthroughRequest o a experimentId candidateId costs) none)).symm
  · rfl

theorem routeEnvelope_deeds (outcome : ExperimentOutcome) (guard : AssessmentGuard) (e : EvidenceEnvelope) :
    routeEnvelope outcome guard e = performAll outcome.experimentId (envelopeDeeds (o := o) outcome guard e) := by
  unfold routeEnvelope envelopeDeeds
  split
  · rfl
  · have hassoc : ∀ f : ClaimAssessment → Routes o Unit,
        ((ofExcept (Claim.make .objectiveMet e.candidateId [] 0) : Routes o Claim) >>= fun claim =>
          ofExcept (guard.assess o.fm claim e) >>= f) =
        ofExcept (Claim.make .objectiveMet e.candidateId [] 0 >>= fun claim => guard.assess o.fm claim e) >>= f := by
      intro f
      rw [ofExcept_bind, bind_assoc]
    rw [hassoc]
    cases Claim.make .objectiveMet e.candidateId [] 0 >>= fun claim => guard.assess o.fm claim e with
    | ok a => exact routeAssessment_deeds a outcome.experimentId e.candidateId outcome.runId []
    | error fault => exact (performAll_single outcome.experimentId (.fail fault)).symm

theorem routeRun_deeds (outcome : ExperimentOutcome) (evidence : Except Fault (List EvidenceEnvelope))
    (budgetUsd : Option ℚ) (guard : AssessmentGuard) :
    routeRun outcome evidence budgetUsd guard =
      performAll outcome.experimentId (RouterCall.deeds (o := o) (.run outcome evidence budgetUsd guard)) := by
  have hevidence : (ofExcept evidence >>= fun envelopes => Prog.forEach envelopes (routeEnvelope outcome guard)) =
      performAll outcome.experimentId (match evidence with
        | .ok envelopes => envelopes.flatMap (envelopeDeeds (o := o) outcome guard)
        | .error e => [.fail e]) := by
    cases evidence with
    | ok envelopes =>
      show Prog.forEach envelopes (routeEnvelope outcome guard) =
        Prog.forEach (envelopes.flatMap (envelopeDeeds outcome guard)) (Deed.perform outcome.experimentId)
      rw [Prog.forEach_flatMap]
      apply congrArg
      funext e
      exact routeEnvelope_deeds outcome guard e
    | error e => exact (performAll_single outcome.experimentId (.fail e)).symm
  unfold routeRun RouterCall.deeds performAll
  rw [Prog.forEach, Prog.forEach_append]
  apply congrArg
  funext _
  cases budgetExpansionCardFor o outcome budgetUsd with
  | error e => rfl
  | ok body =>
    cases body with
    | none => exact hevidence
    | some body =>
      have hsingle := performAll_single outcome.experimentId
        (.card "expand-budget".toList outcome.runId (.ok body) (some outcome.createdAt) : Deed o)
      unfold performAll at hsingle hevidence
      simp only [hsingle, ← hevidence]
      simp [Deed.perform, offerCard, timeOf, bind_assoc]

theorem perform_deeds (c : RouterCall o) : c.perform = performAll c.experimentId c.deeds := by
  cases c with
  | run outcome evidence budgetUsd guard => exact routeRun_deeds outcome evidence budgetUsd guard
  | assessment a experimentId candidateId runId costs =>
    exact routeAssessment_deeds a experimentId candidateId runId costs
  | promotion experimentId previous promoted reasons =>
    unfold RouterCall.perform RouterCall.deeds routePromotion
    cases previous with
    | none => rfl
    | some previous =>
      simp only
      split
      · rfl
      · exact (performAll_single experimentId (.card "accept-ranking-flip".toList []
          (rankingFlipRequest o experimentId previous promoted reasons) none)).symm
  | submit r => exact (performAll_single r.experimentId (.submit r)).symm

/-- The requests a call submits, the clock giving the times of its cards from the `n`th reading on. -/
def offered (clock : ℕ → ℚ) : ℕ → List (Deed o) → Except Fault (List (DecisionRequest o.enc))
  | _, [] => .ok []
  | n, .card _ _ body time :: ds => do
    let body ← body
    let r ← DecisionRequest.make o.enc body (time.getD (clock n))
    let rest ← offered clock (if time.isNone then n + 1 else n) ds
    return r :: rest
  | n, .submit r :: ds => do
    let rest ← offered clock n ds
    return r :: rest
  | _, .fail e :: _ => .error e
  | n, .auto _ _ :: ds => offered clock n ds
  | n, .assess _ _ :: ds => offered clock n ds

section
variable {clock : ℕ → ℚ} {n : ℕ} {ds : List (Deed o)}

theorem offered_submit (r : DecisionRequest o.enc) :
    offered clock n (.submit r :: ds) = (offered clock n ds).map (r :: ·) := by
  rw [offered]
  cases offered clock n ds <;> rfl

theorem offered_card {eventKind runId : Text} {b : RequestBody} {time : Option ℚ} {r : DecisionRequest o.enc}
    (h : DecisionRequest.make o.enc b (time.getD (clock n)) = .ok r) :
    offered clock n (.card eventKind runId (.ok b) time :: ds) =
      (offered clock (if time.isNone then n + 1 else n) ds).map (r :: ·) := by
  rw [offered]
  simp only [bind, Except.bind, h]
  cases offered clock (if time.isNone then n + 1 else n) ds <;> rfl

theorem exists_map_ok {α β : Type} {x : Except Fault α} {f : α → β} {P : β → Prop} :
    (∃ b, x.map f = .ok b ∧ P b) ↔ ∃ a, x = .ok a ∧ P (f a) := by
  cases x <;> simp [Except.map]

end

/-- A request whose id is stored, or was offered before, is the same to its creation time. -/
def Agrees (stored offers : List (DecisionRequest o.enc)) : Prop :=
  (∀ r ∈ offers, ∀ q ∈ stored, q.requestId = r.requestId → q = r) ∧
    offers.Pairwise fun q r => q.requestId = r.requestId → q = r

/-- What the log is for the next deed, once `a` is routed. -/
def AssessmentLog.after (log : AssessmentLog) (prior : List ClaimAssessment) (a : ClaimAssessment) : AssessmentLog :=
  if prior.any (sameVerdict · a) then log else log.append a

/-- The log can be read each time that a deed has to read it. -/
def Readable : AssessmentLog → List (Deed o) → Prop
  | _, [] => True
  | log, .assess a _ :: ds => ∃ prior, log.assessments = some prior ∧ Readable (log.after prior a) ds
  | log, .auto _ _ :: ds => Readable log ds
  | log, .card _ _ _ _ :: ds => Readable log ds
  | log, .submit _ :: ds => Readable log ds
  | log, .fail _ :: ds => Readable log ds

def Frozen (w : World o) (experimentId : Text) : Prop := ∃ spec, w.experiments experimentId = some (.ok spec)

def Deed.Fits (experimentId : Text) : Deed o → Prop
  | .card eventKind _ body _ => requiresHuman eventKind = true ∧
      ∀ b, body = .ok b → b.kind = cardKindOf eventKind ∧ b.experimentId = experimentId
  | .submit r => r.experimentId = experimentId
  | _ => True

theorem make_body {b : RequestBody} {t : ℚ} {r : DecisionRequest o.enc} (h : DecisionRequest.make o.enc b t = .ok r) :
    ∃ payload, o.enc.canonicalObject b.payload = .ok payload ∧ r.toRequestBody = { b with payload } ∧ r.createdAt = t := by
  unfold DecisionRequest.make at h
  split at h
  · simp at h
  · next payload hp =>
    split at h
    · obtain rfl := Except.ok.inj h
      exact ⟨payload, hp, rfl, rfl⟩
    · simp at h

theorem requestId_timeless {b : RequestBody} {t u : ℚ} {r s : DecisionRequest o.enc}
    (hr : DecisionRequest.make o.enc b t = .ok r) (hs : DecisionRequest.make o.enc b u = .ok s) :
    r.requestId = s.requestId := by
  obtain ⟨p, hp, hbody, _⟩ := make_body hr
  obtain ⟨q, hq, hbody', _⟩ := make_body hs
  rw [hp] at hq
  obtain rfl := Except.ok.inj hq
  unfold DecisionRequest.requestId
  rw [hbody, hbody']

theorem agrees_cons {stored rest : List (DecisionRequest o.enc)} {r : DecisionRequest o.enc} :
    Agrees stored (r :: rest) ↔ (∀ q ∈ stored, q.requestId = r.requestId → q = r) ∧ Agrees stored rest ∧
      ∀ s ∈ rest, r.requestId = s.requestId → r = s := by
  unfold Agrees
  rw [List.pairwise_cons, List.forall_mem_cons]
  tauto

theorem agrees_store {w : World o} {rest : List (DecisionRequest o.enc)} {r : DecisionRequest o.enc} :
    Agrees w.requests (r :: rest) ↔ (∀ q ∈ w.requests, q.requestId = r.requestId → q = r) ∧
      Agrees (store r w).requests rest := by
  rw [agrees_cons]
  apply and_congr_right
  intro hr
  unfold store
  split
  · next hmem =>
    obtain ⟨q, hq, hid⟩ := List.mem_map.mp hmem
    obtain rfl := hr q hq hid
    constructor
    · intro h
      exact h.1
    · intro h
      exact ⟨h, fun s hs => h.1 s hs q hq⟩
  · simp only [World.insert, Agrees, List.mem_append, List.mem_singleton]
    constructor
    · intro h
      refine ⟨fun s hs q hq => ?_, h.1.2⟩
      cases hq with
      | inl hq => exact h.1.1 s hs q hq
      | inr hq => exact hq ▸ h.2 s hs
    · intro h
      exact ⟨⟨fun s hs q hq => h.1 s hs q (Or.inl hq), h.2⟩, fun s hs => h.1 s hs r (Or.inr rfl)⟩

variable {w : World o} {experimentId : Text}

structure Continues (experimentId : Text) (w w' : World o) (requests : List (DecisionRequest o.enc)) (ticks : ℕ)
    (log : AssessmentLog) : Prop where
  experiments : w'.experiments = w.experiments
  cardClock : w'.cardClock = w.cardClock
  lifetime : w'.lifetime = none
  requests : w'.requests = requests
  cardTicks : w'.cardTicks = ticks
  log : w'.assessments experimentId = log

theorem effect_run {f torn : World o → World o} (h : w.lifetime = none) : effect f torn w = (.ok (), f w) := by
  simp [effect, h]

theorem requireExperiment_run (h : Frozen w experimentId) : requireExperiment experimentId w = (.ok (), w) := by
  obtain ⟨spec, hspec⟩ := h
  unfold requireExperiment
  rw [Prog.bind_ok Prog.get_run]
  simp [hspec]

theorem appendRoutedEvent_run {e : RoutedEvent} (h : Frozen w e.experimentId) (hlife : w.lifetime = none) :
    appendRoutedEvent e w = (.ok (), { w with routed := w.routed ++ [e] }) := by
  unfold appendRoutedEvent
  rw [Prog.bind_ok (requireExperiment_run h), effect_run hlife]

theorem loadExperiment_run (h : Frozen w experimentId) : ∃ spec, loadExperiment experimentId w = (.ok spec, w) := by
  obtain ⟨spec, hspec⟩ := h
  refine ⟨spec, ?_⟩
  unfold loadExperiment
  rw [Prog.bind_ok Prog.get_run]
  simp [hspec]

theorem submit_run {r : DecisionRequest o.enc} (h : Frozen w r.experimentId) (hlife : w.lifetime = none) :
    ((∀ q ∈ w.requests, q.requestId = r.requestId → q = r) ∧ submit r w = (.ok (), store r w)) ∨
      (¬ (∀ q ∈ w.requests, q.requestId = r.requestId → q = r) ∧ ∃ e, submit r w = (.error e, w)) := by
  obtain ⟨spec, hspec⟩ := loadExperiment_run h
  unfold submit
  rw [Prog.bind_ok hspec, Prog.bind_ok Prog.get_run]
  cases hfind : w.requests.find? (·.requestId = r.requestId) with
  | none =>
    left
    have hnone := List.find?_eq_none.mp hfind
    exact ⟨fun q hq hid => absurd (decide_eq_true hid) (hnone q hq), effect_run hlife⟩
  | some stored =>
    have hstored := List.mem_of_find?_eq_some hfind
    have hid : stored.requestId = r.requestId := by simpa using List.find?_some hfind
    by_cases heq : stored = r
    · subst heq
      left
      have hmem : stored.requestId ∈ w.requests.map (·.requestId) := List.mem_map_of_mem hstored
      refine ⟨fun q hq hqid => ?_, by simp [store, hmem]⟩
      exact List.inj_on_of_nodup_map w.unique hq hstored hqid
    · right
      refine ⟨fun hall => heq (hall stored hstored hid), .inboxError "request_id collision with different content".toList, ?_⟩
      simp only [heq, ne_eq, not_false_eq_true, if_true]
      rfl

theorem nowForEvent_run : (nowForEvent : Routes o ℚ) w =
    (.ok (w.eventClock w.eventTicks), { w with eventTicks := w.eventTicks + 1 }) := rfl

theorem gateCheck_run {eventKind : Text} (hhuman : requiresHuman eventKind = false)
    (hspends : eventKind ∉ spendsBudget) (h : Frozen w experimentId) :
    gateCheck eventKind experimentId 0 w = (.ok { eventKind, experimentId, allowed := true }, w) := by
  obtain ⟨spec, hspec⟩ := h
  unfold gateCheck
  rw [Prog.bind_ok Prog.get_run]
  simp only [hspec, precheck, hhuman, hspends, Bool.false_eq_true, if_false, not_false_eq_true, if_true, ne_eq,
    not_true_eq_false]
  rfl

theorem auto_run (detail runId : Text) (h : Frozen w experimentId) (hlife : w.lifetime = none) :
    ∃ w', (Deed.auto detail runId : Deed o).perform experimentId w = (.ok (), w') ∧
      Continues experimentId w w' w.requests w.cardTicks (w.assessments experimentId) := by
  have hhuman : requiresHuman "record-outcome".toList = false := by decide
  have hspends : "record-outcome".toList ∉ spendsBudget := by decide
  show ∃ w', route "record-outcome".toList experimentId none detail runId 0 w = _ ∧ _
  unfold route
  rw [hhuman]
  show ∃ w', routeAuto "record-outcome".toList experimentId detail runId 0 w = _ ∧ _
  unfold routeAuto
  rw [Prog.bind_ok (gateCheck_run hhuman hspends h)]
  obtain ⟨spec, hspec⟩ := h
  simp only [Bool.true_eq_false, if_false]
  rw [Prog.bind_ok nowForEvent_run]
  exact ⟨_, appendRoutedEvent_run ⟨spec, hspec⟩ hlife, rfl, rfl, hlife, rfl, rfl, rfl⟩

theorem notifyConflict_run (runId : Text) (old a : ClaimAssessment) (h : Frozen w experimentId)
    (hlife : w.lifetime = none) :
    ∃ w', notifyConflict experimentId runId old a w = (.ok (), w') ∧
      Continues experimentId w w' w.requests w.cardTicks (w.assessments experimentId) := by
  obtain ⟨spec, hspec⟩ := h
  unfold notifyConflict
  rw [Prog.bind_ok nowForEvent_run]
  split
  · rw [Prog.bind_ok nowForEvent_run]
    exact ⟨_, appendRoutedEvent_run ⟨spec, hspec⟩ hlife, rfl, rfl, hlife, rfl, rfl, rfl⟩
  · rw [Prog.bind_ok (Prog.pure_run _)]
    exact ⟨_, appendRoutedEvent_run ⟨spec, hspec⟩ hlife, rfl, rfl, hlife, rfl, rfl, rfl⟩

theorem Frozen.continues {w' : World o} {requests : List (DecisionRequest o.enc)} {n : ℕ} {log : AssessmentLog}
    (h : Frozen w experimentId) (hc : Continues experimentId w w' requests n log) : Frozen w' experimentId := by
  obtain ⟨spec, hspec⟩ := h
  exact ⟨spec, hc.experiments ▸ hspec⟩

theorem priorAssessments_run {prior : List ClaimAssessment} (h : (w.assessments experimentId).assessments = some prior) :
    priorAssessments experimentId w = (.ok prior, w) := by
  unfold priorAssessments
  rw [Prog.bind_ok Prog.get_run]
  simp only [h]
  rfl

theorem priorAssessments_unreadable (h : (w.assessments experimentId).assessments = none) :
    priorAssessments experimentId w = (.error .unreadable, w) := by
  unfold priorAssessments
  rw [Prog.bind_ok Prog.get_run]
  simp only [h]
  rfl

theorem assess_fails {a : ClaimAssessment} (runId : Text) (h : (w.assessments experimentId).assessments = none) :
    (Deed.assess a runId : Deed o).perform experimentId w = (.error .unreadable, w) := by
  show recordAssessment a experimentId runId w = _
  unfold recordAssessment
  rw [Prog.bind_error (priorAssessments_unreadable h)]

theorem assess_run {prior : List ClaimAssessment} (a : ClaimAssessment) (runId : Text) (h : Frozen w experimentId)
    (hlife : w.lifetime = none) (hprior : (w.assessments experimentId).assessments = some prior) :
    ∃ w', (Deed.assess a runId : Deed o).perform experimentId w = (.ok (), w') ∧
      Continues experimentId w w' w.requests w.cardTicks ((w.assessments experimentId).after prior a) := by
  have hnotice : ∃ w', noticeConflict prior a experimentId runId w = (.ok (), w') ∧
      Continues experimentId w w' w.requests w.cardTicks (w.assessments experimentId) := by
    unfold noticeConflict
    cases prior.find? (conflicts · a) with
    | none => exact ⟨w, rfl, rfl, rfl, hlife, rfl, rfl, rfl⟩
    | some old => exact notifyConflict_run runId old a h hlife
  obtain ⟨v, hv, hc⟩ := hnotice
  show ∃ w', recordAssessment a experimentId runId w = _ ∧ _
  unfold recordAssessment AssessmentLog.after
  rw [Prog.bind_ok (priorAssessments_run hprior), Prog.bind_ok hv]
  cases hany : prior.any (sameVerdict · a) with
  | true => exact ⟨v, rfl, hc⟩
  | false =>
    refine ⟨v.withLog experimentId ((v.assessments experimentId).append a), ?_, hc.experiments, hc.cardClock, hc.lifetime,
      hc.requests, hc.cardTicks, ?_⟩
    · show appendAssessment experimentId a v = _
      unfold appendAssessment
      rw [Prog.bind_ok (requireExperiment_run (h.continues hc)), effect_run hc.lifetime]
    · rw [World.withLog_self, hc.log]
      rfl

/-- `routeCard` goes through exactly if the inbox takes the card. -/
theorem routeCard_run {eventKind : Text} (runId : Text) {r : DecisionRequest o.enc} (hkind : r.kind = cardKindOf eventKind)
    (hid : r.experimentId = experimentId) (h : Frozen w experimentId) (hlife : w.lifetime = none) :
    ((∀ q ∈ w.requests, q.requestId = r.requestId → q = r) ∧
        ∃ w', routeCard eventKind experimentId r [] runId w = (.ok (), w') ∧
          Continues experimentId w w' (store r w).requests w.cardTicks (w.assessments experimentId)) ∨
      (¬ (∀ q ∈ w.requests, q.requestId = r.requestId → q = r) ∧
        ∃ e, routeCard eventKind experimentId r [] runId w = (.error e, w)) := by
  unfold routeCard
  rw [if_neg (not_not_intro hkind), if_neg (not_not_intro hid)]
  cases submit_run (hid.symm ▸ h) hlife with
  | inl hok =>
    left
    have hstore : Continues experimentId w (store r w) (store r w).requests w.cardTicks (w.assessments experimentId) := by
      unfold store
      split
      · exact ⟨rfl, rfl, hlife, rfl, rfl, rfl⟩
      · exact ⟨rfl, rfl, hlife, rfl, rfl, rfl⟩
    obtain ⟨spec, hspec⟩ := h.continues hstore
    refine ⟨hok.1, ?_⟩
    rw [Prog.bind_ok hok.2, Prog.bind_ok nowForEvent_run]
    exact ⟨_, appendRoutedEvent_run ⟨spec, hid.symm ▸ hspec⟩ hstore.lifetime, hstore.experiments, hstore.cardClock,
      hstore.lifetime, rfl, hstore.cardTicks, hstore.log⟩
  | inr hraise =>
    right
    obtain ⟨e, he⟩ := hraise.2
    exact ⟨hraise.1, e, Prog.bind_error he⟩

theorem timeOf_run (experimentId : Text) (time : Option ℚ) (hlife : w.lifetime = none) :
    ∃ w', timeOf time w = (.ok (time.getD (w.cardClock w.cardTicks)), w') ∧
      Continues experimentId w w' w.requests (if time.isNone then w.cardTicks + 1 else w.cardTicks)
        (w.assessments experimentId) := by
  cases time with
  | none => exact ⟨_, rfl, rfl, rfl, hlife, rfl, rfl, rfl⟩
  | some t => exact ⟨_, rfl, rfl, rfl, hlife, rfl, rfl, rfl⟩

theorem store_requests_congr {w' : World o} {r : DecisionRequest o.enc} (h : w'.requests = w.requests) :
    (store r w').requests = (store r w).requests := by
  unfold store World.insert
  simp only [h]
  split
  · exact h
  · rfl

def Taken (experimentId : Text) (w : World o) (r : DecisionRequest o.enc) (ticks : ℕ)
    (result : Except RouteFault Unit × World o) : Prop :=
  ((∀ q ∈ w.requests, q.requestId = r.requestId → q = r) ∧ ∃ w', result = (.ok (), w') ∧
      Continues experimentId w w' (store r w).requests ticks (w.assessments experimentId)) ∨
    (¬ (∀ q ∈ w.requests, q.requestId = r.requestId → q = r) ∧ ∃ e w', result = (.error e, w'))

theorem card_run {eventKind runId : Text} {body : RequestBody} {time : Option ℚ} {r : DecisionRequest o.enc}
    (hfits : (Deed.card eventKind runId (.ok body) time : Deed o).Fits experimentId)
    (hr : DecisionRequest.make o.enc body (time.getD (w.cardClock w.cardTicks)) = .ok r)
    (h : Frozen w experimentId) (hlife : w.lifetime = none) :
    Taken experimentId w r (if time.isNone then w.cardTicks + 1 else w.cardTicks)
      ((Deed.card eventKind runId (.ok body) time).perform experimentId w) := by
  obtain ⟨v, hv, hc⟩ := timeOf_run experimentId time hlife
  obtain ⟨payload, _, hbody, _⟩ := make_body hr
  have hkind : r.kind = cardKindOf eventKind := by
    rw [hbody]
    exact (hfits.2 body rfl).1
  have hid : r.experimentId = experimentId := by
    rw [hbody]
    exact (hfits.2 body rfl).2
  have hperform : (Deed.card eventKind runId (.ok body) time).perform experimentId w =
      routeCard eventKind experimentId r [] runId v := by
    show offerCard eventKind experimentId runId (.ok body) time w = _
    unfold offerCard
    rw [Prog.bind_ok hv, ofExcept_ok, pure_bind, hr, ofExcept_ok, pure_bind]
    unfold route
    rw [hfits.1]
  unfold Taken
  rw [hperform, ← hc.requests]
  cases routeCard_run runId hkind hid (h.continues hc) hc.lifetime with
  | inl hok =>
    obtain ⟨w', hw', hc'⟩ := hok.2
    refine Or.inl ⟨hok.1, w', hw', hc'.experiments.trans hc.experiments, hc'.cardClock.trans hc.cardClock,
      hc'.lifetime, hc'.requests.trans (store_requests_congr hc.requests), ?_, hc'.log.trans hc.log⟩
    rw [hc'.cardTicks, hc.cardTicks]
  | inr hraise =>
    obtain ⟨e, he⟩ := hraise.2
    exact Or.inr ⟨hraise.1, e, v, he⟩

theorem card_fails (experimentId eventKind runId : Text) {body : Except Fault RequestBody} {time : Option ℚ} {fault : Fault}
    (hfault : (body >>= fun b => DecisionRequest.make o.enc b (time.getD (w.cardClock w.cardTicks))) = .error fault)
    (hlife : w.lifetime = none) :
    ∃ e w', (Deed.card eventKind runId body time).perform experimentId w = (.error e, w') := by
  obtain ⟨v, hv, _⟩ := timeOf_run experimentId time hlife
  show ∃ e w', offerCard eventKind experimentId runId body time w = (.error e, w')
  unfold offerCard
  rw [Prog.bind_ok hv]
  cases body with
  | error e => exact ⟨_, v, rfl⟩
  | ok b =>
    have hmake : DecisionRequest.make o.enc b (time.getD (w.cardClock w.cardTicks)) = .error fault := hfault
    rw [ofExcept_ok, pure_bind, hmake]
    exact ⟨_, v, rfl⟩

theorem submit_taken {r : DecisionRequest o.enc} (h : Frozen w r.experimentId) (hlife : w.lifetime = none) :
    Taken experimentId w r w.cardTicks (Research.submit r w) := by
  cases submit_run h hlife with
  | inl hok =>
    refine Or.inl ⟨hok.1, store r w, hok.2, ?_⟩
    unfold store
    split
    · exact ⟨rfl, rfl, hlife, rfl, rfl, rfl⟩
    · exact ⟨rfl, rfl, hlife, rfl, rfl, rfl⟩
  | inr hraise =>
    obtain ⟨e, he⟩ := hraise.2
    exact Or.inr ⟨hraise.1, e, w, he⟩

/-- A call that lives returns if what it offers can be built and agrees with what is stored, and the log can be read. -/
structure Welcome (experimentId : Text) (w : World o) (ds : List (Deed o)) : Prop where
  offers : ∃ rs, offered w.cardClock w.cardTicks ds = .ok rs ∧ Agrees w.requests rs
  reads : Readable (w.assessments experimentId) ds

theorem welcome_iff {ds : List (Deed o)} : Welcome experimentId w ds ↔
    (∃ rs, offered w.cardClock w.cardTicks ds = .ok rs ∧ Agrees w.requests rs) ∧
      Readable (w.assessments experimentId) ds :=
  ⟨fun h => ⟨h.offers, h.reads⟩, fun h => ⟨h.1, h.2⟩⟩

theorem Continues.welcome {w' : World o} {requests : List (DecisionRequest o.enc)} {n : ℕ} {log : AssessmentLog}
    {ds : List (Deed o)} (hc : Continues experimentId w w' requests n log) : Welcome experimentId w' ds ↔
      (∃ rs, offered w.cardClock n ds = .ok rs ∧ Agrees requests rs) ∧ Readable log ds := by
  rw [welcome_iff, hc.cardClock, hc.cardTicks, hc.requests, hc.log]

theorem Taken.returns {r : DecisionRequest o.enc} {n : ℕ} {result : Except RouteFault Unit × World o}
    {ds : List (Deed o)} {m : Routes o Unit} (hm : m w = result) (ht : Taken experimentId w r n result)
    (hrest : ∀ w', Continues experimentId w w' (store r w).requests n (w.assessments experimentId) →
      (((performAll experimentId ds) w').1 = .ok () ↔ Welcome experimentId w' ds)) :
    ((m >>= fun _ => performAll experimentId ds) w).1 = .ok () ↔
      (∃ rs, offered w.cardClock n ds = .ok rs ∧ Agrees w.requests (r :: rs)) ∧
        Readable (w.assessments experimentId) ds := by
  cases ht with
  | inl hok =>
    obtain ⟨w', hw', hc⟩ := hok.2
    rw [Prog.bind_ok (hm.trans hw'), hrest w' hc, hc.welcome]
    apply and_congr_left
    intro _
    apply exists_congr
    intro rs
    rw [agrees_store]
    exact and_congr_right fun _ => (and_iff_right hok.1).symm
  | inr hraise =>
    obtain ⟨e, w', hw'⟩ := hraise.2
    rw [Prog.bind_error (hm.trans hw')]
    constructor
    · intro h
      cases h
    · intro h
      obtain ⟨rs, _, hrs⟩ := h.1
      exact absurd (agrees_cons.mp hrs).1 hraise.1

theorem performAll_returns (ds : List (Deed o)) :
    ∀ w : World o, Frozen w experimentId → w.lifetime = none → (∀ d ∈ ds, d.Fits experimentId) →
      ((performAll experimentId ds w).1 = .ok () ↔ Welcome experimentId w ds) := by
  induction ds with
  | nil =>
    intro w _ _ _
    exact iff_of_true rfl ⟨⟨[], rfl, by simp [Agrees]⟩, trivial⟩
  | cons d ds ih =>
    intro w hfrozen hlife hfits
    have hd := hfits d (by simp)
    have hds : ∀ d ∈ ds, d.Fits experimentId := fun d hd => hfits d (by simp [hd])
    have hrest : ∀ requests n log w', Continues experimentId w w' requests n log →
        ((performAll experimentId ds w').1 = .ok () ↔ Welcome experimentId w' ds) :=
      fun _ _ _ w' hc => ih w' (hfrozen.continues hc) hc.lifetime hds
    rw [welcome_iff]
    show ((d.perform experimentId >>= fun _ => performAll experimentId ds) w).1 = .ok () ↔ _
    cases d with
    | auto detail runId =>
      obtain ⟨w', hw', hc⟩ := auto_run (o := o) detail runId hfrozen hlife
      rw [Prog.bind_ok hw', hrest _ _ _ w' hc, hc.welcome]
      rfl
    | assess a runId =>
      cases hprior : (w.assessments experimentId).assessments with
      | none =>
        rw [Prog.bind_error (assess_fails runId hprior)]
        refine iff_of_false ?_ ?_
        · intro h
          cases h
        · intro h
          obtain ⟨prior, hsome, _⟩ := h.2
          rw [hprior] at hsome
          cases hsome
      | some prior =>
        obtain ⟨w', hw', hc⟩ := assess_run a runId hfrozen hlife hprior
        rw [Prog.bind_ok hw', hrest _ _ _ w' hc, hc.welcome]
        apply and_congr_right
        intro _
        rw [Readable, hprior]
        simp
    | submit r =>
      have hexp : r.experimentId = experimentId := hd
      rw [(submit_taken (hexp.symm ▸ hfrozen) hlife).returns (m := Deed.perform experimentId (.submit r)) rfl
        (hrest _ _ _), offered_submit, exists_map_ok]
      rfl
    | fail e =>
      refine iff_of_false ?_ ?_
      · intro h
        cases h
      · intro h
        obtain ⟨rs, hrs, _⟩ := h.1
        cases hrs
    | card eventKind runId body time =>
      cases hbuilt : (body >>= fun b => DecisionRequest.make o.enc b (time.getD (w.cardClock w.cardTicks))) with
      | error fault =>
        obtain ⟨e, w', hw'⟩ := card_fails experimentId eventKind runId hbuilt hlife
        rw [Prog.bind_error hw']
        refine iff_of_false ?_ ?_
        · intro h
          cases h
        · intro h
          obtain ⟨rs, hrs, _⟩ := h.1
          cases body with
          | error e => cases hrs
          | ok b =>
            have hmake : DecisionRequest.make o.enc b (time.getD (w.cardClock w.cardTicks)) = .error fault := hbuilt
            simp [offered, hmake, bind, Except.bind] at hrs
      | ok r =>
        cases body with
        | error e => cases hbuilt
        | ok b =>
          have hmake : DecisionRequest.make o.enc b (time.getD (w.cardClock w.cardTicks)) = .ok r := hbuilt
          rw [(card_run hd hmake hfrozen hlife).returns rfl (hrest _ _ _), offered_card hmake, exists_map_ok]
          rfl

theorem breakthroughRequest_fits {a : ClaimAssessment} {candidateId : Text} {costs : List (Text × ℚ)}
    {b : RequestBody} (h : breakthroughRequest o a experimentId candidateId costs = .ok b) :
    b.kind = "breakthrough".toList ∧ b.experimentId = experimentId := by
  unfold breakthroughRequest at h
  split at h
  · cases h
  · split at h
    · cases h
    · obtain rfl := Except.ok.inj h
      exact ⟨rfl, rfl⟩

theorem budgetExpansionRequest_fits {current requested : ℚ} {justification : Text} {b : RequestBody}
    (h : budgetExpansionRequest o experimentId current requested justification = .ok b) :
    b.kind = "budget-expansion".toList ∧ b.experimentId = experimentId := by
  unfold budgetExpansionRequest at h
  split at h
  · cases h
  · split at h
    · cases h
    · obtain rfl := Except.ok.inj h
      exact ⟨rfl, rfl⟩

theorem budgetExpansionCardFor_fits {outcome : ExperimentOutcome} {budgetUsd : Option ℚ} {b : RequestBody}
    (h : budgetExpansionCardFor o outcome budgetUsd = .ok (some b)) :
    b.kind = "budget-expansion".toList ∧ b.experimentId = outcome.experimentId := by
  unfold budgetExpansionCardFor at h
  cases budgetUsd with
  | none => cases h
  | some budget =>
    simp only at h
    split at h
    · cases h
    · cases hreq : budgetExpansionRequest o outcome.experimentId budget _ _ with
      | error e =>
        rw [hreq] at h
        cases h
      | ok body =>
        rw [hreq] at h
        obtain rfl := Option.some.inj (Except.ok.inj h)
        exact budgetExpansionRequest_fits hreq

theorem rankingFlipRequest_fits {previous promoted : ReferenceRecord} {reasons : List Text} {b : RequestBody}
    (h : rankingFlipRequest o experimentId previous promoted reasons = .ok b) :
    b.kind = "ranking-flip".toList ∧ b.experimentId = experimentId := by
  unfold rankingFlipRequest at h
  split at h
  · cases h
  · split at h
    · cases h
    · obtain rfl := Except.ok.inj h
      exact ⟨rfl, rfl⟩

theorem assessmentDeeds_fit (a : ClaimAssessment) (candidateId runId : Text) (costs : List (Text × ℚ)) :
    ∀ d ∈ assessmentDeeds (o := o) a experimentId candidateId runId costs, d.Fits experimentId := by
  have hhuman : requiresHuman "announce-breakthrough".toList = true := by decide
  have hkind : cardKindOf "announce-breakthrough".toList = "breakthrough".toList := by decide
  intro d hd
  unfold assessmentDeeds at hd
  cases List.mem_cons.mp hd with
  | inl hd => exact hd ▸ trivial
  | inr hd =>
    split at hd
    · obtain rfl := List.mem_singleton.mp hd
      refine ⟨hhuman, fun b hb => ?_⟩
      rw [hkind]
      exact breakthroughRequest_fits hb
    · cases hd

theorem envelopeDeeds_fit (outcome : ExperimentOutcome) (guard : AssessmentGuard) (e : EvidenceEnvelope) :
    ∀ d ∈ envelopeDeeds (o := o) outcome guard e, d.Fits outcome.experimentId := by
  unfold envelopeDeeds
  split
  · intro d hd
    cases hd
  · split
    · exact assessmentDeeds_fit _ _ _ _
    · intro d hd
      exact List.mem_singleton.mp hd ▸ trivial

theorem runDeeds_fit (outcome : ExperimentOutcome) (evidence : Except Fault (List EvidenceEnvelope))
    (budgetUsd : Option ℚ) (guard : AssessmentGuard) :
    ∀ d ∈ (RouterCall.run (o := o) outcome evidence budgetUsd guard).deeds, d.Fits outcome.experimentId := by
  have hhuman : requiresHuman "expand-budget".toList = true := by decide
  have hkind : cardKindOf "expand-budget".toList = "budget-expansion".toList := by decide
  unfold RouterCall.deeds
  intro d hd
  cases List.mem_cons.mp hd with
  | inl hd => exact hd ▸ trivial
  | inr hd =>
    cases List.mem_append.mp hd with
    | inl hd =>
      cases hcard : budgetExpansionCardFor o outcome budgetUsd with
      | error e =>
        rw [hcard] at hd
        exact List.mem_singleton.mp hd ▸ trivial
      | ok body =>
        rw [hcard] at hd
        cases body with
        | none => cases hd
        | some body =>
          obtain rfl := List.mem_singleton.mp hd
          refine ⟨hhuman, fun b hb => ?_⟩
          obtain rfl := Except.ok.inj hb
          rw [hkind]
          exact budgetExpansionCardFor_fits hcard
    | inr hd =>
      cases evidence with
      | error e => exact List.mem_singleton.mp hd ▸ trivial
      | ok envelopes =>
        obtain ⟨e, _, he⟩ := List.mem_flatMap.mp hd
        exact envelopeDeeds_fit outcome guard e d he

theorem deeds_fit (c : RouterCall o) : ∀ d ∈ c.deeds, d.Fits c.experimentId := by
  cases c with
  | run outcome evidence budgetUsd guard => exact runDeeds_fit outcome evidence budgetUsd guard
  | assessment a experimentId candidateId runId costs => exact assessmentDeeds_fit a candidateId runId costs
  | promotion experimentId previous promoted reasons =>
    have hhuman : requiresHuman "accept-ranking-flip".toList = true := by decide
    have hkind : cardKindOf "accept-ranking-flip".toList = "ranking-flip".toList := by decide
    intro d hd
    cases previous with
    | none => cases hd
    | some previous =>
      unfold RouterCall.deeds at hd
      simp only at hd
      split at hd
      · cases hd
      · obtain rfl := List.mem_singleton.mp hd
        refine ⟨hhuman, fun b hb => ?_⟩
        rw [hkind]
        exact rankingFlipRequest_fits hb
  | submit r =>
    intro d hd
    obtain rfl := List.mem_singleton.mp hd
    rfl

end EvoHarness.Research
