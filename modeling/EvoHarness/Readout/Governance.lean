import EvoHarness.Research.Ledger

/-! What is waiting for a person to decide: the ledger as a session reads it, without what could write it. -/
namespace EvoHarness.Readout.Governance
open PyText Research

inductive GovernanceError where
  | noLedger (ledger : Text)
  | blankId
  | unknown (message : Text)
  | limit

structure Summary where
  requestId : Text
  kind : Text
  experimentId : Text
  question : Text
  recommendedAction : Text
  defaultAction : Text
  consequenceOfWaiting : Text
  createdAt : ℚ
deriving DecidableEq

def summarize (payload : RequestJson) : Summary where
  requestId := payload.requestId
  kind := payload.body.kind
  experimentId := payload.body.experimentId
  question := payload.body.question
  recommendedAction := payload.body.recommendedAction
  defaultAction := payload.defaultAction
  consequenceOfWaiting := payload.body.consequenceOfWaiting
  createdAt := payload.createdAt

section
variable {enc : CanonicalEncoders} {ω : Type}

structure Root (enc : CanonicalEncoders) (ω : Type) where
  path : Text
  ledger : Option (Ledger enc ω)

def Root.connect (root : Root enc ω) : Except GovernanceError (Ledger enc ω) :=
  match root.ledger with
  | none => .error (.noLedger (root.path ++ "/research.sqlite3".toList))
  | some l => .ok l

def pendingCards (root : Root enc ω) : Except GovernanceError (List Summary) :=
  root.connect.map fun l => (l.requests.filter fun row => !l.answered? row.requestId).map fun row => summarize row.payload

def card (root : Root enc ω) (requestId : Text) : Except GovernanceError (RequestJson × Option ResearchDecision) :=
  if strip requestId = [] then .error .blankId
  else
    match root.connect with
    | .error e => .error e
    | .ok l =>
      match l.findRequest requestId with
      | none => .error (.unknown ("unknown decision request ".toList ++ enc.repr requestId))
      | some row => .ok (row.payload, l.decision requestId)

def recentDecisions (root : Root enc ω) (limit : ℤ) : Except GovernanceError (List ResearchDecision) :=
  if limit < 1 then .error .limit
  else root.connect.map fun l => (l.decisions.reverse.take limit.toNat).map (·.decision)

structure Agrees (l : Ledger enc ω) (root : Root enc ω) : Prop where
  pending : ∃ rs, l.pending = .ok rs ∧ pendingCards root = .ok (rs.map fun r => summarize r.toJson) ∧
    ∀ r ∈ rs, strip r.requestId ≠ [] → ∃ row ∈ l.submitted, row.requestId = r.requestId ∧
      card root r.requestId = .ok (row.toJson, none)
  card : ∀ q, strip q ≠ [] → ∀ payload decision, card root q = .ok (payload, decision) ↔
    ∃ r, l.get q = .ok r ∧ payload = r.toJson ∧ decision = l.decision q
  signed : ∀ d ∈ l.decisions, ∀ q, d.requestId = some q → strip q ≠ [] →
    ∃ payload, Governance.card root q = .ok (payload, some d.decision)
  recent : ∀ limit ds, recentDecisions root limit = .ok ds → (ds.length : ℤ) = min limit l.decisions.length ∧
    ∃ older, l.decisions.map (·.decision) = older ++ ds.reverse

variable {authorized : ω → List Text} {l : Ledger enc ω}

theorem decision_eq_none (h : l.answered? q = false) : l.decision q = none := by
  unfold Ledger.decision
  rw [Option.map_eq_none_iff, List.find?_eq_none]
  intro d hd hid
  exact Bool.false_ne_true (h.symm.trans (List.any_eq_true.mpr ⟨d, hd, hid⟩))

theorem get_of_find {q : Text} {row : RequestRow} (hkept : Kept authorized l) (h : l.findRequest q = some row) :
    ∃ r, l.get q = .ok r ∧ row.payload = r.toJson := by
  have hmem := List.mem_of_find?_eq_some h
  rw [hkept.rows] at hmem
  obtain ⟨r, hr, rfl⟩ := List.mem_map.mp hmem
  refine ⟨r, ?_, rfl⟩
  unfold Ledger.get
  rw [h]
  dsimp only
  rw [decode_encode (hkept.canonical r hr)]

theorem card_iff (hkept : Kept authorized l) {path q : Text} (hq : strip q ≠ []) (payload : RequestJson)
    (decision : Option ResearchDecision) : card ⟨path, some l⟩ q = .ok (payload, decision) ↔
      ∃ r, l.get q = .ok r ∧ payload = r.toJson ∧ decision = l.decision q := by
  unfold card
  rw [if_neg hq]
  cases hrow : l.findRequest q with
  | none =>
    refine iff_of_false (by simp [Root.connect, hrow]) ?_
    rintro ⟨r, hget, -⟩
    unfold Ledger.get at hget
    rw [hrow] at hget
    cases hget
  | some row =>
    obtain ⟨r, hget, hpayload⟩ := get_of_find hkept hrow
    simp only [Root.connect, hrow, Except.ok.injEq, Prod.mk.injEq, hget, hpayload, exists_eq_left']
    exact ⟨fun ⟨h, h'⟩ => ⟨h.symm, h'.symm⟩, fun ⟨h, h'⟩ => ⟨h.symm, h'.symm⟩⟩

theorem card_waiting (hkept : Kept authorized l) {path : Text} {r : DecisionRequest enc.toEncoders} (hr : r ∈ l.submitted)
    (hopen : l.answered? r.requestId = false) (hblank : strip r.requestId ≠ []) :
    ∃ row ∈ l.submitted, row.requestId = r.requestId ∧ card ⟨path, some l⟩ r.requestId = .ok (row.toJson, none) := by
  have hsome : (l.findRequest r.requestId).isSome = true := by
    unfold Ledger.findRequest
    rw [List.find?_isSome, hkept.rows]
    exact ⟨_, List.mem_map_of_mem hr, decide_eq_true rfl⟩
  obtain ⟨row, hrow⟩ := Option.isSome_iff_exists.mp hsome
  obtain ⟨found, hget, -⟩ := get_of_find hkept hrow
  obtain ⟨hmem, hid⟩ := hkept.get hget
  exact ⟨found, hmem, hid, (card_iff hkept hblank _ _).mpr ⟨found, hget, rfl, (decision_eq_none hopen).symm⟩⟩

theorem decision_of_mem (hkept : Kept authorized l) {d : DecisionRow ω} (hd : d ∈ l.decisions) {q : Text}
    (hq : d.requestId = some q) : l.decision q = some d.decision := by
  unfold Ledger.decision
  have honce := hkept.once
  generalize l.decisions = ds at hd honce
  induction ds with
  | nil => nomatch hd
  | cons first ds ih =>
    by_cases hfirst : first.requestId = some q
    · rw [List.find?_cons, decide_eq_true hfirst]
      rcases List.mem_cons.mp hd with rfl | hd
      · rfl
      · -- a second decision on the same request is what the ledger never has
        rw [List.filterMap_cons_some hfirst, List.nodup_cons] at honce
        exact absurd (List.mem_filterMap.mpr ⟨d, hd, hq⟩) honce.1
    · rw [List.find?_cons, decide_eq_false hfirst]
      rcases List.mem_cons.mp hd with rfl | hd
      · exact absurd hq hfirst
      · refine ih hd (List.Nodup.sublist ?_ honce)
        exact (List.sublist_cons_self first ds).filterMap _

theorem card_signed (hkept : Kept authorized l) {path : Text} {d : DecisionRow ω} (hd : d ∈ l.decisions) {q : Text}
    (hq : d.requestId = some q) (hblank : strip q ≠ []) :
    ∃ payload, card ⟨path, some l⟩ q = .ok (payload, some d.decision) := by
  obtain ⟨-, r, hr, rfl, -⟩ := hkept.decided d hd q hq
  have hsome : (l.findRequest r.requestId).isSome = true := by
    unfold Ledger.findRequest
    rw [List.find?_isSome, hkept.rows]
    exact ⟨_, List.mem_map_of_mem hr, decide_eq_true rfl⟩
  obtain ⟨row, hrow⟩ := Option.isSome_iff_exists.mp hsome
  obtain ⟨found, hget, -⟩ := get_of_find hkept hrow
  exact ⟨_, (card_iff hkept hblank _ _).mpr ⟨found, hget, rfl, (decision_of_mem hkept hd hq).symm⟩⟩

theorem recentDecisions_spec {path : Text} {limit : ℤ} {ds : List ResearchDecision}
    (h : recentDecisions ⟨path, some l⟩ limit = .ok ds) :
    (ds.length : ℤ) = min limit l.decisions.length ∧ ∃ older, l.decisions.map (·.decision) = older ++ ds.reverse := by
  unfold recentDecisions at h
  split at h
  · cases h
  · rename_i hlimit
    cases h
    refine ⟨?_, (l.decisions.take (l.decisions.length - limit.toNat)).map (·.decision), ?_⟩
    · rw [List.length_map, List.length_take, List.length_reverse]
      omega
    · dsimp only
      rw [List.take_reverse, List.map_reverse, List.reverse_reverse, ← List.map_append, List.take_append_drop]

theorem agrees_of_kept (hkept : Kept authorized l) (path : Text) : Agrees l ⟨path, some l⟩ := by
  refine ⟨⟨l.submitted.filter fun r => !l.answered? r.requestId, hkept.sound.pending, ?_, fun r hr hblank => ?_⟩,
    fun q hq => card_iff hkept hq, fun d hd q hq hblank => card_signed hkept hd hq hblank, fun _ _ h => recentDecisions_spec h⟩
  · show Except.ok ((l.requests.filter fun row => !l.answered? row.requestId).map fun row => summarize row.payload) = _
    rw [hkept.rows, List.filter_map, List.map_map]
    rfl
  · obtain ⟨hmem, hopen⟩ := List.mem_filter.mp hr
    exact card_waiting hkept hmem (Bool.not_eq_true' _ ▸ hopen) hblank

theorem decision_after {q : Text} {d : ResearchDecision} (h : l.decision q = some d) (ts : List (ω × Transaction)) :
    (l.after authorized ts).decision q = some d := by
  obtain ⟨rest, hrest⟩ := @decisions_after enc ω authorized l ts
  unfold Ledger.decision at h ⊢
  rw [← hrest, List.find?_append]
  obtain ⟨row, hrow, rfl⟩ := Option.map_eq_some_iff.mp h
  rw [hrow]
  rfl

/-- After any interleaving of transactions the session's view agrees with the inbox: the same cards wait in the same
order, a card shows the request that would be answered and its decision; and a decision it shows stays. -/
theorem governance_agrees {enc : CanonicalEncoders} {ω : Type} (authorized : ω → List Text) (path : Text)
    (ts later : List (ω × Transaction)) :
    Agrees (({} : Ledger enc ω).after authorized ts) ⟨path, some (({} : Ledger enc ω).after authorized ts)⟩ ∧
      ∀ q payload d, card ⟨path, some (({} : Ledger enc ω).after authorized ts)⟩ q = .ok (payload, some d) →
        card ⟨path, some (({} : Ledger enc ω).after authorized (ts ++ later))⟩ q = .ok (payload, some d) := by
  have hkept : Kept authorized (({} : Ledger enc ω).after authorized ts) := kept_after kept_empty ts
  have hsplit : ({} : Ledger enc ω).after authorized (ts ++ later) = (({} : Ledger enc ω).after authorized ts).after authorized later :=
    List.foldl_append
  refine ⟨agrees_of_kept hkept path, fun q payload d h => ?_⟩
  have hblank : strip q ≠ [] := by
    intro hblank
    unfold card at h
    rw [if_pos hblank] at h
    cases h
  obtain ⟨r, hget, hpayload, hdecision⟩ := (card_iff hkept hblank _ _).mp h
  rw [hsplit, card_iff (kept_after hkept later) hblank]
  exact ⟨r, get_after hget later, hpayload, (decision_after hdecision.symm later).symm⟩

end

end EvoHarness.Readout.Governance
