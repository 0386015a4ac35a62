import EvoHarness.Research.Ledger
import EvoHarness.Research.Promotion
import EvoHarness.Library.Json

/-! Changing the measurement: a protocol-change card is approved in the inbox, and the approval
lets `establish_baseline` put a record of the new namespace over the old reference. -/
namespace EvoHarness.Research
open PyText Runs

structure MigrationReport where
  oldNamespace : ScoreNamespace
  newNamespace : ScoreNamespace
  nPairs : ℕ
  spearman : Option ℚ
  championOld : Text
  championNew : Text
  championOldFitness : ℚ
  championNewFitness : ℚ
  championOldEvidenceId : Text
  championNewEvidenceId : Text
  championChanged : Bool
  topK : ℕ
  topKOverlap : ℚ
  decisionFlips : ℕ
  flippedCandidates : List Text
  pairwiseInversions : ℕ
  invertedPairsSample : List (Text × Text)
  costOldUsd : ℚ
  costNewUsd : ℚ
  evidenceRefs : List Text
  requiresHumanApproval : Bool := true

/-- `spec_hash` of a report, its JSON text, and the texts of numbers and truth values. -/
structure ReportFormats where
  hash : MigrationReport → Text
  json : MigrationReport → Text
  number : ℚ → Text
  spearman : Option ℚ → Text
  truth : Bool → Text

def MigrationReport.NewChampion (r : MigrationReport) (record : ReferenceRecord) : Prop :=
  record.candidateId = r.championNew ∧ record.evidenceId = r.championNewEvidenceId ∧
    record.fitness = some r.championNewFitness

def MigrationReport.OldChampion (r : MigrationReport) (record : ReferenceRecord) : Prop :=
  record.candidateId = r.championOld ∧ record.evidenceId = r.championOldEvidenceId ∧
    record.fitness = some r.championOldFitness

instance (r : MigrationReport) (record : ReferenceRecord) : Decidable (r.NewChampion record) :=
  inferInstanceAs (Decidable (_ ∧ _ ∧ _))

instance (r : MigrationReport) (record : ReferenceRecord) : Decidable (r.OldChampion record) :=
  inferInstanceAs (Decidable (_ ∧ _ ∧ _))

def protocolChangeRequest (fm : ReportFormats) (r : MigrationReport) (experimentId : Text)
    (estimatedCosts : List (Text × ℚ)) : RequestBody where
  kind := "protocol-change".toList
  experimentId := experimentId
  question := "Measurement 迁移待审:".toList ++ r.oldNamespace.measurementHash ++ " → ".toList ++
    r.newNamespace.measurementHash ++ "。是否批准新 baseline?".toList
  alternatives := ["approve-protocol-change:采纳新口径,建立新 baseline".toList,
    "request-more-evidence:扩大面板重测".toList, "veto:维持旧口径".toList]
  recommendedAction :=
    if r.championChanged || 0 < r.decisionFlips then "request-more-evidence".toList
    else "approve-protocol-change".toList
  evidenceRefs := r.evidenceRefs
  uncertainty := "spearman=".toList ++ fm.spearman r.spearman ++ ", champion_changed=".toList ++
    fm.truth r.championChanged ++ ", flips=".toList ++ Nat.toDigits 10 r.decisionFlips ++ ", inversions=".toList ++
    Nat.toDigits 10 r.pairwiseInversions
  consequenceOfWaiting := ("旧口径继续作为 baseline;新测量产生的分数处于新 namespace," ++
    "在批准前不可与任何历史分数比较").toList
  estimatedCosts := estimatedCosts
  subjectHash := fm.hash r
  payload := fm.json r

inductive MigrationError where
  | approvalRequired (message : Text)
  | panel (message : Text)
  | refused (r : Refusal)

structure Establishing where
  record : ReferenceRecord
  report : MigrationReport
  requestId : Text
  experimentId : Text

def protocolChange : Text := "protocol-change".toList

def approveProtocolChange : Text := "approve-protocol-change".toList

def migrationDecision (fm : ReportFormats) (requestId : Text) (d : ResearchDecision) (r : MigrationReport) :
    MigrationDecision :=
  [("experiment_id".toList, Json.quote d.experimentId), ("request_id".toList, Json.quote requestId),
    ("migration_report_hash".toList, Json.quote (fm.hash r)), ("action".toList, Json.quote d.action),
    ("actor".toList, Json.quote d.actor), ("reason".toList, Json.quote d.reason),
    ("created_at".toList, fm.number d.createdAt), ("report".toList, fm.json r)]

def Files.call (f : Files) (c : Call) (now : ℚ) : Except Fault ReferenceRecord × Files :=
  match c.check f.current with
  | .error e => (.error e, f)
  | .ok row =>
    (.ok (row.stamped now).record,
      { current := some (row.stamped now).record, history := f.history ++ [row.stamped now] })

variable {enc : CanonicalEncoders} {ω : Type}

def establishBaseline (fm : ReportFormats) (l : Ledger enc ω) (f : Files) (e : Establishing) (now : ℚ) :
    Except MigrationError ReferenceRecord × Files :=
  match l.requireDecision e.requestId protocolChange approveProtocolChange e.experimentId (fm.hash e.report) with
  | .error (.inboxError message) => (.error (.approvalRequired message), f)
  | .error refusal => (.error (.refused refusal), f)
  | .ok (request, decision) =>
    if e.record.scoreNamespace ≠ e.report.newNamespace then
      (.error (.panel "record namespace does not match the migration report".toList), f)
    else if ¬e.report.NewChampion e.record then
      (.error (.panel "new baseline record does not match the approved panel champion".toList), f)
    else
      match f.current with
      | none => (.error (.panel "measurement migration requires an old baseline".toList), f)
      | some current =>
        if current.scoreNamespace = e.record.scoreNamespace then
          (.error (.panel "same namespace — use PromotionPolicy/promote()".toList), f)
        else if current.scoreNamespace ≠ e.report.oldNamespace then
          (.error (.panel "current reference is not on the report's old namespace".toList), f)
        else if ¬e.report.OldChampion current then
          (.error (.panel "current reference does not match the migration panel champion".toList), f)
        else
          match f.call (.rebase e.record (migrationDecision fm request.requestId decision e.report)) now with
          | (.error e, f') => (.error (.refused (.fault e)), f')
          | (.ok record, f') => (.ok record, f')

structure Desk (enc : CanonicalEncoders) (ω : Type) where
  ledger : Ledger enc ω := {}
  files : Files := {}

inductive Deal (ω : Type) where
  | transact (t : ω × Transaction)
  | establish (e : Establishing) (now : ℚ)
  | promote (record : ReferenceRecord) (expectedCurrent : Option Text) (now : ℚ)
  | consider (p : PromotionPolicy) (subject : EvidenceEnvelope) (reference : Option EvidenceEnvelope) (now : ℚ)

def Files.considered (fm : Formats) (f : Files) (p : PromotionPolicy) (subject : EvidenceEnvelope)
    (reference : Option EvidenceEnvelope) (now : ℚ) : Files :=
  match p.consider fm f.current subject reference with
  | .ok (.promoting record expected) => (f.call (.promote record expected) now).2
  | _ => f

structure DeskFormats where
  report : ReportFormats
  claims : Formats

variable (fm : DeskFormats) (authorized : ω → List Text)

def Desk.deal (d : Desk enc ω) : Deal ω → Desk enc ω
  | .transact t => { d with ledger := d.ledger.commit authorized t }
  | .establish e now => { d with files := (establishBaseline fm.report d.ledger d.files e now).2 }
  | .promote record expected now => { d with files := (d.files.call (.promote record expected) now).2 }
  | .consider p subject reference now => { d with files := d.files.considered fm.claims p subject reference now }

def isRequestId (entry : Text × Text) : Bool := entry.1 = "request_id".toList

def HistoryRow.request (row : HistoryRow) : Option Text :=
  row.migration.bind fun m => (m.find? isRequestId).map (·.2)

/-- A rebase row carries an approved protocol-change card of its report, and puts the report's
new champion over its old one. -/
def Approved (fm : ReportFormats) (authorized : ω → List Text) (l : Ledger enc ω) (row : HistoryRow)
    (m : MigrationDecision) : Prop :=
  ∃ card ∈ l.submitted, ∃ answer ∈ l.decisions, ∃ report : MigrationReport,
    card.kind = protocolChange ∧ answer.requestId = some card.requestId ∧
      answer.decision.action = approveProtocolChange ∧ answer.decision.actor ∈ authorized answer.writer ∧
      answer.decision.experimentId = card.experimentId ∧ card.subjectHash = fm.hash report ∧
      m = migrationDecision fm card.requestId answer.decision report ∧
      row.record.scoreNamespace = report.newNamespace ∧ report.NewChampion row.record ∧
      row.record.previousCandidateId = some report.championOld

/-- Each approval is the decision of at most one rebase row, and each rebase row is approved. -/
structure Desk.Sound (d : Desk enc ω) : Prop where
  once : (d.files.history.filterMap HistoryRow.request).Nodup
  approved : ∀ row ∈ d.files.history, ∀ m, row.migration = some m →
    Approved fm.report authorized d.ledger row m

def Establishing.Fits (e : Establishing) (current : Option ReferenceRecord) : Prop :=
  e.record.scoreNamespace = e.report.newNamespace ∧ e.report.NewChampion e.record ∧
    ∃ r, current = some r ∧ r.scoreNamespace ≠ e.record.scoreNamespace ∧
      r.scoreNamespace = e.report.oldNamespace ∧ e.report.OldChampion r

/-- A rebase row already names the request of the call, and the reference is again what the
report calls its old champion. -/
def Desk.Again (d : Desk enc ω) (e : Establishing) : Prop :=
  Json.quote e.requestId ∈ d.files.history.filterMap HistoryRow.request ∧
    (d.ledger.requireDecision e.requestId protocolChange approveProtocolChange e.experimentId
      (fm.report.hash e.report)).isOk = true ∧ e.Fits d.files.current

def Desk.firstUse (d : Desk enc ω) : Deal ω → Prop
  | .establish e _ => ¬d.Again fm e
  | _ => True

variable {fm : DeskFormats} {authorized : ω → List Text} {l : Ledger enc ω} {f : Files}

def promoteRow (record : ReferenceRecord) (current : Option ReferenceRecord) (now : ℚ) : HistoryRow :=
  HistoryRow.stamped { record := { record with previousCandidateId := candidateOf current } } now

def rebaseRow (record : ReferenceRecord) (m : MigrationDecision) (current : Option ReferenceRecord) (now : ℚ) :
    HistoryRow :=
  HistoryRow.stamped
    { record := { record with previousCandidateId := candidateOf current }, migration := some m } now

theorem history_promote (record : ReferenceRecord) (expected : Option Text) (now : ℚ) :
    (f.call (.promote record expected) now).2.history = f.history ∨
      (f.call (.promote record expected) now).2.history = f.history ++ [promoteRow record f.current now] := by
  unfold Files.call Call.check
  split
  · left
    rfl
  · next row hrow =>
    right
    dsimp only at hrow
    split at hrow
    · exact nomatch hrow
    · cases hcurrent : f.current with
      | none =>
        rw [hcurrent] at hrow
        obtain rfl := Except.ok.inj hrow
        rfl
      | some r =>
        rw [hcurrent] at hrow
        dsimp only at hrow
        split at hrow
        · obtain rfl := Except.ok.inj hrow
          rfl
        · exact nomatch hrow

theorem history_considered (fm : Formats) (p : PromotionPolicy) (subject : EvidenceEnvelope)
    (reference : Option EvidenceEnvelope) (now : ℚ) :
    (f.considered fm p subject reference now).history = f.history ∨
      ∃ record, (f.considered fm p subject reference now).history =
        f.history ++ [promoteRow record f.current now] := by
  unfold Files.considered
  split
  · next record expected _ =>
    cases history_promote (f := f) record expected now with
    | inl h => exact Or.inl h
    | inr h => exact Or.inr ⟨record, h⟩
  · exact Or.inl rfl

theorem history_established {e : Establishing} {now : ℚ} {card : DecisionRequest enc.toEncoders}
    {d : ResearchDecision} (hcard : l.requireDecision e.requestId protocolChange approveProtocolChange e.experimentId
      (fm.report.hash e.report) = .ok (card, d)) (hfits : e.Fits f.current) :
    (establishBaseline fm.report l f e now).2.history = f.history ++
      [rebaseRow e.record (migrationDecision fm.report card.requestId d e.report) f.current now] := by
  obtain ⟨hspace, hnew, r, hr, hother, hold, hchampion⟩ := hfits
  unfold establishBaseline
  simp only [hcard, hspace, hnew, hr, hold, hchampion, not_true_eq_false, ne_eq, if_false]
  rw [hspace, hold] at hother
  rw [if_neg hother]
  rw [← hr]
  rfl

theorem established_unfit {e : Establishing} {now : ℚ}
    (h : ¬((l.requireDecision e.requestId protocolChange approveProtocolChange e.experimentId
      (fm.report.hash e.report)).isOk = true ∧ e.Fits f.current)) :
    (establishBaseline fm.report l f e now).2 = f := by
  unfold establishBaseline
  split
  · rfl
  · rfl
  · next card d hcard =>
    have hunfit : ¬e.Fits f.current := fun hfits => h ⟨by rw [hcard]; rfl, hfits⟩
    split
    · rfl
    · next hspace =>
      split
      · rfl
      · next hnew =>
        split
        · rfl
        · next r hr =>
          split
          · rfl
          · next hother =>
            split
            · rfl
            · next hold =>
              split
              · rfl
              · next hchampion =>
                exact (hunfit ⟨not_not.mp hspace, not_not.mp hnew, r, hr, hother, not_not.mp hold,
                  not_not.mp hchampion⟩).elim

theorem decision_mem {q : Text} {d : ResearchDecision} (h : l.decision q = some d) :
    ∃ answer ∈ l.decisions, answer.requestId = some q ∧ answer.decision = d := by
  unfold Ledger.decision at h
  obtain ⟨answer, hfind, hd⟩ := Option.map_eq_some_iff.mp h
  have hq := List.find?_some (p := fun d : DecisionRow ω => decide (d.requestId = some q)) hfind
  exact ⟨answer, List.mem_of_find?_eq_some hfind, of_decide_eq_true hq, hd⟩

theorem requireDecision_ok {q kind action experimentId subjectHash : Text} {card : DecisionRequest enc.toEncoders}
    {d : ResearchDecision} (h : l.requireDecision q kind action experimentId subjectHash = .ok (card, d)) :
    l.get q = .ok card ∧ l.decision q = some d ∧ card.kind = kind ∧ d.action = action ∧
      card.experimentId = experimentId ∧ d.experimentId = experimentId ∧ card.subjectHash = subjectHash := by
  unfold Ledger.requireDecision at h
  split at h
  · exact nomatch h
  · next request hget =>
    split at h
    · exact nomatch h
    · next decision hdecision =>
      split at h
      · exact nomatch h
      · next hkind =>
        split at h
        · exact nomatch h
        · next haction =>
          split at h
          · exact nomatch h
          · next hexperiment =>
            split at h
            · exact nomatch h
            · next hsubject =>
              obtain ⟨rfl, rfl⟩ := Prod.mk.inj (Except.ok.inj h)
              have hboth := not_or.mp hexperiment
              exact ⟨hget, hdecision, not_not.mp hkind, not_not.mp haction, not_not.mp hboth.1, not_not.mp hboth.2,
                not_not.mp hsubject⟩

theorem rebaseRow_approved (hl : Kept authorized l) {e : Establishing} {now : ℚ}
    {card : DecisionRequest enc.toEncoders} {d : ResearchDecision} {current : Option ReferenceRecord}
    (hcard : l.requireDecision e.requestId protocolChange approveProtocolChange e.experimentId
      (fm.report.hash e.report) = .ok (card, d)) (hfits : e.Fits current) :
    Approved fm.report authorized l
      (rebaseRow e.record (migrationDecision fm.report card.requestId d e.report) current now)
      (migrationDecision fm.report card.requestId d e.report) := by
  obtain ⟨hget, hdecision, hkind, haction, hexperiment, hexperiment', hsubject⟩ := requireDecision_ok hcard
  obtain ⟨hmem, hid⟩ := hl.get hget
  obtain ⟨answer, hanswer, hq, rfl⟩ := decision_mem hdecision
  obtain ⟨hspace, hnew, r, rfl, _, _, hold⟩ := hfits
  refine ⟨card, hmem, answer, hanswer, e.report, hkind, hid ▸ hq, haction, (hl.decided answer hanswer _ hq).1,
    hexperiment'.trans hexperiment.symm, hsubject, rfl, hspace, hnew, ?_⟩
  exact congrArg some hold.1

theorem Approved.grow {l' : Ledger enc ω} {row : HistoryRow} {m : MigrationDecision}
    (h : Approved fm.report authorized l row m) (hsubmitted : l.submitted <+: l'.submitted)
    (hdecisions : l.decisions <+: l'.decisions) : Approved fm.report authorized l' row m := by
  obtain ⟨card, hcard, answer, hanswer, rest⟩ := h
  exact ⟨card, hsubmitted.subset hcard, answer, hdecisions.subset hanswer, rest⟩

theorem request_promoteRow (record : ReferenceRecord) (current : Option ReferenceRecord) (now : ℚ) :
    (promoteRow record current now).request = none := rfl

theorem request_rebaseRow (fm : ReportFormats) (record : ReferenceRecord) (q : Text) (d : ResearchDecision)
    (report : MigrationReport) (current : Option ReferenceRecord) (now : ℚ) :
    (rebaseRow record (migrationDecision fm q d report) current now).request = some (Json.quote q) := by
  have hfirst (t : Text) : ¬isRequestId ("experiment_id".toList, t) = true := by
    show ¬decide ("experiment_id".toList = "request_id".toList) = true
    decide
  have hsecond (t : Text) : isRequestId ("request_id".toList, t) = true := decide_eq_true rfl
  unfold HistoryRow.request rebaseRow HistoryRow.stamped migrationDecision
  rw [Option.bind_some, List.find?_cons_of_neg (hfirst _), List.find?_cons_of_pos (hsecond _), Option.map_some]

variable {d : Desk enc ω}

theorem Desk.Sound.promoted (h : d.Sound fm authorized) {f : Files} (record : ReferenceRecord) (now : ℚ)
    (hf : f.history = d.files.history ++ [promoteRow record d.files.current now]) :
    ({ d with files := f } : Desk enc ω).Sound fm authorized := by
  constructor
  · show (f.history.filterMap HistoryRow.request).Nodup
    rw [hf, List.filterMap_append, List.filterMap_cons_none (request_promoteRow ..), List.filterMap_nil,
      List.append_nil]
    exact h.once
  · intro row hrow m hm
    have hrow : row ∈ d.files.history ++ [promoteRow record d.files.current now] := hf ▸ hrow
    cases List.mem_append.mp hrow with
    | inl hrow => exact h.approved row hrow m hm
    | inr hrow =>
      rw [List.mem_singleton.mp hrow] at hm
      exact nomatch hm

theorem Desk.Sound.same (h : d.Sound fm authorized) {f : Files} (hf : f.history = d.files.history) :
    ({ d with files := f } : Desk enc ω).Sound fm authorized := by
  constructor
  · show (f.history.filterMap HistoryRow.request).Nodup
    rw [hf]
    exact h.once
  · intro row hrow m hm
    exact h.approved row (hf ▸ hrow) m hm

/-- A call of `establish_baseline` keeps the desk sound exactly if it is no second use. -/
theorem Desk.Sound.established_iff (h : d.Sound fm authorized) (hl : Kept authorized d.ledger) (e : Establishing)
    (now : ℚ) : (d.deal fm authorized (.establish e now)).Sound fm authorized ↔ ¬d.Again fm e := by
  unfold Desk.deal
  dsimp only
  by_cases hok : (d.ledger.requireDecision e.requestId protocolChange approveProtocolChange e.experimentId
      (fm.report.hash e.report)).isOk = true ∧ e.Fits d.files.current
  · obtain ⟨hisOk, hfits⟩ := hok
    cases hcard : d.ledger.requireDecision e.requestId protocolChange approveProtocolChange e.experimentId
        (fm.report.hash e.report) with
    | error refusal =>
      rw [hcard] at hisOk
      exact nomatch hisOk
    | ok pair =>
      obtain ⟨card, decision⟩ := pair
      have hhistory : (establishBaseline fm.report d.ledger d.files e now).2.history = _ :=
        history_established hcard hfits
      have hid : card.requestId = e.requestId := (hl.get (requireDecision_ok hcard).1).2
      have hagain : d.Again fm e ↔ Json.quote e.requestId ∈ d.files.history.filterMap HistoryRow.request :=
        ⟨fun h => h.1, fun h => ⟨h, hisOk, hfits⟩⟩
      rw [hagain]
      constructor
      · intro hsound
        have honce := hsound.once
        dsimp only at honce
        rw [hhistory, List.filterMap_append, List.filterMap_cons_some (request_rebaseRow ..), hid] at honce
        exact fun hused => (List.nodup_append.mp honce).2.2 _ hused _ List.mem_cons_self rfl
      · intro hfresh
        constructor
        · dsimp only
          rw [hhistory, List.filterMap_append, List.filterMap_cons_some (request_rebaseRow ..), hid]
          refine List.nodup_append.mpr ⟨h.once, List.nodup_singleton _, ?_⟩
          intro q hq q' hq' heq
          rw [List.mem_singleton.mp hq'] at heq
          exact hfresh (heq ▸ hq)
        · intro row hrow m hm
          dsimp only at hrow
          rw [hhistory] at hrow
          cases List.mem_append.mp hrow with
          | inl hrow => exact h.approved row hrow m hm
          | inr hrow =>
            obtain rfl := List.mem_singleton.mp hrow
            obtain rfl := Option.some.inj hm
            exact rebaseRow_approved hl hcard hfits
  · rw [established_unfit hok]
    exact ⟨fun _ hagain => hok hagain.2, fun _ => h⟩

theorem Desk.Sound.deal_iff (h : d.Sound fm authorized) (hl : Kept authorized d.ledger) (deal : Deal ω) :
    (d.deal fm authorized deal).Sound fm authorized ↔ d.firstUse fm deal := by
  cases deal with
  | transact t =>
    refine ⟨fun _ => trivial, fun _ => ⟨h.once, fun row hrow m hm => ?_⟩⟩
    exact (h.approved row hrow m hm).grow (submitted_commit t) (decisions_commit t)
  | establish e now => exact h.established_iff hl e now
  | promote record expected now =>
    refine ⟨fun _ => trivial, fun _ => ?_⟩
    cases history_promote (f := d.files) record expected now with
    | inl hsame => exact h.same hsame
    | inr hrow => exact h.promoted record now hrow
  | consider p subject reference now =>
    refine ⟨fun _ => trivial, fun _ => ?_⟩
    cases history_considered (f := d.files) fm.claims p subject reference now with
    | inl hsame => exact h.same hsame
    | inr hrow =>
      obtain ⟨record, hrow⟩ := hrow
      exact h.promoted record now hrow

theorem kept_deal (hl : Kept authorized d.ledger) (deal : Deal ω) : Kept authorized (d.deal fm authorized deal).ledger := by
  cases deal with
  | transact t => exact hl.commit t
  | establish e now => exact hl
  | promote record expected now => exact hl
  | consider p subject reference now => exact hl

variable (fm authorized) in
def dealt (d : Desk enc ω) (deal : Deal ω) : Option (Desk enc ω) := some (d.deal fm authorized deal)

/-- In a run of calls every approval is used once and every rebase row is approved, exactly if no
call uses an approval a second time after the reference has come back. -/
theorem approvals_used_once_iff (fm : DeskFormats) (authorized : ω → List Text) (deals : List (Deal ω)) :
    Everywhere (dealt fm authorized) (Desk.Sound fm authorized) ({} : Desk enc ω) deals ↔
      Meets (dealt fm authorized) (Desk.firstUse fm) ({} : Desk enc ω) deals := by
  apply everywhere_iff_meets (J := fun d : Desk enc ω => Kept authorized d.ledger)
  · intro d deal t hl ht
    obtain rfl := Option.some.inj ht
    exact kept_deal hl deal
  · intro d deal t hl h ht
    obtain rfl := Option.some.inj ht
    exact h.deal_iff hl deal
  · exact kept_empty
  · exact ⟨List.nodup_nil, fun row hrow => nomatch hrow⟩

def plainCanonical : CanonicalEncoders where
  requestHash b := b.subjectHash
  canonicalObject := .ok
  repr := id
  reprs := List.flatten
  canonical_again := fun _ _ _ => rfl

def plainDesk : DeskFormats where
  report := {
    hash := fun r => r.newNamespace.measurementHash
    json := fun _ => []
    number := fun _ => []
    spearman := fun _ => []
    truth := fun _ => [] }
  claims := plainFormats

def wideNamespace : ScoreNamespace := { exactNamespace with measurementHash := "w".toList, nonempty := by decide }

def reportFrom (oldNamespace newNamespace : ScoreNamespace) : MigrationReport where
  oldNamespace := oldNamespace
  newNamespace := newNamespace
  nPairs := 2
  spearman := none
  championOld := ['a']
  championNew := ['a']
  championOldFitness := 1
  championNewFitness := 1
  championOldEvidenceId := ['a']
  championNewEvidenceId := ['a']
  championChanged := false
  topK := 2
  topKOverlap := 1
  decisionFlips := 0
  flippedCandidates := []
  pairwiseInversions := 0
  invertedPairsSample := []
  costOldUsd := 0
  costNewUsd := 0
  evidenceRefs := [['a']]

def submitting (r : MigrationReport) : Deal Unit :=
  .transact ((), .submit (protocolChangeRequest plainDesk.report r ['x'] []) 1 (.ok ()))

def approving (r : MigrationReport) : Deal Unit :=
  .transact ((), .answer ⟨plainDesk.report.hash r, approveProtocolChange, "zk".toList, "seen".toList, [], 2⟩)

def establishing (r : MigrationReport) : Deal Unit :=
  .establish ⟨{ recordOf ['a'] 1 with scoreNamespace := r.newNamespace }, r, plainDesk.report.hash r, ['x']⟩ 3

/-- To the wide measurement, back to the exact one, and with the first approval out again. -/
def outAndBack : List (Deal Unit) :=
  [.promote (recordOf ['a'] 1) none 1, submitting (reportFrom exactNamespace wideNamespace),
    submitting (reportFrom wideNamespace exactNamespace), approving (reportFrom exactNamespace wideNamespace),
    approving (reportFrom wideNamespace exactNamespace), establishing (reportFrom exactNamespace wideNamespace),
    establishing (reportFrom wideNamespace exactNamespace), establishing (reportFrom exactNamespace wideNamespace)]

theorem approval_used_twice :
    ¬Everywhere (dealt plainDesk fun _ => ["zk".toList]) (Desk.Sound plainDesk fun _ => ["zk".toList])
      ({} : Desk plainCanonical Unit) outAndBack := by
  intro h
  have hrun : (run (dealt plainDesk fun _ => ["zk".toList]) ({} : Desk plainCanonical Unit) outAndBack).map
      (fun d => d.files.history.filterMap HistoryRow.request) =
        some [Json.quote "w".toList, Json.quote "m".toList, Json.quote "w".toList] := by
    decide +kernel
  obtain ⟨d, hd, hrequests⟩ := Option.map_eq_some_iff.mp hrun
  have honce := (everywhere_last h hd).once
  rw [hrequests] at honce
  exact absurd honce (by decide)

end EvoHarness.Research
