import EvoHarness.Evaluation.Report
import EvoHarness.Library.Spacing

/-! `EvidenceProducingGrader`: no report without evidence, and none for what is refused. -/
namespace EvoHarness.Evaluation
open PyText Json Hoare
open Research (Coverage ScoreNamespace)

variable {fm : EvidenceFormats}

/-- What the inner grader does. `fatal` is an exception that is no `Exception`. -/
inductive Behaviour where
  | returned (report : Option EvalReport)
  | infraError (message : PyStr)
  | sinkError
  | raised (typeName : Text) (message : PyStr)
  | fatal

/-- What `EvidenceJsonlSink.append` does. It may raise when the line is already in the file. -/
inductive Appended where
  | returned
  | refused
  | unsynced
deriving DecidableEq

inductive EvidenceRefs where
  | absent
  | list (ids : List Text)
  | other
deriving DecidableEq

structure Candidate where
  id : PyStr
  evidenceRefs : EvidenceRefs
  quarantined : Bool

def EvidenceRefs.add (id : Text) : EvidenceRefs → EvidenceRefs
  | .absent => .list [id]
  | .list ids => .list (if id ∈ ids then ids else ids ++ [id])
  | .other => .other

inductive Raised where
  | inner
  | sink
  | protocolError (message : Text)
  | fault (f : EvidenceFault)

/-- The outcome of a call. `appended` are the envelopes whose append returned, and `left` those
whose line is in the file although their append raised. -/
structure Grading (fm : EvidenceFormats) (α : Type) where
  result : Except Raised α
  appended : List (EvidenceEnvelope fm) := []
  left : List (EvidenceEnvelope fm) := []
  sinkFailed : Bool := false
  candidate : Candidate

def record (sink : EvidenceEnvelope fm → Appended) (c : Candidate) (e : EvidenceEnvelope fm) : Grading fm Unit :=
  match sink e with
  | .refused => { result := .error .sink, sinkFailed := true, candidate := c }
  | .unsynced => { result := .error .sink, left := [e], sinkFailed := true, candidate := c }
  | .returned =>
    if c.evidenceRefs = .other then { result := .error .sink, appended := [e], candidate := c }
    else {
      result := .ok ()
      appended := [e]
      candidate := {
        c with
        evidenceRefs := c.evidenceRefs.add (e.evidenceId fm)
        quarantined := (decideSearchUse e.toEvidenceBody).quarantine || c.quarantined } }

def Grading.andThen {α β : Type} (g : Grading fm α) (result : Except Raised β) : Grading fm β where
  result := match g.result with
    | .ok _ => result
    | .error r => .error r
  appended := g.appended
  left := g.left
  sinkFailed := g.sinkFailed
  candidate := g.candidate

/-- `except (EvidenceProtocolError, TypeError, ValueError)` -/
def EvidenceFault.caught : EvidenceFault → Bool
  | .protocolError _ _ | .typeError _ | .valueError _ => true
  | .overflowError | .recursionError => false

def EvidenceFault.message : EvidenceFault → Text
  | .protocolError _ m | .typeError m | .valueError m => m
  | _ => []

def EvidenceFault.typeName : EvidenceFault → Text
  | .protocolError _ _ => "EvidenceProtocolError".toList
  | .typeError _ => "TypeError".toList
  | .valueError _ => "ValueError".toList
  | .overflowError => "OverflowError".toList
  | .recursionError => "RecursionError".toList

section
variable (g : GraderSetup fm) (sink : EvidenceEnvelope fm → Appended) (c : Candidate)

def GraderSetup.recordNoVerdict (kind : FaultKind) (reason : PyStr) (raised : Raised) : Grading fm EvalReport :=
  match g.noVerdictEnvelope c.id kind reason with
  | .error f => { result := .error (.fault f), candidate := c }
  | .ok e => (record sink c e).andThen (.error raised)

def raisedText (typeName : Text) (message : PyStr) : PyStr :=
  message.map fun m => "grader raised ".toList ++ typeName ++ ": ".toList ++ m

def GraderSetup.grade : Behaviour → Grading fm EvalReport
  | .infraError message => g.recordNoVerdict sink c .infraError message .inner
  | .sinkError => { result := .error .sink, candidate := c }
  | .fatal => { result := .error .inner, candidate := c }
  | .raised typeName message => g.recordNoVerdict sink c .protocolError (raisedText typeName message)
      (.protocolError ((raisedText typeName message).getD []))
  | .returned report =>
    match g.envelopeFromReport c.id report, report with
    | .ok e, some r => (record sink c e).andThen (.ok r)
    | .ok e, none => (record sink c e).andThen (.error .inner)
    | .error f, _ =>
      if f.caught then
        g.recordNoVerdict sink c .protocolError (some (f.typeName ++ ": ".toList ++ f.message))
          (.protocolError f.message)
      else { result := .error (.fault f), candidate := c }

end

def SameFitness (r : EvalReport) (e : EvidenceEnvelope fm) : Prop :=
  ∃ n, e.fitness = some n ∧ (r.fitness = .float (.finite n) ∨
    ∃ z, r.fitness = .int z ∧ fm.float (.ofInt z) = some n ∧ exact z = true)

/-- The fault of the envelope is the one the report names. A failed report may name none. -/
def SameFault (r : EvalReport) (e : EvidenceEnvelope fm) : Prop :=
  (r.passed = .bool true ∧ r.faultKind = .none ∧ e.faultKind = none) ∨
    (r.passed = .bool false ∧ r.faultKind = .none ∧ e.faultKind = some .taskFailure) ∨
    ∃ k, r.passed = .bool false ∧ r.faultKind = .str (some k.value) ∧ e.faultKind = some k

def Candidate.passed (c : Candidate) (r : EvalReport) : Prop := r.passed = .bool true ∧ c.quarantined = false

def Grading.Evidenced (c : Candidate) (g : Grading fm EvalReport) : Prop :=
  match g.result with
  | .ok r => ∃ e, g.appended = [e] ∧ g.left = [] ∧ e.evaluationValid = true ∧ c.id = some e.candidateId ∧
      SameFitness r e ∧ SameFault r e ∧
      (g.candidate.passed r ↔ (decideSearchUse e.toEvidenceBody).selectable = true)
  | .error _ => (∀ e ∈ g.appended ++ g.left, e.evaluationValid = false) ∧
      (g.sinkFailed = true ∨ ∃ e, g.appended = [e] ∧ e.evaluationValid = false ∧ c.id = some e.candidateId)

def GraderSetup.Recordable (g : GraderSetup fm) (c : Candidate) : Prop :=
  0 ≤ g.plannedUnits ∧ ∃ id, c.id = some id ∧ strip id ≠ []

def GraderSetup.Orderly (g : GraderSetup fm) (sink : EvidenceEnvelope fm → Appended) (c : Candidate) : Behaviour → Prop
  | .infraError message => g.Recordable c ∧ message ≠ none
  | .raised _ message => g.Recordable c ∧ message ≠ none
  | .sinkError => False
  | .fatal => False
  | .returned report =>
    (∀ f, g.envelopeFromReport c.id report = .error f → f.caught = true ∧ g.Recordable c) ∧
      ∀ e, g.envelopeFromReport c.id report = .ok e → sink e = .refused ∨ sink e = .returned ∧
        c.evidenceRefs ≠ .other ∧ ¬ (c.quarantined = true ∧ (decideSearchUse e.toEvidenceBody).selectable = true)

theorem encoded_ok {s : PyStr} {t : Text} (h : encoded s = .ok t) : s = some t := by
  unfold encoded at h
  split at h
  · rw [Except.ok.inj h]
  · exact nomatch h

theorem coverageOf_planned {planned : ℤ} (h : 0 ≤ planned) : ∃ c, coverageOf planned 0 0 = .ok c := by
  unfold coverageOf
  rw [if_neg (by omega), if_neg (by omega), if_neg (by omega), dif_pos (le_refl _)]
  exact ⟨_, dif_pos fun _ => Nat.zero_le _⟩

variable {g : GraderSetup fm} {c : Candidate} {kind : FaultKind} {reason : PyStr} {e : EvidenceEnvelope fm}

theorem noVerdict_ok (h : g.noVerdictEnvelope c.id kind reason = .ok e) :
    g.Recordable c ∧ reason ≠ none ∧ e.evaluationValid = false ∧ c.id = some e.candidateId := by
  unfold GraderSetup.noVerdictEnvelope at h
  obtain ⟨coverage, hcoverage, h⟩ := ok_of_bind h
  obtain ⟨id, hid, h⟩ := ok_of_bind h
  obtain ⟨text, htext, h⟩ := ok_of_bind h
  have hplanned : 0 ≤ g.plannedUnits := by
    by_contra hneg
    unfold coverageOf at hcoverage
    rw [if_pos (by omega)] at hcoverage
    exact nomatch hcoverage
  have hcandidate : c.id = some id := encoded_ok hid
  have hreason : reason ≠ none := by
    intro hnone
    rw [hnone] at htext
    exact nomatch htext
  have hbody := (make_ok_iff.mp h).2
  have hchecked := e.checked
  rw [hbody] at hchecked
  have hblank : strip id ≠ [] := by
    intro hnil
    unfold EvidenceBody.check at hchecked
    rw [if_pos hnil] at hchecked
    exact nomatch hchecked
  refine ⟨⟨hplanned, id, hcandidate, hblank⟩, hreason, ?_, ?_⟩
  · rw [hbody]
  · rw [hbody, hcandidate]

theorem check_noVerdict {b : EvidenceBody} {text : Text} (hvalid : b.evaluationValid = false)
    (hnone : b.admissible = none ∧ b.fitness = none ∧ b.objectiveMet = none ∧ b.objectiveVerifierHash = none ∧
      b.artifactsRef = none)
    (hkind : b.faultKind.any (·.noVerdict) = true) (hreasons : b.missingReasons = [text]) (htext : strip text ≠ [])
    (hbudget : negative b.budgetUsedUsd = false) (hid : strip b.candidateId ≠ []) : b.check = .ok () := by
  obtain ⟨hadmissible, hfitness, hobjective, hverifier, hartifacts⟩ := hnone
  have hverdict : b.checkVerdict = .ok () := by
    unfold EvidenceBody.checkVerdict
    simp only [hvalid, hadmissible, hfitness, hkind, hreasons, hobjective, ne_eq, not_true_eq_false, or_self, if_false,
      Bool.true_eq_false, Bool.false_eq_true, List.cons_ne_nil]
  have hassessed : b.checkObjective = .ok () := by
    unfold EvidenceBody.checkObjective
    simp only [hobjective, hverifier, ne_eq, not_true_eq_false, false_and, and_false, if_false, reduceCtorEq]
  unfold EvidenceBody.check
  rw [if_neg hid, hbudget, if_neg Bool.false_ne_true, hartifacts, hreasons, if_neg (by simp), if_neg (by simpa using htext),
    hverdict]
  exact hassessed

theorem exists_noVerdict (hkind : kind.noVerdict = true) (hrecordable : g.Recordable c) (hreason : reason ≠ none) :
    ∃ e, g.noVerdictEnvelope c.id kind reason = .ok e := by
  obtain ⟨hplanned, id, hid, hblank⟩ := hrecordable
  obtain ⟨coverage, hcoverage⟩ := coverageOf_planned hplanned
  obtain ⟨text, rfl⟩ := Option.ne_none_iff_exists'.mp hreason
  have hvalue : strip kind.value ≠ [] := by cases kind <;> decide
  have hstated : strip (if strip text = [] then kind.value else strip text) ≠ [] := by
    split
    · exact hvalue
    · rename_i hne
      rwa [strip_of_trimmed (trimmed_strip text)]
  unfold GraderSetup.noVerdictEnvelope
  rw [hcoverage, hid]
  show ∃ e, EvidenceEnvelope.make fm _ = .ok e
  unfold EvidenceEnvelope.make
  rw [dif_pos ⟨rfl, fm.float_zero, ⟨List.nodup_nil, trivial⟩, ⟨List.nodup_nil, trivial⟩⟩]
  split
  · rename_i hcheck
    refine absurd (hcheck.symm.trans (check_noVerdict rfl ⟨rfl, rfl, rfl, rfl, rfl⟩ ?_ rfl hstated ?_ hblank)) ?_
    · exact hkind
    · exact (by decide : negative zero = false)
    · exact fun hne => nomatch hne
  · exact ⟨_, rfl⟩

theorem normalizedReport_ok {r : EvalReport} {w : WireReport} (h : normalizedReport fm r = .ok w) :
    r.fromJson fm = .ok w ∧ r.differs w = false := by
  unfold normalizedReport at h
  cases hread : r.fromJson fm with
  | error f =>
    rw [hread] at h
    cases f <;> exact nomatch h
  | ok w' =>
    rw [hread] at h
    dsimp only at h
    split at h
    · exact nomatch h
    · rename_i hsame
      rw [← Except.ok.inj h]
      exact ⟨rfl, by simpa using hsame⟩

structure Read (fm : EvidenceFormats) (r : EvalReport) (w : WireReport) : Prop where
  passed : r.passed = .bool w.passed
  faultKind : r.faultKind = .none ∧ w.faultKind = none ∨ ∃ s, r.faultKind = .str s ∧ w.faultKind = some s
  exclusive : w.passed = true → w.faultKind = none
  fitness : ∃ n, w.fitness = .finite n ∧ (r.fitness = .float (.finite n) ∨
    ∃ z, r.fitness = .int z ∧ fm.float (.ofInt z) = some n ∧ exact z = true)

theorem wireNumber_ok {name : String} {v : PyValue} {x : PyFloat} (h : wireNumber fm name false v = .ok x) :
    v = .float x ∨ ∃ z n, v = .int z ∧ x = .finite n ∧ fm.float (.ofInt z) = some n := by
  unfold wireNumber at h
  split at h
  · rename_i z
    split at h
    · rename_i n hn
      exact .inr ⟨z, n, rfl, (Except.ok.inj h).symm, hn⟩
    · exact nomatch h
  · rename_i x'
    left
    rw [← Except.ok.inj h]
  · exact nomatch h

theorem wireFinite_ok {r : EvalReport} {passed : Bool} {fitness : PyFloat} {faultKind : Option PyStr} {w : WireReport}
    (h : wireFinite fm r passed fitness faultKind = .ok w) :
    w.passed = passed ∧ w.fitness = fitness ∧ w.faultKind = faultKind := by
  unfold wireFinite at h
  iterate 14 obtain ⟨_, _, h⟩ := ok_of_bind h
  rw [← Except.ok.inj h]
  exact ⟨rfl, rfl, rfl⟩

theorem read_of_normalized {r : EvalReport} {w : WireReport} (h : normalizedReport fm r = .ok w) : Read fm r w := by
  obtain ⟨hread, hsame⟩ := normalizedReport_ok h
  unfold EvalReport.fromJson at hread
  obtain ⟨passed, hpassed, hread⟩ := ok_of_bind hread
  obtain ⟨fitness, hfitness, hread⟩ := ok_of_bind hread
  obtain ⟨faultKind, hkind, hread⟩ := ok_of_bind hread
  have hbool : r.passed = .bool passed := by
    unfold wirePassed at hpassed
    split at hpassed
    · rename_i b heq
      rw [heq, Except.ok.inj hpassed]
    · exact nomatch hpassed
  have hnamed : r.faultKind = .none ∧ faultKind = none ∨ ∃ s, r.faultKind = .str s ∧ faultKind = some s := by
    unfold wireFaultKind at hkind
    split at hkind
    · rename_i heq
      exact .inl ⟨heq, (Except.ok.inj hkind).symm⟩
    · rename_i s heq
      split at hkind
      · exact nomatch hkind
      · exact .inr ⟨s, heq, (Except.ok.inj hkind).symm⟩
    · exact nomatch hkind
  split at hread
  · exact nomatch hread
  rename_i hexclusive
  have hdiffers : r.fitness.differs w.fitness = false := by
    unfold EvalReport.differs at hsame
    simp only [Bool.or_eq_false_iff] at hsame
    exact hsame.1.1.1
  cases fitness with
  | finite n =>
    obtain ⟨hwpassed, hwfitness, hwkind⟩ := wireFinite_ok hread
    refine ⟨by rw [hwpassed, hbool], by rw [hwkind]; exact hnamed, ?_, n, hwfitness, ?_⟩
    · intro hpass
      rw [hwpassed] at hpass
      rw [hpass, Bool.true_and, Option.isSome_iff_ne_none, not_not] at hexclusive
      rw [hwkind, hexclusive]
    · cases wireNumber_ok hfitness with
      | inl hfloat => exact .inl hfloat
      | inr hint =>
        obtain ⟨z, m, hz, hm, hfloat⟩ := hint
        rw [hz, PyValue.differs, Bool.not_eq_false'] at hdiffers
        rw [PyFloat.finite.inj hm]
        exact .inr ⟨z, hz, hfloat, hdiffers⟩
  | nan =>
    -- the report that replaces it has another fitness
    obtain hfloat | ⟨z, n, _, hx, _⟩ := wireNumber_ok hfitness
    · rw [← Except.ok.inj hread, hfloat] at hdiffers
      exact nomatch hdiffers
    · exact nomatch hx
  | infinite positive =>
    obtain hfloat | ⟨z, n, _, hx, _⟩ := wireNumber_ok hfitness
    · cases positive with
      | true =>
        rw [← Except.ok.inj hread, hfloat] at hdiffers
        exact nomatch hdiffers
      | false =>
        rw [← Except.ok.inj hread, hfloat] at hdiffers
        exact nomatch hdiffers
    · exact nomatch hx

theorem fault_of_read {r : EvalReport} {w : WireReport} (h : Read fm r w)
    (hverdict : (classifyFault w.passed w.faultKind).filter (·.noVerdict) = none)
    (he : e.faultKind = classifyFault w.passed w.faultKind) : SameFault r e := by
  cases hpassed : w.passed with
  | true =>
    have hnone := h.exclusive hpassed
    left
    rw [hpassed, hnone] at he
    obtain hkind | ⟨s, _, hs⟩ := h.faultKind
    · exact ⟨hpassed ▸ h.passed, hkind.1, he⟩
    · exact nomatch hs.symm.trans hnone
  | false =>
    right
    obtain hkind | ⟨s, hkind, hs⟩ := h.faultKind
    · left
      rw [hpassed, hkind.2] at he
      exact ⟨hpassed ▸ h.passed, hkind.1, he⟩
    · right
      rw [hpassed, hs] at he hverdict
      have hnamed : classifyFault false (some s) = some ((s.bind FaultKind.ofValue).getD .unknown) := rfl
      rw [hnamed] at he hverdict
      cases hvalue : s.bind FaultKind.ofValue with
      | none =>
        rw [hvalue] at hverdict
        exact nomatch hverdict
      | some k =>
        obtain ⟨t, ht, hk⟩ := Option.bind_eq_some_iff.mp hvalue
        have htext : k.value = t := of_decide_eq_true (List.find?_some (p := fun k : FaultKind => decide (k.value = t)) hk)
        rw [hvalue] at he
        exact ⟨k, hpassed ▸ h.passed, by rw [hkind, ht, htext], he⟩

theorem verdict_ok {w : WireReport} {fault : Option FaultKind} (h : g.verdict c.id w fault = .ok e) :
    e.evaluationValid = true ∧ c.id = some e.candidateId ∧
      e.admissible = some (decide (fault ≠ some .invalidCandidate)) ∧ e.fitness.map .finite = some w.fitness ∧
      e.faultKind = fault := by
  unfold GraderSetup.verdict at h
  obtain ⟨_, _, h⟩ := ok_of_bind h
  obtain ⟨_, _, h⟩ := ok_of_bind h
  obtain ⟨_, _, h⟩ := ok_of_bind h
  obtain ⟨_, _, h⟩ := ok_of_bind h
  obtain ⟨fitness, hfitness, h⟩ := ok_of_bind h
  obtain ⟨_, _, h⟩ := ok_of_bind h
  obtain ⟨_, _, h⟩ := ok_of_bind h
  obtain ⟨_, _, h⟩ := ok_of_bind h
  obtain ⟨_, _, h⟩ := ok_of_bind h
  obtain ⟨id, hid, h⟩ := ok_of_bind h
  obtain ⟨_, _, h⟩ := ok_of_bind h
  have hbody := (make_ok_iff.mp h).2
  have hfinite : w.fitness = .finite fitness := by
    unfold finiteOr at hfitness
    split at hfitness
    · rename_i n heq
      rw [heq, Except.ok.inj hfitness]
    · exact nomatch hfitness
  have hcandidate : c.id = some id := encoded_ok hid
  rw [hbody]
  exact ⟨rfl, hcandidate, rfl, congrArg some hfinite.symm, rfl⟩

structure Verdict (c : Candidate) (r : EvalReport) (e : EvidenceEnvelope fm) : Prop where
  valid : e.evaluationValid = true
  candidate : c.id = some e.candidateId
  fitness : SameFitness r e
  fault : SameFault r e
  passed : r.passed = .bool true →
    (decideSearchUse e.toEvidenceBody).quarantine = !(decideSearchUse e.toEvidenceBody).selectable
  failed : r.passed ≠ .bool true → (decideSearchUse e.toEvidenceBody).selectable = false

theorem verdict_of_report {r : EvalReport} (h : g.envelopeFromReport c.id (some r) = .ok e) : Verdict c r e := by
  unfold GraderSetup.envelopeFromReport at h
  obtain ⟨w, hw, h⟩ := ok_of_bind h
  have hread := read_of_normalized hw
  dsimp only at h
  split at h
  · exact nomatch h
  rename_i hverdict
  obtain ⟨hvalid, hcandidate, hadmissible, hfitness, hfault⟩ := verdict_ok h
  have hsame := fault_of_read hread hverdict hfault
  refine ⟨hvalid, hcandidate, ?_, hsame, ?_, ?_⟩
  · obtain ⟨n, hn, hrn⟩ := hread.fitness
    rw [hn] at hfitness
    obtain ⟨m, hm, hmn⟩ := Option.map_eq_some_iff.mp hfitness
    exact ⟨n, by rw [hm, PyFloat.finite.inj hmn], hrn⟩
  · intro hpassed
    have hnone : e.faultKind = none := by
      obtain ⟨_, _, hnone⟩ | ⟨hfailed, _⟩ | ⟨_, hfailed, _⟩ := hsame
      · exact hnone
      · exact nomatch PyValue.bool.inj (hpassed.symm.trans hfailed)
      · exact nomatch PyValue.bool.inj (hpassed.symm.trans hfailed)
    have hadmitted : e.admissible = some true := by
      rw [hadmissible, ← hfault, hnone]
      rfl
    unfold decideSearchUse
    simp only [hvalid, hadmitted, hnone, reduceCtorEq, Bool.true_eq_false, ne_eq, not_true_eq_false, or_self, if_false]
    split
    · rfl
    · split <;> rfl
  · intro hfailed
    have hsome : e.faultKind ≠ none := by
      obtain ⟨hpassed, _⟩ | ⟨_, _, hkind⟩ | ⟨k, _, _, hkind⟩ := hsame
      · exact absurd hpassed hfailed
      · exact fun hnone => nomatch hkind.symm.trans hnone
      · exact fun hnone => nomatch hkind.symm.trans hnone
    unfold decideSearchUse
    simp only [hvalid, hsome, Bool.true_eq_false, ne_eq, not_false_eq_true, if_true, if_false]
    split
    · rfl
    · split <;> rfl

variable {sink : EvidenceEnvelope fm → Appended}

theorem not_evidenced_of_silent (raised : Raised) :
    ¬ Grading.Evidenced c ({ result := .error raised, candidate := c } : Grading fm EvalReport) := by
  intro h
  obtain hfailed | ⟨e, he, _⟩ := h.2
  · exact nomatch hfailed
  · exact nomatch he

theorem recordNoVerdict_evidenced (hkind : kind.noVerdict = true) (raised : Raised) :
    (g.recordNoVerdict sink c kind reason raised).Evidenced c ↔ g.Recordable c ∧ reason ≠ none := by
  unfold GraderSetup.recordNoVerdict
  cases henvelope : g.noVerdictEnvelope c.id kind reason with
  | error f =>
    refine iff_of_false (not_evidenced_of_silent _) fun h => ?_
    obtain ⟨e, he⟩ := exists_noVerdict hkind h.1 h.2
    exact nomatch henvelope.symm.trans he
  | ok e =>
    obtain ⟨hrecordable, hreason, hvalid, hcandidate⟩ := noVerdict_ok henvelope
    refine iff_of_true ?_ ⟨hrecordable, hreason⟩
    dsimp only
    unfold record
    cases hsink : sink e with
    | refused => exact ⟨fun e' he' => (nomatch he'), .inl rfl⟩
    | unsynced => exact ⟨fun e' he' => List.mem_singleton.mp he' ▸ hvalid, .inl rfl⟩
    | returned =>
      dsimp only
      split
      · exact ⟨fun e' he' => List.mem_singleton.mp he' ▸ hvalid, .inr ⟨e, rfl, hvalid, hcandidate⟩⟩
      · exact ⟨fun e' he' => List.mem_singleton.mp he' ▸ hvalid, .inr ⟨e, rfl, hvalid, hcandidate⟩⟩

theorem recorded_evidenced {r : EvalReport} (h : Verdict c r e) :
    ((record sink c e).andThen (.ok r)).Evidenced c ↔ sink e = .refused ∨ sink e = .returned ∧
      c.evidenceRefs ≠ .other ∧ ¬ (c.quarantined = true ∧ (decideSearchUse e.toEvidenceBody).selectable = true) := by
  unfold record
  cases hsink : sink e with
  | refused => exact iff_of_true ⟨fun e' he' => (nomatch he'), .inl rfl⟩ (.inl rfl)
  | unsynced =>
    refine iff_of_false ?_ (by simp)
    intro hevidenced
    exact nomatch h.valid.symm.trans (hevidenced.1 e (List.mem_singleton.mpr rfl))
  | returned =>
    dsimp only
    by_cases hrefs : c.evidenceRefs = .other
    · rw [if_pos hrefs]
      refine iff_of_false ?_ (by simp [hrefs])
      intro hevidenced
      exact nomatch h.valid.symm.trans (hevidenced.1 e (List.mem_singleton.mpr rfl))
    · rw [if_neg hrefs]
      have hflag : ∀ c', Candidate.passed c' r ↔ r.passed = .bool true ∧ c'.quarantined = false := fun _ => Iff.rfl
      constructor
      · intro hevidenced
        obtain ⟨e', he', _, _, _, _, _, hpassed⟩ := hevidenced
        obtain rfl := (List.cons.inj he').1
        refine .inr ⟨rfl, hrefs, fun hboth => ?_⟩
        have hflagged := (hpassed.mpr hboth.2).2
        dsimp only [Grading.andThen] at hflagged
        rw [hboth.1, Bool.or_true] at hflagged
        exact nomatch hflagged
      · intro hready
        obtain hrefused | ⟨_, _, hready⟩ := hready
        · exact nomatch hrefused
        refine ⟨e, rfl, rfl, h.valid, h.candidate, h.fitness, h.fault, ?_⟩
        rw [hflag]
        by_cases hpassed : r.passed = .bool true
        · have hquarantine := h.passed hpassed
          dsimp only [Grading.andThen]
          rw [hquarantine]
          cases hselectable : (decideSearchUse e.toEvidenceBody).selectable with
          | false => simp
          | true =>
            have hquiet : c.quarantined = false := by simpa [hselectable] using hready
            simp [hpassed, hquiet]
        · have hselectable := h.failed hpassed
          simp [hpassed, hselectable]

/-- There is no report without evidence, and no failed call without evidence of the failure,
exactly as long as the call is orderly. -/
theorem evidenced_iff (g : GraderSetup fm) (sink : EvidenceEnvelope fm → Appended) (c : Candidate) (b : Behaviour) :
    (g.grade sink c b).Evidenced c ↔ g.Orderly sink c b := by
  cases b with
  | infraError message => exact recordNoVerdict_evidenced rfl _
  | raised typeName message =>
    refine (recordNoVerdict_evidenced rfl _).trans ?_
    unfold raisedText GraderSetup.Orderly
    rw [Ne, Option.map_eq_none_iff]
  | sinkError =>
    exact iff_of_false (not_evidenced_of_silent _) id
  | fatal =>
    exact iff_of_false (not_evidenced_of_silent _) id
  | returned report =>
    have hgrade : g.grade sink c (.returned report) = match g.envelopeFromReport c.id report, report with
      | .ok e, some r => (record sink c e).andThen (.ok r)
      | .ok e, none => (record sink c e).andThen (.error .inner)
      | .error f, _ =>
        if f.caught then
          g.recordNoVerdict sink c .protocolError (some (f.typeName ++ ": ".toList ++ f.message))
            (.protocolError f.message)
        else { result := .error (.fault f), candidate := c } := rfl
    cases henvelope : g.envelopeFromReport c.id report with
    | error f =>
      rw [henvelope] at hgrade
      dsimp only at hgrade
      by_cases hcaught : f.caught = true
      · rw [hgrade, if_pos hcaught]
        refine (recordNoVerdict_evidenced (show FaultKind.protocolError.noVerdict = true from rfl) _).trans ?_
        constructor
        · intro h
          exact ⟨fun f' hf' => ⟨Except.error.inj (henvelope.symm.trans hf') ▸ hcaught, h.1⟩,
            fun e he => nomatch henvelope.symm.trans he⟩
        · intro h
          exact ⟨(h.1 f henvelope).2, Option.some_ne_none _⟩
      · rw [hgrade, if_neg hcaught]
        exact iff_of_false (not_evidenced_of_silent _) fun h => hcaught (h.1 f henvelope).1
    | ok e =>
      cases report with
      | none => exact nomatch henvelope
      | some r =>
        rw [henvelope] at hgrade
        dsimp only at hgrade
        rw [hgrade]
        refine (recorded_evidenced (verdict_of_report henvelope)).trans ?_
        constructor
        · intro h
          refine ⟨fun f hf => (nomatch henvelope.symm.trans hf), fun e' he' => ?_⟩
          rw [← Except.ok.inj (henvelope.symm.trans he')]
          exact h
        · intro h
          exact h.2 e henvelope

def shortFloats : EvidenceFormats where
  float n := if n.text.length < 309 then some n else none
  hash t := 'h' :: t.take 63
  float_float n m h := by
    split at h
    · rename_i hlength
      rw [← Option.some.inj h]
      exact if_pos hlength
    · exact nomatch h
  hash_real t := ⟨List.cons_ne_nil _ _, fun h => absurd (List.cons.inj h).1 (by decide)⟩
  float_zero := by decide

theorem oneUnit_nonempty : ∀ t ∈ ["c".toList, "m".toList, "e".toList, "u".toList], strip t ≠ [] := by decide

def oneUnit : GraderSetup shortFloats where
  py := ⟨fun _ => .ok [], 1000⟩
  scoreNamespace := ⟨"c".toList, "m".toList, "e".toList, "u".toList, oneUnit_nonempty⟩
  plannedUnits := 1

theorem float_long {n : ℕ} (h : ¬ (Numeral.ofNat n).text.length < 309) : shortFloats.float (.ofInt n) = none := if_neg h

def googols : ℕ := 10 ^ 400

theorem googols_long : ¬ (Numeral.ofNat googols).text.length < 309 := by decide +kernel

/-- Neither `TypeError` nor `ValueError`: the exception leaves the call, and nothing is stored. -/
theorem unrecorded_overflow {z : ℤ} (hz : fm.float (.ofInt z) = none) :
    ¬ Grading.Evidenced c (g.grade sink c (.returned (some { fitness := .int z, passed := .bool true }))) := by
  have hread : EvalReport.fromJson fm { fitness := .int z, passed := .bool true } = .error .overflowError := by
    unfold EvalReport.fromJson wireNumber
    dsimp only
    rw [hz]
    rfl
  have henvelope : g.envelopeFromReport c.id (some { fitness := .int z, passed := .bool true }) =
      .error .overflowError := by
    unfold GraderSetup.envelopeFromReport normalizedReport
    dsimp only
    rw [hread]
    rfl
  unfold GraderSetup.grade
  dsimp only
  rw [henvelope]
  exact not_evidenced_of_silent _

theorem unrecorded_googols : ¬ Grading.Evidenced ⟨some "a1".toList, .absent, false⟩
    (oneUnit.grade (fun _ => .returned) ⟨some "a1".toList, .absent, false⟩
      (.returned (some { fitness := .int googols, passed := .bool true }))) :=
  unrecorded_overflow (float_long googols_long)

end EvoHarness.Evaluation
