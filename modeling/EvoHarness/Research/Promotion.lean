import EvoHarness.Research.Assessment
import EvoHarness.Library.Hoare

/-! When the champion changes: the promotion policy over a reference store that several
processes write. -/
namespace EvoHarness.Research
open PyText Runs

structure PromotionPolicy where
  guard : AssessmentGuard
  margin : ℚ := 0
  requireNoRegression : Bool := false
  policyHash : Text

inductive PromotionAction where
  | promote
  | reject
  | hold
deriving DecidableEq

structure PromotionDecision where
  action : PromotionAction
  reasons : List Text
  assessments : List ClaimAssessment
  policyHash : Text
deriving DecidableEq

inductive Weighed where
  | decided (d : PromotionDecision)
  | promoting (record : ReferenceRecord) (expectedCurrent : Option Text)

namespace PromotionPolicy
variable (fm : Formats) (p : PromotionPolicy)

def record (subject : EvidenceEnvelope) (reasons : List Text) : ReferenceRecord where
  candidateId := subject.candidateId
  evidenceId := subject.evidenceId
  scoreNamespace := subject.scoreNamespace
  fitness := subject.fitness
  policyHash := p.policyHash
  assessorHash := p.guard.assessorHash
  reasons := reasons
  promotedAt := 0

def bootstrap (subject : EvidenceEnvelope) : Except Fault Weighed := do
  let claim ← Claim.make .candidateValid subject.candidateId [] 0
  let assessment ← p.guard.assess fm claim subject
  if assessment.status ≠ .supported then
    return .decided ⟨.hold, assessment.reasons, [assessment], p.policyHash⟩
  return .promoting (p.record subject ["bootstrap: first valid reference".toList]) none

def claims (subject reference : EvidenceEnvelope) : Except Fault (List Claim) := do
  let better ← Claim.make .betterThanReference subject.candidateId reference.candidateId p.margin
  if p.requireNoRegression then
    let noRegression ← Claim.make .noRegression subject.candidateId reference.candidateId 0
    return [better, noRegression]
  return [better]

def reasonsOf (status : Verdict) (assessments : List ClaimAssessment) : List Text :=
  (assessments.filter (·.status = status)).flatMap (·.reasons)

def weigh (current : ReferenceRecord) (subject reference : EvidenceEnvelope) : Except Fault Weighed := do
  let claims ← p.claims subject reference
  let assessments ← claims.mapM fun claim => p.guard.assess fm claim subject (some reference)
  if assessments.any (·.status = .contradicted) then
    return .decided ⟨.reject, reasonsOf .contradicted assessments, assessments, p.policyHash⟩
  if assessments.any (·.status = .unknown) then
    return .decided ⟨.hold, reasonsOf .unknown assessments, assessments, p.policyHash⟩
  return .promoting (p.record subject (assessments.flatMap (·.reasons))) (some current.candidateId)

/-- `consider` with the current record it reads, up to its call of `promote`. -/
def consider (current : Option ReferenceRecord) (subject : EvidenceEnvelope)
    (reference : Option EvidenceEnvelope) : Except Fault Weighed :=
  match current, reference with
  | none, _ => p.bootstrap fm subject
  | some _, none => .ok (.decided
      ⟨.hold, ["reference evidence unavailable — re-evaluate".toList], [], p.policyHash⟩)
  | some r, some e => p.weigh fm r subject e

end PromotionPolicy

structure Basis where
  policy : PromotionPolicy
  subject : EvidenceEnvelope
  reference : Option EvidenceEnvelope

/-- The current record is replaced, with the `consider` it happens through, if it does. -/
structure Change where
  before : Option ReferenceRecord
  after : ReferenceRecord
  basis : Option Basis

structure Audit (ω κ : Type) extends Net ω κ where
  basis : ω → Option Basis := fun _ => none
  changes : List Change := []

inductive Move where
  | consider (b : Basis)
  | act (a : Action)

variable {ω κ : Type} [DecidableEq ω] [DecidableEq κ]

def changeOf (A : Audit ω κ) : ω × Action → Option Change
  | (w, .replace now) =>
    match A.phase w with
    | .writing _ _ row => some ⟨A.files.current, (row.stamped now).record, A.basis w⟩
    | _ => none
  | _ => none

def basisAfter (A : Audit ω κ) : ω × Action → ω → Option Basis
  | (w, .call _) => Function.update A.basis w none
  | _ => A.basis

def audit (fm : Formats) (object : ω → κ) (A : Audit ω κ) : ω × Move → Option (Audit ω κ)
  | (w, .consider b) =>
    match A.phase w with
    | .idle =>
      match b.policy.consider fm A.files.current b.subject b.reference with
      | .ok (.promoting record expected) =>
        some { toNet := A.toNet.goto w (.called (.promote record expected))
               basis := Function.update A.basis w (some b)
               changes := A.changes }
      | _ => some A
    | _ => none
  | (w, .act a) =>
    (step object A.toNet (w, a)).map fun net =>
      { toNet := net, basis := basisAfter A (w, a), changes := A.changes ++ (changeOf A (w, a)).toList }

/-- The assessment behind a change compared the new record's evidence with evidence about the
old one in its namespace; with exact scores the new one is better beyond margin and noise. -/
structure Basis.Shows (fm : Formats) (b : Basis) (r s : ReferenceRecord) : Prop where
  candidate : s.candidateId = b.subject.candidateId
  evidence : s.evidenceId = b.subject.evidenceId
  scored : s.fitness = b.subject.fitness ∧ s.scoreNamespace = b.subject.scoreNamespace
  compared : ∃ e, b.reference = some e ∧ e.candidateId = r.candidateId ∧
    e.scoreNamespace = r.scoreNamespace ∧
    (∃ claim a, claim.kind = .betterThanReference ∧ claim.margin = b.policy.margin ∧
      b.policy.guard.assess fm claim b.subject (some e) = .ok a ∧ a.status = .supported) ∧
    (e.fitness = r.fitness → ∃ x y, r.fitness = some x ∧ s.fitness = some y ∧
      b.policy.margin + b.policy.guard.noiseFloor fm b.subject e < b.policy.guard.advantage y x ∧
      0 < b.policy.guard.advantage y x)

def Change.Shown (fm : Formats) (c : Change) : Prop :=
  ∀ b r, c.basis = some b → c.before = some r → b.Shows fm r c.after

def Successive : Option ReferenceRecord → List Change → Prop
  | _, [] => True
  | r, c :: rest => c.before = r ∧ Successive (some c.after) rest

structure Audit.Champions (fm : Formats) (A : Audit ω κ) : Prop where
  shown : ∀ c ∈ A.changes, c.Shown fm
  successive : Successive none A.changes
  recorded : A.Quiet → A.files.history.map (·.record) = A.changes.map (·.after)

/-- A `consider` that promotes was given evidence about the current record; and the store's writes are
orderly, each over the record, in the namespace, that the call has read. -/
def careful (fm : Formats) (A : Audit ω κ) : ω × Move → Bool
  | (_, .consider b) =>
    match b.policy.consider fm A.files.current b.subject b.reference with
    | .ok (.promoting _ expected) => expected = none ∨ b.reference.map (·.candidateId) = expected
    | _ => true
  | (w, .act (.replace now)) =>
    match A.phase w with
    | .writing _ seen _ => orderly A.toNet (w, .replace now) &&
        A.files.current.map (·.scoreNamespace) = seen.map (·.scoreNamespace)
    | _ => true
  | (w, .act a) => orderly A.toNet (w, a)

inductive Follows (current : Option ReferenceRecord) : Phase → Action → Phase → Prop
  | ended {ph : Phase} {a : Action} : Follows current ph a .idle
  | called {c : Call} : Follows current .idle (.call c) (.called c)
  | entered {c : Call} : Follows current (.called c) .enter (.reading c)
  | read {c : Call} {row : HistoryRow} (h : c.check current = .ok row) :
      Follows current (.reading c) .read (.writing c current row)

variable {object : ω → κ} {net t : Net ω κ} {w v : ω}

theorem step_other {a : Action} (h : step object net (w, a) = some t) (hv : v ≠ w) :
    t.phase v = net.phase v := by
  cases a with
  | die =>
    obtain rfl := Option.some.inj h
    exact Function.update_of_ne hv _ _
  | _ =>
    simp only [step] at h
    repeat' split at h
    all_goals simp only [Option.some.injEq, reduceCtorEq] at h
    all_goals subst h
    all_goals first
      | rfl
      | exact Function.update_of_ne hv _ _

theorem step_follows {a : Action} (h : step object net (w, a) = some t) (ha : ∀ now, a ≠ .replace now) :
    t.written = net.written ∧ t.files.current = net.files.current ∧
      Follows net.files.current (net.phase w) a (t.phase w) := by
  have hself : ∀ ph, Function.update net.phase w ph w = ph := fun ph => Function.update_self ..
  cases a with
  | replace now => exact absurd rfl (ha now)
  | call c =>
    simp only [step] at h
    split at h
    · next hph =>
      obtain rfl := Option.some.inj h
      refine ⟨rfl, rfl, ?_⟩
      simp only [Net.raise, hph]
      exact .ended
    · next hph hc =>
      obtain rfl := Option.some.inj h
      refine ⟨rfl, rfl, ?_⟩
      simp only [Net.goto, hself, hph]
      exact .called
    · simp at h
  | enter =>
    simp only [step] at h
    split at h
    · next c hph =>
      split at h
      · simp at h
      · obtain rfl := Option.some.inj h
        refine ⟨rfl, rfl, ?_⟩
        simp only [Net.goto, hself, hph]
        exact .entered
    · simp at h
  | read =>
    simp only [step] at h
    split at h
    · next c hph =>
      split at h
      · next row hcheck =>
        obtain rfl := Option.some.inj h
        refine ⟨rfl, rfl, ?_⟩
        simp only [Net.goto, hself, hph]
        exact .read hcheck
      · obtain rfl := Option.some.inj h
        refine ⟨rfl, rfl, ?_⟩
        simp only [Net.leave, Net.goto, Net.raise, hself]
        exact .ended
    · simp at h
  | die =>
    obtain rfl := Option.some.inj h
    refine ⟨rfl, rfl, ?_⟩
    simp only [Net.leave, Net.goto, hself]
    exact .ended
  | _ =>
    simp only [step] at h
    repeat' split at h
    all_goals simp only [Option.some.injEq, reduceCtorEq] at h
    all_goals subst h
    all_goals refine ⟨rfl, rfl, ?_⟩
    all_goals simp only [Net.leave, Net.goto, Net.raise, Net.appendRow, hself]
    all_goals exact .ended

theorem step_replace {now : ℚ} (h : step object net (w, .replace now) = some t) :
    ∃ c seen row, net.phase w = .writing c seen row ∧ t.phase w = .appending c (row.stamped now) ∧
      t.written = net.written ++ [row.stamped now] ∧ t.files.current = some (row.stamped now).record := by
  simp only [step] at h
  split at h
  · next c seen row hph =>
    obtain rfl := Option.some.inj h
    exact ⟨c, seen, row, hph, Function.update_self .., rfl, rfl⟩
  · simp at h

/-- The record is the subject's, and what it is expected to follow is what its evidence beat. -/
structure Basis.Prepares (fm : Formats) (b : Basis) (record : ReferenceRecord) (expected : Option Text) :
    Prop where
  record : ∃ reasons, record = b.policy.record b.subject reasons
  beaten : expected = none ∨ ∃ e claim a, b.reference = some e ∧ some e.candidateId = expected ∧
    claim.kind = .betterThanReference ∧ claim.margin = b.policy.margin ∧
    b.policy.guard.assess fm claim b.subject (some e) = .ok a ∧ a.status = .supported

variable {fm : Formats} {p : PromotionPolicy}

theorem claim_make {kind : ClaimKind} {subjectId referenceId : Text} {margin : ℚ} {claim : Claim}
    (h : Claim.make kind subjectId referenceId margin = .ok claim) :
    claim.kind = kind ∧ claim.margin = margin := by
  unfold Claim.make at h
  split at h
  · simp at h
  · split at h
    · simp at h
    · split at h
      · simp at h
      · obtain rfl := Except.ok.inj h
        exact ⟨rfl, rfl⟩

theorem weigh_promoting {current : ReferenceRecord} {subject e : EvidenceEnvelope} {record : ReferenceRecord}
    {expected : Option Text} (h : p.weigh fm current subject e = .ok (.promoting record expected)) :
    (∃ reasons, record = p.record subject reasons) ∧ ∃ claim a, claim.kind = .betterThanReference ∧
      claim.margin = p.margin ∧ p.guard.assess fm claim subject (some e) = .ok a ∧ a.status = .supported := by
  unfold PromotionPolicy.weigh at h
  obtain ⟨claims, hclaims, h⟩ := Hoare.ok_of_bind h
  obtain ⟨assessments, hassess, h⟩ := Hoare.ok_of_bind h
  unfold PromotionPolicy.claims at hclaims
  obtain ⟨better, hbetter, hclaims⟩ := Hoare.ok_of_bind hclaims
  obtain ⟨hkind, hmargin⟩ := claim_make hbetter
  obtain ⟨rest, rfl⟩ : ∃ rest, claims = better :: rest := by
    split at hclaims
    · obtain ⟨noRegression, _, hclaims⟩ := Hoare.ok_of_bind hclaims
      exact ⟨[noRegression], (Except.ok.inj hclaims).symm⟩
    · exact ⟨[], (Except.ok.inj hclaims).symm⟩
  rw [List.mapM_cons] at hassess
  obtain ⟨a, ha, hassess⟩ := Hoare.ok_of_bind hassess
  obtain ⟨as, _, hassess⟩ := Hoare.ok_of_bind hassess
  obtain rfl : a :: as = assessments := Except.ok.inj hassess
  split at h
  · simp [pure, Except.pure] at h
  · next hcontra =>
    split at h
    · simp [pure, Except.pure] at h
    · next hunknown =>
      simp only [pure, Except.pure, Except.ok.injEq, Weighed.promoting.injEq] at h
      refine ⟨⟨_, h.1.symm⟩, better, a, hkind, hmargin, ha, ?_⟩
      -- neither contradicted nor unknown
      cases hs : a.status with
      | supported => rfl
      | contradicted => simp [hs] at hcontra
      | unknown => simp [hs] at hunknown

theorem consider_promoting {b : Basis} {current : Option ReferenceRecord} {record : ReferenceRecord}
    {expected : Option Text}
    (h : b.policy.consider fm current b.subject b.reference = .ok (.promoting record expected))
    (hcare : expected = none ∨ b.reference.map (·.candidateId) = expected) : b.Prepares fm record expected := by
  cases current with
  | none =>
    unfold PromotionPolicy.consider PromotionPolicy.bootstrap at h
    obtain ⟨claim, _, h⟩ := Hoare.ok_of_bind h
    obtain ⟨assessment, _, h⟩ := Hoare.ok_of_bind h
    split at h
    · simp [pure, Except.pure] at h
    · simp only [pure, Except.pure, Except.ok.injEq, Weighed.promoting.injEq] at h
      exact ⟨⟨_, h.1.symm⟩, Or.inl h.2.symm⟩
  | some r =>
    cases he : b.reference with
    | none =>
      rw [he] at h
      simp [PromotionPolicy.consider] at h
    | some e =>
      rw [he] at h hcare
      obtain ⟨hrecord, claim, a, hkind, hmargin, hassess, hstatus⟩ := weigh_promoting h
      refine ⟨hrecord, ?_⟩
      cases hcare with
      | inl hnone => exact Or.inl hnone
      | inr hsome => exact Or.inr ⟨e, claim, a, he, hsome, hkind, hmargin, hassess, hstatus⟩

def Backed (fm : Formats) (b : Basis) : Phase → Prop
  | .called c | .reading c => ∃ record expected, c = .promote record expected ∧ b.Prepares fm record expected
  | .writing c seen row => ∃ record expected, c = .promote record expected ∧
      b.Prepares fm record expected ∧ c.check seen = .ok row
  | _ => True

theorem Backed.follows {b : Basis} {current : Option ReferenceRecord} {ph ph' : Phase} {a : Action}
    (h : Backed fm b ph) (hf : Follows current ph a ph') (ha : ∀ c, a ≠ .call c) : Backed fm b ph' := by
  cases hf with
  | ended => trivial
  | called => exact absurd rfl (ha _)
  | entered => exact h
  | read hcheck =>
    obtain ⟨record, expected, hc, hprep⟩ := h
    exact ⟨record, expected, hc, hprep, hcheck⟩

theorem promote_check {record : ReferenceRecord} {expected : Option Text} {seen : Option ReferenceRecord}
    {row : HistoryRow} (h : (Call.promote record expected).check seen = .ok row) :
    candidateOf seen = expected ∧ row.record = { record with previousCandidateId := candidateOf seen } ∧
      ∀ r, seen = some r → r.scoreNamespace = record.scoreNamespace := by
  simp only [Call.check] at h
  split at h
  · simp at h
  · next hexpected =>
    refine ⟨not_not.mp hexpected, ?_⟩
    cases seen with
    | none =>
      obtain rfl := Except.ok.inj h
      exact ⟨rfl, fun r hr => by simp at hr⟩
    | some r =>
      simp only at h
      split at h
      · next hspace =>
        obtain rfl := Except.ok.inj h
        refine ⟨rfl, fun r' hr => ?_⟩
        obtain rfl := Option.some.inj hr
        unfold ScoreNamespace.requireComparable at hspace
        split at hspace
        · assumption
        · simp at hspace
      · simp at h

theorem supported_better {g : AssessmentGuard} {claim : Claim} {subject e : EvidenceEnvelope} {a : ClaimAssessment}
    (hkind : claim.kind = .betterThanReference) (h : g.assess fm claim subject (some e) = .ok a)
    (hs : a.status = .supported) :
    subject.scoreNamespace = e.scoreNamespace ∧ ∃ x y, e.fitness = some x ∧ subject.fitness = some y ∧
      claim.margin + g.noiseFloor fm subject e < g.advantage y x := by
  unfold AssessmentGuard.assess at h
  split at h
  · simp at h
  · simp only [hkind, ClaimKind.comparative, if_true] at h
    split at h
    · simp at h
    · split at h
      · simp at h
      · next hspace =>
        obtain rfl := Except.ok.inj h
        have hsame : subject.scoreNamespace = e.scoreNamespace := by
          unfold ScoreNamespace.requireComparable at hspace
          split at hspace
          · assumption
          · simp at hspace
        refine ⟨hsame, ?_⟩
        simp only [AssessmentGuard.result, AssessmentGuard.rule, hkind, AssessmentGuard.betterThanReference] at hs
        split at hs
        · simp at hs
        · next htrust =>
          split at hs
          · simp at hs
          · split at hs
            · next hbetter =>
              simp only [trustworthy, Bool.not_eq_true', Bool.not_eq_false, Bool.and_eq_true,
                Option.isSome_iff_exists] at htrust
              obtain ⟨⟨_, y, hy⟩, ⟨_, x, hx⟩⟩ := htrust
              refine ⟨x, y, hx, hy, ?_⟩
              simpa [AssessmentGuard.advantageOf, hx, hy] using hbetter
            · split at hs <;> simp at hs

theorem noiseFloor_nonneg (g : AssessmentGuard) (subject e : EvidenceEnvelope) :
    0 ≤ g.noiseFloor fm subject e := mul_nonneg g.z_nonneg (fm.sqrt_nonneg _)

theorem Basis.Prepares.shows {b : Basis} {record r : ReferenceRecord}
    (h : b.Prepares fm record (some r.candidateId)) (now : ℚ) (previous : Option Text)
    (hspace : r.scoreNamespace = record.scoreNamespace) :
    b.Shows fm r ({ record := { record with previousCandidateId := previous } : HistoryRow }.stamped now).record := by
  obtain ⟨reasons, rfl⟩ := h.record
  refine ⟨rfl, rfl, ⟨rfl, rfl⟩, ?_⟩
  cases h.beaten with
  | inl hnone => simp at hnone
  | inr hsome =>
    obtain ⟨e, claim, a, he, hid, hkind, hmargin, hassess, hstatus⟩ := hsome
    obtain ⟨hsame, x, y, hx, hy, hbeats⟩ := supported_better hkind hassess hstatus
    refine ⟨e, he, Option.some.inj hid, hsame.symm.trans hspace.symm, ⟨claim, a, hkind, hmargin, hassess, hstatus⟩, ?_⟩
    intro hexact
    have hfloor : 0 ≤ b.policy.guard.noiseFloor fm b.subject e := noiseFloor_nonneg _ _ _
    have hnonneg := claim.margin_nonneg
    rw [hmargin] at hbeats hnonneg
    exact ⟨x, y, hexact.symm.trans hx, hy, hbeats, by linarith⟩

structure InvA (fm : Formats) (A : Audit ω κ) : Prop where
  base : Inv A.toNet
  backed : ∀ w b, A.basis w = some b → Backed fm b (A.phase w)
  shown : ∀ c ∈ A.changes, c.Shown fm
  successive : Successive none A.changes
  written : A.written.map (·.record) = A.changes.map (·.after)

theorem successive_snoc {r : Option ReferenceRecord} {cs : List Change} {c : Change} :
    Successive r (cs ++ [c]) ↔ Successive r cs ∧ c.before = (cs.getLast?.map (·.after)).or r := by
  induction cs generalizing r with
  | nil => simp [Successive]
  | cons first rest ih =>
    simp only [List.cons_append, Successive, ih, and_assoc, and_congr_right_iff]
    intro _ _
    cases rest with
    | nil => simp
    | cons second rest =>
      have hlast : (second :: rest).getLast? = some ((second :: rest).getLast (by simp)) :=
        List.getLast?_eq_some_getLast (by simp)
      rw [List.getLast?_cons_cons, hlast]
      rfl

omit [DecidableEq ω] [DecidableEq κ] in
theorem InvA.current {A : Audit ω κ} (h : InvA fm A) :
    A.files.current = A.changes.getLast?.map (·.after) := by
  have hlast : A.written.getLast?.map (·.record) = A.files.current := h.base.told.last
  rw [← hlast, ← List.getLast?_map, ← List.getLast?_map, h.written]

omit [DecidableEq ω] [DecidableEq κ] in
theorem InvA.champions {A : Audit ω κ} (h : InvA fm A) : A.Champions fm := by
  refine ⟨h.shown, h.successive, fun hquiet => ?_⟩
  rw [h.base.history_of_quiet hquiet, h.written]

omit [DecidableEq κ] in
theorem careful_orderly {A : Audit ω κ} {a : Action} (h : careful fm A (w, .act a) = true) :
    orderly A.toNet (w, a) = true := by
  cases a with
  | replace now =>
    simp only [careful] at h
    split at h
    · simp only [Bool.and_eq_true] at h
      exact h.1
    · next hph => simp only [orderly]
  | _ => exact h

theorem invA_replace {A : Audit ω κ} {now : ℚ} (h : InvA fm A)
    (hok : careful fm A (w, .act (.replace now)) = true) (ht : step object A.toNet (w, .replace now) = some t) :
    InvA fm { toNet := t, basis := A.basis, changes := A.changes ++ (changeOf A (w, .replace now)).toList } := by
  obtain ⟨c, seen, row, hph, hph', hwritten, hcurrent⟩ := step_replace ht
  simp only [careful, hph, Bool.and_eq_true, decide_eq_true_eq] at hok
  obtain ⟨horderly, hspaces⟩ := hok
  have hcandidates : candidateOf A.files.current = candidateOf seen := by
    simpa only [orderly, hph, decide_eq_true_eq] using horderly
  simp only [changeOf, hph, Option.toList_some]
  refine ⟨inv_step A.toNet (w, .replace now) t h.base horderly ht, fun v b hb => ?_, ?_, ?_, ?_⟩
  · by_cases hv : v = w
    · subst hv
      simp only [hph', Backed]
    · simp only [step_other ht hv]
      exact h.backed v b hb
  · intro ch hch
    cases List.mem_append.mp hch with
    | inl hch => exact h.shown ch hch
    | inr hch =>
      obtain rfl := List.mem_singleton.mp hch
      intro b r hb hr
      simp only at hb hr
      have hbacked := h.backed w b hb
      rw [hph] at hbacked
      obtain ⟨record, expected, rfl, hprep, hcheck⟩ := hbacked
      obtain ⟨hexpected, hrow, hspace⟩ := promote_check hcheck
      obtain rfl : expected = some r.candidateId := by
        rw [← hexpected, ← hcandidates, hr]
        rfl
      have hsame : r.scoreNamespace = record.scoreNamespace := by
        cases seen with
        | none => simp [candidateOf] at hexpected
        | some r' =>
          rw [hr] at hspaces
          simp only [Option.map_some, Option.some.injEq] at hspaces
          rw [hspaces]
          exact hspace r' rfl
      have hshows := hprep.shows now (candidateOf seen) hsame
      rw [← hrow] at hshows
      exact hshows
  · exact successive_snoc.mpr ⟨h.successive, by simpa using h.current⟩
  · simp [hwritten, h.written]

theorem invA_act {A : Audit ω κ} {a : Action} (h : InvA fm A) (hok : careful fm A (w, .act a) = true)
    (ht : step object A.toNet (w, a) = some t) (ha : ∀ now, a ≠ .replace now) :
    InvA fm { toNet := t, basis := basisAfter A (w, a), changes := A.changes ++ (changeOf A (w, a)).toList } := by
  obtain ⟨hwritten, hcurrent, hfollows⟩ := step_follows ht ha
  have hnone : changeOf A (w, a) = none := by
    cases a with
    | replace now => exact absurd rfl (ha now)
    | _ => rfl
  rw [hnone, Option.toList_none, List.append_nil]
  refine ⟨inv_step A.toNet (w, a) t h.base (careful_orderly hok) ht, fun v b hb => ?_, h.shown, h.successive, ?_⟩
  · by_cases hv : v = w
    · subst hv
      by_cases hcall : ∃ c, a = .call c
      · obtain ⟨c, rfl⟩ := hcall
        simp [basisAfter] at hb
      · have hb' : A.basis v = some b := by
          cases a with
          | call c => exact absurd ⟨c, rfl⟩ hcall
          | _ => exact hb
        exact (h.backed v b hb').follows hfollows fun c hc => hcall ⟨c, hc⟩
    · have hb' : A.basis v = some b := by
        cases a with
        | call c => simpa [basisAfter, Function.update_of_ne hv] using hb
        | _ => exact hb
      simp only [step_other ht hv]
      exact h.backed v b hb'
  · simpa only [hwritten] using h.written

omit [DecidableEq κ] in
theorem invA_consider {A : Audit ω κ} {b : Basis} {record : ReferenceRecord} {expected : Option Text} (h : InvA fm A)
    (hph : A.phase w = .idle) (hprep : b.Prepares fm record expected) :
    InvA fm { toNet := A.toNet.goto w (.called (.promote record expected))
              basis := Function.update A.basis w (some b)
              changes := A.changes } := by
  refine ⟨h.base.move (by rw [hph]; rfl) rfl trivial h.base.clean, fun v b' hb => ?_, h.shown, h.successive, h.written⟩
  by_cases hv : v = w
  · subst hv
    simp only [Function.update_self, Option.some.injEq] at hb
    subst hb
    simp only [Net.goto, Function.update_self]
    exact ⟨record, expected, rfl, hprep⟩
  · simp only [Function.update_of_ne hv] at hb
    simp only [Net.goto, Function.update_of_ne hv]
    exact h.backed v b' hb

theorem invA_step (A : Audit ω κ) (l : ω × Move) (B : Audit ω κ) (h : InvA fm A)
    (hok : careful fm A l = true) (ht : audit fm object A l = some B) : InvA fm B := by
  obtain ⟨w, m⟩ := l
  cases m with
  | consider b =>
    simp only [audit] at ht
    split at ht
    · next hph =>
      split at ht
      · next record expected hconsider =>
        obtain rfl := Option.some.inj ht
        simp only [careful, hconsider, decide_eq_true_eq] at hok
        exact invA_consider h hph (consider_promoting hconsider hok)
      · obtain rfl := Option.some.inj ht
        exact h
    · simp at ht
  | act a =>
    obtain ⟨t, hstep, rfl⟩ := Option.map_eq_some_iff.mp ht
    by_cases ha : ∃ now, a = .replace now
    · obtain ⟨now, rfl⟩ := ha
      exact invA_replace h hok hstep
    · exact invA_act h hok hstep fun now hnow => ha ⟨now, hnow⟩

/-- On every careful run each new champion was compared with the one it replaces. -/
theorem champions_of_careful (fm : Formats) (object : ω → κ) (ls : List (ω × Move))
    (h : Meets (audit fm object) (fun A l => careful fm A l) {} ls) :
    Everywhere (audit fm object) (Audit.Champions fm) {} ls := by
  have hstart : InvA fm ({} : Audit ω κ) :=
    ⟨inv_start, fun _ _ hb => by simp at hb, fun _ hc => by simp at hc, trivial, rfl⟩
  exact (everywhere_of_meets invA_step hstart h).mono fun _ => InvA.champions

def plainFormats : Formats where
  sqrt _ := 0
  sqrt_nonneg _ := le_refl 0
  claimHash c := c.subjectId
  g4 _ := []
  str _ := []
  reprs := List.flatten

def maximizing : AssessmentGuard where
  assessorHash := []
  z_nonneg := zero_le_one

def simplePolicy : PromotionPolicy where
  guard := maximizing
  policyHash := []

def fullCoverage : Coverage where
  plannedUnits := 1
  executedUnits := 1
  trustworthyUnits := 1
  trustworthy_le := le_refl 1
  executed_le _ := le_refl 1

def evidenceOf (c : Char) (fitness : ℚ) (h : strip [c] ≠ []) : EvidenceEnvelope where
  evidenceId := [c]
  candidateId := [c]
  scoreNamespace := exactNamespace
  evaluationValid := true
  admissible := some true
  fitness := some fitness
  coverage := fullCoverage
  candidate_nonempty := h
  valid_admissible := rfl
  valid_fitness := rfl
  judged_valid h := (h rfl).elim
  met_complete h := by simp at h

def evidenceA : EvidenceEnvelope := evidenceOf 'a' 5 (by decide)
def evidenceB : EvidenceEnvelope := evidenceOf 'b' 2 (by decide)
def evidenceC : EvidenceEnvelope := evidenceOf 'c' 7 (by decide)
def evidenceZ : EvidenceEnvelope := evidenceOf 'z' 1 (by decide)

def basisOf (subject : EvidenceEnvelope) (reference : Option EvidenceEnvelope) : Basis :=
  { policy := simplePolicy, subject, reference }

def succession : List (Bool × Move) :=
  [(false, .consider (basisOf evidenceA none)), (false, .act .enter), (false, .act .read),
    (false, .act (.replace 1)), (false, .act (.append .done)),
    (false, .consider (basisOf evidenceB (some evidenceA))), (true, .consider (basisOf evidenceC (some evidenceA))),
    (true, .act .enter), (true, .act .read), (true, .act (.replace 2)), (true, .act (.append .done))]

theorem champions_of_careful_succession :
    Everywhere (audit plainFormats (id : Bool → Bool)) (Audit.Champions plainFormats) {} succession :=
  champions_of_careful plainFormats id succession (meets_of_check (by decide +kernel))

def staleEvidence : List (Unit × Move) :=
  [((), .consider (basisOf evidenceA none)), ((), .act .enter), ((), .act .read), ((), .act (.replace 1)),
    ((), .act (.append .done)), ((), .consider (basisOf evidenceB (some evidenceZ))), ((), .act .enter),
    ((), .act .read), ((), .act (.replace 2)), ((), .act (.append .done))]

theorem stale_evidence_dethrones :
    ¬ Everywhere (audit plainFormats (id : Unit → Unit)) (Audit.Champions plainFormats) {} staleEvidence := by
  intro h
  obtain ⟨A, hA, hend⟩ : ∃ A, run (audit plainFormats (id : Unit → Unit)) {} staleEvidence = some A ∧
      A.changes.map (fun c => (c.before.map (·.candidateId), c.basis.map fun b => b.reference.map (·.candidateId))) =
        [(none, some none), (some ['a'], some (some ['z']))] := by
    have hrun : (run (audit plainFormats (id : Unit → Unit)) {} staleEvidence).map (fun A => A.changes.map
        fun c => (c.before.map (·.candidateId), c.basis.map fun b => b.reference.map (·.candidateId))) =
          some [(none, some none), (some ['a'], some (some ['z']))] := by
      decide +kernel
    exact Option.map_eq_some_iff.mp hrun
  obtain ⟨c, hc, hpair⟩ := List.mem_map.mp (show (some ['a'], some (some ['z'])) ∈ A.changes.map _ by
    rw [hend]
    simp)
  simp only [Prod.mk.injEq, Option.map_eq_some_iff] at hpair
  obtain ⟨⟨r, hr, hra⟩, b, hb, e, he, hez⟩ := hpair
  obtain ⟨e', he', hid, _⟩ := ((everywhere_last h hA).shown c hc b r hb hr).compared
  rw [he] at he'
  obtain rfl := Option.some.inj he'
  rw [hez, hra] at hid
  exact absurd hid (by decide)

end EvoHarness.Research
