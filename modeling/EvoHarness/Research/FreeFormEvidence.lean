import EvoHarness.Library.Floats
import EvoHarness.Library.JsonMembers
import EvoHarness.Research.Promotion

/-! The assessment of evidence as it was recorded: the unit results stand in free-form observations,
and the noise floor comes from whatever a free-form provenance reports. -/
namespace EvoHarness.Research
open PyText Json

/-- `number` is the float of a JSON number (`none` for an integer that is too large), and `text`
that of a text (`none` where it is no number). -/
structure FloatFormats extends Formats where
  number : Numeral → Option FloatValue
  text : Text → Option FloatValue
  g4Float : FloatValue → Text
  g4_finite : ∀ q, g4Float (.finite q) = g4 q

namespace FloatFormats
variable (fm : FloatFormats)

def truthy : Value → Bool
  | .null => false
  | .bool b => b
  | .number n => fm.number n ≠ some (.finite 0)
  | .string t => t ≠ []
  | .array xs => !xs.isEmpty
  | .object ps => !ps.isEmpty

/-- `observations.get("unit_results")`, if it is a mapping. -/
def unitResultsOf (observations : List (Text × Value)) : Option (List (Text × Bool)) :=
  match get observations "unit_results".toList with
  | some (.object ps) => some (ps.map fun p => (p.1, fm.truthy p.2))
  | _ => none

/-- `float(x)` of a value that counts as true. What is no number raises and gives zero, but an
integer that is too large raises an error that nobody catches. -/
def floatOf : Value → Option FloatValue
  | .bool _ => some (.finite 1)
  | .number n => fm.number n
  | .string t => some ((fm.text t).getD (.finite 0))
  | _ => some (.finite 0)

def semOf (provenance : List (Text × Value)) : Option FloatValue :=
  match get provenance "sem".toList with
  | none => some (.finite 0)
  | some x => if fm.truthy x then fm.floatOf x else some (.finite 0)

end FloatFormats

def finitePart : Option FloatValue → Option ℚ
  | some (.finite q) => some q
  | _ => none

structure RecordedEvidence (fm : FloatFormats) extends EvidenceEnvelope where
  observations : List (Text × Value)
  provenance : List (Text × Value)
  units_read : unitResults = fm.unitResultsOf observations
  sem_read : sem = finitePart (fm.semOf provenance)

inductive AssessFault where
  | refused (fault : Fault)
  | overflowError

namespace AssessmentGuard
variable {fm : FloatFormats} (g : AssessmentGuard)

/-- `z * sqrt(a ** 2 + b ** 2)`: a number that is not finite stays, except that `0 * inf` is no number. -/
def floorFrom (root : ℚ → ℚ) : FloatValue → FloatValue → FloatValue
  | .finite a, .finite b => .finite (g.z * root (a ^ 2 + b ^ 2))
  | .nan, _ => .nan
  | _, .nan => .nan
  | _, _ => if g.z = 0 then .nan else .infinite false

def floorOf (subject reference : RecordedEvidence fm) : Except AssessFault FloatValue :=
  match fm.semOf subject.provenance, fm.semOf reference.provenance with
  | some a, some b => .ok (g.floorFrom fm.sqrt a b)
  | _, _ => .error .overflowError

/-- The rest of `_has_any_gain`, once the floor is known. -/
def gainBeyond (fm : FloatFormats) (subject reference : EvidenceEnvelope) (floor : FloatValue) : Verdict × List Text :=
  let advantage := g.advantageOf subject reference
  if floor.below advantage then
    (.supported, ["one trustworthy improving witness observed".toList] ++
      (if floor ≠ .finite 0 then
        ["beyond noise floor ±".toList ++ fm.g4Float floor ++ " (z=".toList ++ fm.str g.z ++ ")".toList]
      else []) ++
      (if !subject.coverage.complete then ["subject coverage partial — existence only".toList] else []))
  else if advantage > 0 then
    (.unknown, ["advantage ".toList ++ fm.g4 advantage ++ " within noise floor ±".toList ++ fm.g4Float floor ++
      " — underpowered, add units or seeds".toList])
  else (.unknown, ["no gain in this sample; a finite sample cannot refute existence".toList])

/-- The rest of `_better_than_reference`, once the floor is known. -/
def betterBeyond (fm : FloatFormats) (claim : Claim) (subject reference : EvidenceEnvelope) (floor : FloatValue) : Verdict × List Text :=
  let advantage := g.advantageOf subject reference
  let reasons := if floor ≠ .finite 0 then
    ["noise floor ±".toList ++ fm.g4Float floor ++ " (z=".toList ++ fm.str g.z ++ ")".toList] else []
  if (floor.shift claim.margin).below advantage then
    (.supported, reasons ++ ["complete-coverage margin met beyond noise floor".toList])
  else if (floor.neg.shift claim.margin).reaches advantage then
    (.contradicted, reasons ++ ["complete coverage shows no aggregate advantage".toList])
  else (.unknown, reasons ++ ["advantage ".toList ++ fm.g4 advantage ++
    " statistically indistinguishable from margin — underpowered, add units or seeds".toList])

def handle (claim : Claim) (subject reference : RecordedEvidence fm) : Except AssessFault (Verdict × List Text) :=
  match claim.kind with
  | .hasAnyGain =>
    if !(trustworthy subject.toEvidenceEnvelope && trustworthy reference.toEvidenceEnvelope) then
      .ok (.unknown, ["needs trustworthy verdicts on both".toList])
    else (g.floorOf subject reference).map
      (g.gainBeyond fm subject.toEvidenceEnvelope reference.toEvidenceEnvelope)
  | .betterThanReference =>
    if !(trustworthy subject.toEvidenceEnvelope && trustworthy reference.toEvidenceEnvelope) then
      .ok (.unknown, ["needs trustworthy verdicts on both".toList])
    else if !(subject.coverage.complete && reference.coverage.complete) then
      .ok (.unknown, ["aggregate comparison requires complete coverage on both".toList])
    else (g.floorOf subject reference).map
      (g.betterBeyond fm claim subject.toEvidenceEnvelope reference.toEvidenceEnvelope)
  | _ => .ok (g.rule fm.toFormats claim subject.toEvidenceEnvelope reference.toEvidenceEnvelope)

def assessRecorded (claim : Claim) (subject : RecordedEvidence fm) (reference : Option (RecordedEvidence fm)) :
    Except AssessFault ClaimAssessment :=
  if subject.candidateId ≠ claim.subjectId then
    .error (.refused (differentCandidate "subject".toList subject.candidateId claim.subjectId))
  else if claim.kind.comparative = true then
    match reference with
    | none => .ok (g.result fm.toFormats claim subject.toEvidenceEnvelope none (.unknown, ["reference evidence missing".toList]))
    | some e =>
      if e.candidateId ≠ claim.referenceId then
        .error (.refused (differentCandidate "reference".toList e.candidateId claim.referenceId))
      else
        match subject.scoreNamespace.requireComparable e.scoreNamespace with
        | .error fault => .error (.refused fault)
        | .ok () => (g.handle claim subject e).map
            (g.result fm.toFormats claim subject.toEvidenceEnvelope (some e.toEvidenceEnvelope))
  -- the other rules do not look at the reference
  else (g.handle claim subject (reference.getD subject)).map
    (g.result fm.toFormats claim subject.toEvidenceEnvelope (reference.map (·.toEvidenceEnvelope)))

end AssessmentGuard

section Reading
variable {fm : FloatFormats} (g : AssessmentGuard) {subject reference : RecordedEvidence fm}

theorem floorOf_finite {a b : ℚ} (ha : fm.semOf subject.provenance = some (.finite a))
    (hb : fm.semOf reference.provenance = some (.finite b)) :
    g.floorOf subject reference =
      .ok (.finite (g.noiseFloor fm.toFormats subject.toEvidenceEnvelope reference.toEvidenceEnvelope)) := by
  have hsem : subject.sem = some a := by rw [subject.sem_read, ha, finitePart]
  have hsem' : reference.sem = some b := by rw [reference.sem_read, hb, finitePart]
  simp only [AssessmentGuard.floorOf, ha, hb, AssessmentGuard.floorFrom, AssessmentGuard.noiseFloor, hsem, hsem',
    Option.getD_some]

theorem gainBeyond_finite (s r : EvidenceEnvelope) (floor : ℚ) (hfloor : floor = g.noiseFloor fm.toFormats s r)
    (htrust : (trustworthy s && trustworthy r) = true) :
    g.gainBeyond fm s r (.finite floor) = g.hasAnyGain fm.toFormats s r := by
  unfold AssessmentGuard.gainBeyond AssessmentGuard.hasAnyGain
  simp only [htrust, Bool.not_true, Bool.false_eq_true, if_false, FloatValue.below, fm.g4_finite, ne_eq,
    FloatValue.finite.injEq, decide_eq_true_eq, hfloor]

theorem betterBeyond_finite (claim : Claim) (s r : EvidenceEnvelope) (floor : ℚ)
    (hfloor : floor = g.noiseFloor fm.toFormats s r) (htrust : (trustworthy s && trustworthy r) = true)
    (hcomplete : (s.coverage.complete && r.coverage.complete) = true) :
    g.betterBeyond fm claim s r (.finite floor) = g.betterThanReference fm.toFormats claim s r := by
  unfold AssessmentGuard.betterBeyond AssessmentGuard.betterThanReference
  simp only [htrust, hcomplete, Bool.not_true, Bool.false_eq_true, if_false, FloatValue.below, FloatValue.reaches,
    FloatValue.neg, FloatValue.shift, fm.g4_finite, ne_eq, FloatValue.finite.injEq, decide_eq_true_eq, hfloor,
    sub_eq_add_neg]

/-- Evidence whose noise is reported as numbers is assessed as the evidence that was read from it. -/
theorem handle_eq_rule {a b : ℚ} (claim : Claim) (ha : fm.semOf subject.provenance = some (.finite a))
    (hb : fm.semOf reference.provenance = some (.finite b)) :
    g.handle claim subject reference =
      .ok (g.rule fm.toFormats claim subject.toEvidenceEnvelope reference.toEvidenceEnvelope) := by
  unfold AssessmentGuard.handle AssessmentGuard.rule
  rw [floorOf_finite g ha hb]
  cases hkind : claim.kind with
  | candidateValid | objectiveMet | noRegression => rfl
  | hasAnyGain =>
    by_cases htrust : (trustworthy subject.toEvidenceEnvelope && trustworthy reference.toEvidenceEnvelope) = true
    · rw [← gainBeyond_finite g _ _ _ rfl htrust]
      simp [htrust, Except.map]
    · simp [AssessmentGuard.hasAnyGain, htrust]
  | betterThanReference =>
    by_cases htrust : (trustworthy subject.toEvidenceEnvelope && trustworthy reference.toEvidenceEnvelope) = true
    · by_cases hcomplete : (subject.coverage.complete && reference.coverage.complete) = true
      · rw [← betterBeyond_finite g claim _ _ _ rfl htrust hcomplete]
        simp [htrust, hcomplete, Except.map]
      · simp [AssessmentGuard.betterThanReference, htrust, hcomplete]
    · simp [AssessmentGuard.betterThanReference, htrust]

end Reading

def Judged (e : EvidenceEnvelope) : Prop := e.evaluationValid = true ∧ e.admissible ≠ some false

/-- Both carry unit results, and every unit that the reference passed was executed again and passed. -/
def Held (subject reference : EvidenceEnvelope) : Prop :=
  ∃ subjectUnits referenceUnits, subject.unitResults = some subjectUnits ∧ reference.unitResults = some referenceUnits ∧
    ∀ unit, (unit, true) ∈ referenceUnits → AssessmentGuard.resultOf subjectUnits unit = some true

section Promises
variable {fm : FloatFormats} {g : AssessmentGuard} {claim : Claim} {s r : RecordedEvidence fm} {floor : FloatValue}
  {v : Verdict × List Text} {a : ClaimAssessment}

theorem judged_of_trustworthy {e : EvidenceEnvelope} (h : trustworthy e = true) : Judged e := by
  unfold trustworthy at h
  simp only [Bool.and_eq_true, decide_eq_true_eq] at h
  exact h.1

theorem gainBeyond_status (s r : EvidenceEnvelope) : (g.gainBeyond fm s r floor).1 =
    if floor.below (g.advantageOf s r) then .supported else .unknown := by
  unfold AssessmentGuard.gainBeyond
  dsimp only
  rw [apply_ite Prod.fst, apply_ite Prod.fst, ite_self]

theorem betterBeyond_status (s r : EvidenceEnvelope) : (g.betterBeyond fm claim s r floor).1 =
    if (floor.shift claim.margin).below (g.advantageOf s r) then .supported
    else if (floor.neg.shift claim.margin).reaches (g.advantageOf s r) then .contradicted else .unknown := by
  unfold AssessmentGuard.betterBeyond
  dsimp only
  rw [apply_ite Prod.fst, apply_ite Prod.fst]

theorem floorOf_forward (h : g.floorOf s r = .ok floor) : floor = .nan ∨ floor.Forward := by
  unfold AssessmentGuard.floorOf at h
  split at h
  · cases h
    unfold AssessmentGuard.floorFrom
    split
    · exact .inr (mul_nonneg g.z_nonneg (fm.sqrt_nonneg _))
    · exact .inl rfl
    · exact .inl rfl
    · split
      · exact .inl rfl
      · exact .inr rfl
  · exact nomatch h

theorem handle_scores (hkind : claim.kind = .hasAnyGain ∨ claim.kind = .betterThanReference)
    (h : g.handle claim s r = .ok v) : v.1 = .unknown ∨
      (trustworthy s.toEvidenceEnvelope && trustworthy r.toEvidenceEnvelope) = true ∧
        ∃ floor, g.floorOf s r = .ok floor ∧
          (claim.kind = .hasAnyGain ∧ v = g.gainBeyond fm s.toEvidenceEnvelope r.toEvidenceEnvelope floor ∨
            claim.kind = .betterThanReference ∧
              v = g.betterBeyond fm claim s.toEvidenceEnvelope r.toEvidenceEnvelope floor) := by
  unfold AssessmentGuard.handle at h
  cases hkind with
  | inl hgain =>
    rw [hgain] at h
    dsimp only at h
    split at h
    · cases h
      exact .inl rfl
    · next htrust =>
      cases hfloor : g.floorOf s r with
      | error e => rw [hfloor] at h; exact nomatch h
      | ok floor =>
        rw [hfloor] at h
        cases h
        exact .inr ⟨by simpa using htrust, floor, rfl, .inl ⟨hgain, rfl⟩⟩
  | inr hbetter =>
    rw [hbetter] at h
    dsimp only at h
    split at h
    · cases h
      exact .inl rfl
    · next htrust =>
      split at h
      · cases h
        exact .inl rfl
      · cases hfloor : g.floorOf s r with
        | error e => rw [hfloor] at h; exact nomatch h
        | ok floor =>
          rw [hfloor] at h
          cases h
          exact .inr ⟨by simpa using htrust, floor, rfl, .inr ⟨hbetter, rfl⟩⟩

theorem judged_of_supported (hkind : claim.kind = .hasAnyGain ∨ claim.kind = .betterThanReference)
    (h : g.handle claim s r = .ok v) (hv : v.1 = .supported) :
    Judged s.toEvidenceEnvelope ∧ Judged r.toEvidenceEnvelope := by
  cases handle_scores hkind h with
  | inl hunknown => rw [hunknown] at hv; exact nomatch hv
  | inr hdecided =>
    have htrust := hdecided.1
    rw [Bool.and_eq_true] at htrust
    exact ⟨judged_of_trustworthy htrust.1, judged_of_trustworthy htrust.2⟩

theorem not_supported_within (hkind : claim.kind = .hasAnyGain ∨ claim.kind = .betterThanReference)
    (h : g.handle claim s r = .ok v) (hfloor : g.floorOf s r = .ok floor)
    (hwithin : floor.below |g.advantageOf s.toEvidenceEnvelope r.toEvidenceEnvelope| = false) : v.1 ≠ .supported := by
  intro hv
  cases handle_scores hkind h with
  | inl hunknown => rw [hunknown] at hv; exact nomatch hv
  | inr hdecided =>
    obtain ⟨-, floor', hfloor', hrule⟩ := hdecided
    rw [hfloor] at hfloor'
    cases hfloor'
    have habs := le_abs_self (g.advantageOf s.toEvidenceEnvelope r.toEvidenceEnvelope)
    have hmargin := claim.margin_nonneg
    cases hrule with
    | inl hgain =>
      rw [hgain.2, gainBeyond_status] at hv
      cases floor <;> simp_all [FloatValue.below]
      linarith
    | inr hbetter =>
      rw [hbetter.2, betterBeyond_status] at hv
      have hbelow : (floor.shift claim.margin).below (g.advantageOf s.toEvidenceEnvelope r.toEvidenceEnvelope) = true := by
        by_contra hnot
        rw [if_neg hnot] at hv
        split at hv <;> exact nomatch hv
      cases floor <;> simp_all [FloatValue.below, FloatValue.shift]
      linarith

theorem not_contradicted_near (hkind : claim.kind = .hasAnyGain ∨ claim.kind = .betterThanReference)
    (h : g.handle claim s r = .ok v) (hfloor : g.floorOf s r = .ok floor)
    (hnear : floor.upTo |g.advantageOf s.toEvidenceEnvelope r.toEvidenceEnvelope - claim.margin| = false) :
    v.1 ≠ .contradicted := by
  intro hv
  cases handle_scores hkind h with
  | inl hunknown => rw [hunknown] at hv; exact nomatch hv
  | inr hdecided =>
    obtain ⟨-, floor', hfloor', hrule⟩ := hdecided
    rw [hfloor] at hfloor'
    cases hfloor'
    have habs := neg_le_abs (g.advantageOf s.toEvidenceEnvelope r.toEvidenceEnvelope - claim.margin)
    cases hrule with
    | inl hgain =>
      rw [hgain.2, gainBeyond_status] at hv
      split at hv <;> exact nomatch hv
    | inr hbetter =>
      rw [hbetter.2, betterBeyond_status] at hv
      have hreach : (floor.neg.shift claim.margin).reaches (g.advantageOf s.toEvidenceEnvelope r.toEvidenceEnvelope) = true := by
        by_contra hnot
        rw [if_neg hnot] at hv
        split at hv <;> exact nomatch hv
      cases floor <;> simp_all [FloatValue.reaches, FloatValue.neg, FloatValue.shift, FloatValue.upTo]
      linarith

theorem advantageOf_swap (g : AssessmentGuard) (s r : EvidenceEnvelope) : g.advantageOf r s = -g.advantageOf s r := by
  unfold AssessmentGuard.advantageOf AssessmentGuard.advantage
  cases g.direction <;> simp

theorem advantage_pos (hkind : claim.kind = .betterThanReference) (h : g.handle claim s r = .ok v)
    (hv : v.1 = .supported) : 0 < g.advantageOf s.toEvidenceEnvelope r.toEvidenceEnvelope := by
  cases handle_scores (.inr hkind) h with
  | inl hunknown => rw [hunknown] at hv; exact nomatch hv
  | inr hdecided =>
    obtain ⟨-, floor, hfloor, hrule⟩ := hdecided
    have hmargin := claim.margin_nonneg
    have hforward := floorOf_forward hfloor
    cases hrule with
    | inl hgain => rw [hkind] at hgain; exact nomatch hgain.1
    | inr hbetter =>
      rw [hbetter.2, betterBeyond_status] at hv
      have hbelow : (floor.shift claim.margin).below (g.advantageOf s.toEvidenceEnvelope r.toEvidenceEnvelope) = true := by
        by_contra hnot
        rw [if_neg hnot] at hv
        split at hv <;> exact nomatch hv
      cases floor <;> simp_all [FloatValue.below, FloatValue.shift, FloatValue.Forward]
      linarith

theorem handle_noRegression (hkind : claim.kind = .noRegression) : g.handle claim s r =
    .ok (AssessmentGuard.noRegression fm.toFormats s.toEvidenceEnvelope r.toEvidenceEnvelope) := by
  unfold AssessmentGuard.handle AssessmentGuard.rule
  rw [hkind]

theorem held_iff {s r : EvidenceEnvelope} {su ru : List (Text × Bool)} (hs : s.unitResults = some su)
    (hr : r.unitResults = some ru) :
    Held s r ↔ ∀ unit, (unit, true) ∈ ru → AssessmentGuard.resultOf su unit = some true := by
  constructor
  · rintro ⟨a, b, ha, hb, h⟩
    rw [hs] at ha
    rw [hr] at hb
    cases ha
    cases hb
    exact h
  · exact fun h => ⟨su, ru, hs, hr, h⟩

theorem all_passed_iff (su : List (Text × Bool)) (passed : List Text) :
    (passed.filter fun u => (AssessmentGuard.resultOf su u).isNone) = [] ∧
        ((passed.filter fun u => AssessmentGuard.resultOf su u = some false).mergeSort fun a b => decide (a ≤ b)) = [] ↔
      ∀ u ∈ passed, AssessmentGuard.resultOf su u = some true := by
  rw [← List.length_eq_zero_iff (l := List.mergeSort _ _), List.length_mergeSort, List.length_eq_zero_iff,
    List.filter_eq_nil_iff, List.filter_eq_nil_iff, ← forall₂_and]
  refine forall₂_congr fun u _ => ?_
  cases AssessmentGuard.resultOf su u with
  | none => simp
  | some b => cases b <;> simp

theorem noRegression_supported_iff (fm : Formats) (s r : EvidenceEnvelope) :
    (AssessmentGuard.noRegression fm s r).1 = .supported ↔ Held s r := by
  unfold AssessmentGuard.noRegression
  cases hs : s.unitResults with
  | none => simp [Held, hs]
  | some su =>
    cases hr : r.unitResults with
    | none => simp [Held, hr]
    | some ru =>
      have hpassed : ∀ u, u ∈ ((ru.filter (·.2)).map (·.1)).dedup ↔ (u, true) ∈ ru := by
        intro u
        simp [List.mem_dedup, List.mem_map, List.mem_filter]
      have hall := all_passed_iff su ((ru.filter (·.2)).map (·.1)).dedup
      simp only [hpassed] at hall
      rw [held_iff hs hr, ← hall]
      dsimp only
      split
      · next hun => simp [hun]
      · next hun =>
        split
        · next hflip => simp [hflip]
        · next hflip => simp [not_not.mp hun, not_not.mp hflip]

end Promises

structure Mirrored {fm : FloatFormats} (e e' : RecordedEvidence fm) : Prop where
  candidateId : e'.candidateId = e.candidateId
  scoreNamespace : e'.scoreNamespace = e.scoreNamespace
  evaluationValid : e'.evaluationValid = e.evaluationValid
  admissible : e'.admissible = e.admissible
  coverage : e'.coverage = e.coverage
  objectiveMet : e'.objectiveMet = e.objectiveMet
  observations : e'.observations = e.observations
  provenance : e'.provenance = e.provenance
  fitness : e'.fitness = e.fitness.map (- ·)

structure Opposite (g g' : AssessmentGuard) : Prop where
  maximizing : g.direction = .maximize
  minimizing : g'.direction = .minimize
  z : g'.z = g.z

def ClaimAssessment.verdict (a : ClaimAssessment) : Verdict × List Text := (a.status, a.reasons)

section Mirror
variable {fm : FloatFormats} {g g' : AssessmentGuard} {s s' r r' : RecordedEvidence fm}

theorem Mirrored.trustworthy (h : Mirrored s s') :
    trustworthy s'.toEvidenceEnvelope = trustworthy s.toEvidenceEnvelope := by
  unfold Research.trustworthy
  rw [h.evaluationValid, h.admissible, h.fitness, Option.isSome_map]

theorem Mirrored.advantageOf (hg : Opposite g g') (hs : Mirrored s s') (hr : Mirrored r r') :
    g'.advantageOf s'.toEvidenceEnvelope r'.toEvidenceEnvelope = g.advantageOf s.toEvidenceEnvelope r.toEvidenceEnvelope := by
  have hneg : ∀ o : Option ℚ, (o.map (- ·)).getD 0 = -o.getD 0 := by
    intro o
    cases o <;> simp
  unfold AssessmentGuard.advantageOf AssessmentGuard.advantage
  rw [hg.maximizing, hg.minimizing, hs.fitness, hr.fitness, hneg, hneg]
  ring

theorem Mirrored.floorOf (hg : Opposite g g') (hs : Mirrored s s') (hr : Mirrored r r') :
    g'.floorOf s' r' = g.floorOf s r := by
  unfold AssessmentGuard.floorOf AssessmentGuard.floorFrom
  rw [hs.provenance, hr.provenance, hg.z]

theorem Mirrored.unitResults (h : Mirrored s s') : s'.unitResults = s.unitResults := by
  rw [s'.units_read, s.units_read, h.observations]

theorem Mirrored.gainBeyond (hg : Opposite g g') (hs : Mirrored s s') (hr : Mirrored r r') :
    g'.gainBeyond fm s'.toEvidenceEnvelope r'.toEvidenceEnvelope =
      g.gainBeyond fm s.toEvidenceEnvelope r.toEvidenceEnvelope := by
  unfold AssessmentGuard.gainBeyond
  rw [hs.advantageOf hg hr, hg.z, hs.coverage]

theorem Mirrored.betterBeyond (claim : Claim) (hg : Opposite g g') (hs : Mirrored s s') (hr : Mirrored r r') :
    g'.betterBeyond fm claim s'.toEvidenceEnvelope r'.toEvidenceEnvelope =
      g.betterBeyond fm claim s.toEvidenceEnvelope r.toEvidenceEnvelope := by
  unfold AssessmentGuard.betterBeyond
  rw [hs.advantageOf hg hr, hg.z]

theorem Mirrored.handle (claim : Claim) (hg : Opposite g g') (hs : Mirrored s s') (hr : Mirrored r r') :
    g'.handle claim s' r' = g.handle claim s r := by
  unfold AssessmentGuard.handle
  rw [hs.trustworthy, hr.trustworthy, hs.coverage, hr.coverage, hs.floorOf hg hr, hs.gainBeyond hg hr,
    hs.betterBeyond claim hg hr]
  cases hkind : claim.kind with
  | hasAnyGain | betterThanReference => rfl
  | candidateValid =>
    simp only [AssessmentGuard.rule, hkind, AssessmentGuard.candidateValid, hs.evaluationValid, hs.admissible]
  | objectiveMet =>
    simp only [AssessmentGuard.rule, hkind, AssessmentGuard.objectiveMet, hs.objectiveMet, hs.admissible, hs.coverage]
  | noRegression =>
    simp only [AssessmentGuard.rule, hkind, AssessmentGuard.noRegression, hs.unitResults, hr.unitResults]

theorem Mirrored.assessRecorded (claim : Claim) (hg : Opposite g g') (hs : Mirrored s s') (hr : Mirrored r r') :
    (g'.assessRecorded claim s' (some r')).map ClaimAssessment.verdict =
      (g.assessRecorded claim s (some r)).map ClaimAssessment.verdict := by
  have hverdict : ∀ (g : AssessmentGuard) (s : EvidenceEnvelope) (reference : Option EvidenceEnvelope)
      (v : Except AssessFault (Verdict × List Text)),
      (v.map (g.result fm.toFormats claim s reference)).map ClaimAssessment.verdict = v := by
    intro g s reference v
    cases v <;> rfl
  unfold AssessmentGuard.assessRecorded
  rw [hs.candidateId]
  dsimp only
  rw [hr.candidateId, hs.scoreNamespace, hr.scoreNamespace, Option.getD_some, hs.handle claim hg hr]
  split
  · rfl
  · split
    · split
      · rfl
      · split
        · rfl
        · rw [hverdict, hverdict]
    · rw [hverdict, hverdict]
      rfl

end Mirror

theorem assessRecorded_comparative {fm : FloatFormats} {g : AssessmentGuard} {claim : Claim} {s r : RecordedEvidence fm}
    {a : ClaimAssessment} (hkind : claim.kind.comparative = true) (h : g.assessRecorded claim s (some r) = .ok a) :
    ∃ v, g.handle claim s r = .ok v ∧ a.status = v.1 := by
  unfold AssessmentGuard.assessRecorded at h
  rw [if_pos hkind] at h
  dsimp only at h
  split at h
  · exact nomatch h
  · split at h
    · exact nomatch h
    · split at h
      · exact nomatch h
      · cases hv : g.handle claim s r with
        | error e => rw [hv] at h; exact nomatch h
        | ok v =>
          rw [hv] at h
          cases h
          exact ⟨v, rfl, rfl⟩

/-- A guard trusts no verdict that is missing or inadmissible where it compares scores, and no unit that
was not executed again where it compares units; it calls one of two candidates better at most, says
nothing within its noise floor, and does not depend on the sign of the scores. -/
theorem assessor_fails_closed (fm : FloatFormats) (g : AssessmentGuard) :
    (∀ (claim : Claim) (s r : RecordedEvidence fm) (a : ClaimAssessment), claim.kind.comparative = true →
      g.assessRecorded claim s (some r) = .ok a →
        (claim.kind ≠ .noRegression → a.status = .supported →
          Judged s.toEvidenceEnvelope ∧ Judged r.toEvidenceEnvelope) ∧
        (claim.kind = .noRegression → (a.status = .supported ↔ Held s.toEvidenceEnvelope r.toEvidenceEnvelope))) ∧
    (∀ (claim claim' : Claim) (s r : RecordedEvidence fm) (a b : ClaimAssessment),
      claim.kind = .betterThanReference → claim'.kind = .betterThanReference →
        g.assessRecorded claim s (some r) = .ok a → g.assessRecorded claim' r (some s) = .ok b →
          ¬(a.status = .supported ∧ b.status = .supported)) ∧
    (∀ (claim : Claim) (s r : RecordedEvidence fm) (a : ClaimAssessment) (floor : FloatValue),
      claim.kind = .hasAnyGain ∨ claim.kind = .betterThanReference → g.assessRecorded claim s (some r) = .ok a →
        g.floorOf s r = .ok floor →
          (floor.below |g.advantageOf s.toEvidenceEnvelope r.toEvidenceEnvelope| = false → a.status ≠ .supported) ∧
          (floor.upTo |g.advantageOf s.toEvidenceEnvelope r.toEvidenceEnvelope - claim.margin| = false →
            a.status ≠ .contradicted)) ∧
    ∀ (g' : AssessmentGuard) (claim : Claim) (s s' r r' : RecordedEvidence fm), Opposite g g' → Mirrored s s' →
      Mirrored r r' → (g'.assessRecorded claim s' (some r')).map ClaimAssessment.verdict =
        (g.assessRecorded claim s (some r)).map ClaimAssessment.verdict := by
  refine ⟨?_, ?_, ?_, ?_⟩
  · intro claim s r a hkind h
    obtain ⟨v, hv, hstatus⟩ := assessRecorded_comparative hkind h
    rw [hstatus]
    constructor
    · intro hne hsupported
      refine judged_of_supported ?_ hv hsupported
      cases hk : claim.kind <;> simp_all [ClaimKind.comparative]
    · intro hk
      rw [handle_noRegression hk, Except.ok.injEq] at hv
      rw [← hv, noRegression_supported_iff]
  · intro claim claim' s r a b hkind hkind' ha hb hboth
    obtain ⟨v, hv, hstatus⟩ := assessRecorded_comparative (by rw [hkind]; rfl) ha
    obtain ⟨w, hw, hstatus'⟩ := assessRecorded_comparative (by rw [hkind']; rfl) hb
    have hahead := advantage_pos hkind hv (hstatus ▸ hboth.1)
    have hbehind := advantage_pos hkind' hw (hstatus' ▸ hboth.2)
    rw [advantageOf_swap] at hbehind
    linarith
  · intro claim s r a floor hkind h hfloor
    have hcomparative : claim.kind.comparative = true := by
      cases hkind with
      | inl hgain => rw [hgain]; rfl
      | inr hbetter => rw [hbetter]; rfl
    obtain ⟨v, hv, hstatus⟩ := assessRecorded_comparative hcomparative h
    rw [hstatus]
    exact ⟨not_supported_within hkind hv hfloor, not_contradicted_near hkind hv hfloor⟩
  · intro g' claim s s' r r' hg hs hr
    exact hs.assessRecorded claim hg hr

def plainFloats : FloatFormats where
  toFormats := plainFormats
  number _ := some (.finite 1)
  text _ := none
  g4Float _ := []
  g4_finite _ := rfl

def unitsPassed : List (Text × Value) := [("unit_results".toList, .object [("u".toList, .bool true)])]

/-- Evidence of a candidate that was adjudicated inadmissible, or not, with one unit passed. -/
theorem judged_nothing (h : (none : Option Bool) ≠ none) : true = true := (h rfl).elim

def unitEvidence (candidateId : Text) (admissible : Bool) (h : strip candidateId ≠ []) : RecordedEvidence plainFloats where
  evidenceId := candidateId
  candidateId := candidateId
  scoreNamespace := exactNamespace
  evaluationValid := true
  admissible := some admissible
  fitness := some 0
  coverage := fullCoverage
  unitResults := plainFloats.unitResultsOf unitsPassed
  sem := some 0
  candidate_nonempty := h
  valid_admissible := rfl
  valid_fitness := rfl
  judged_valid := judged_nothing
  met_complete h := by simp at h
  observations := unitsPassed
  provenance := []
  units_read := rfl
  sem_read := rfl

theorem inadmissible_supported :
    ∃ (claim : Claim) (a : ClaimAssessment), claim.kind = .noRegression ∧
      maximizing.assessRecorded claim (unitEvidence ['a'] false (by decide)) (some (unitEvidence ['b'] true (by decide))) =
        .ok a ∧ a.status = .supported ∧ ¬ Judged (unitEvidence ['a'] false (by decide)).toEvidenceEnvelope :=
  ⟨{ kind := .noRegression, subjectId := ['a'], referenceId := ['b'], subject_nonempty := by decide
     reference_nonempty := fun _ => by decide, margin_nonneg := le_refl 0 }, _, rfl, rfl, by decide +kernel, fun h => h.2 rfl⟩

end EvoHarness.Research
