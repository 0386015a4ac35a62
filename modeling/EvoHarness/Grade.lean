import EvoHarness.Policy
import EvoHarness.RunSolver

/-! Scoring one subgoal: compile it, then read Lean's own axiom report. -/
namespace EvoHarness.Proof
open PyText

/-- What invoking Lean on a file gives: its exit code and its output, or no measurement. -/
abbrev LeanRunner := Text → Except Text (ℤ × Text)

def targetName (source : Text) : Text :=
  let region := afterBegin source
  declarationName (((cut ":=".toList region).map Prod.fst).getD region)

/-- `item.strip() for item in list.split(",") if item.strip()`. -/
def axiomItems (list : Text) : Finset Text :=
  (((list.splitOn ',').map strip).filter (· ≠ [])).toFinset

/-- `_axioms` of the grader: no report at all counts as `sorryAx`. -/
def gradedAxioms (output name : Text) : Finset Text :=
  if contains (['\''] ++ name ++ "' does not depend on any axioms".toList) output then ∅
  else
    let found := (cut (['\''] ++ name ++ "' depends on axioms: [".toList) output).bind fun p =>
      (cut [']'] p.2).map Prod.fst
    match found with
    | some list => axiomItems list
    | none => {sorryName}

def errorHere (t : Text) : Bool :=
  match t with
  | ':' :: t =>
    let u := lstrip t
    if "error".toList.isPrefixOf u then
      match u.drop 5 with
      | ':' :: _ => true
      | '(' :: v => (v.dropWhile (· ≠ ')')).tail.head? = some ':'
      | _ => false
    else false
  | _ => false

def errorLines (output : Text) : List Text :=
  (splitlines output).filter fun line => line.tails.any errorHere

inductive Metric where
  | text (t : Text)
  | count (n : ℕ)
  deriving DecidableEq

structure GradeResult where
  fitness : ℚ
  passed : Bool
  faultKind : Text := []
  fault : Text := []
  notes : Text := []
  visibleMetrics : Dict Metric := []

def compilesFloor : ℚ := 3 / 10

def gradeReport (policy : AxiomPolicy) (name output : Text) (axioms : Finset Text) : GradeResult :=
  let rest := axioms \ {sorryName}
  let trust := AxiomPolicy.classify rest
  let unverified := AxiomPolicy.unverifiedNative rest
  let forbidden := policy.blocking rest \ unverified
  let metrics : Dict Metric := [("declaration".toList, .text name)]
  if forbidden ≠ ∅ then
    { fitness := 0, passed := false, faultKind := "task_failure".toList
      fault := "forbidden axioms: ".toList ++ sortedNames ", ".toList forbidden
      visibleMetrics := metrics ++ [("axioms".toList, .text (sortedNames [','] axioms)),
        ("trust".toList, .text trust.value)] }
  else if sorryName ∈ axioms ∨ unverified ≠ ∅ then
    { fitness := compilesFloor, passed := true
      notes :=
        if unverified ≠ ∅ then
          ("native_decide axioms need the verifier's content recheck; a ".toList ++
            "local compile cannot certify them: ".toList ++
            sortedNames ", ".toList unverified ++ ['\n'] ++ output.take 2000).take 2000
        else output.take 2000
      visibleMetrics := metrics ++ [("proved".toList, .count 0), ("trust".toList, .text trust.value)] }
  else
    { fitness := 1, passed := true
      notes := "Lean reports ".toList ++ name ++ " depends only on axioms at trust ".toList ++
        trust.value ++ ", within minimum_trust=".toList ++ policy.minimumTrust.value ++ ['.']
      visibleMetrics := metrics ++ [("proved".toList, .count 1),
        ("axioms".toList, .text (sortedNames [','] axioms)), ("trust".toList, .text trust.value)] }

/-- A broken toolchain is an `InfraError`, not a wrong answer. -/
def grade (runner : LeanRunner) (policy : AxiomPolicy) (candidate : Option Text) :
    Except Text GradeResult :=
  match candidate with
  | none => .ok
      { fitness := 0, passed := false, faultKind := "invalid_candidate".toList
        fault := "no subgoal.lean in the workspace".toList }
  | some source =>
    let name := targetName source
    match runner source with
    | .error message => .error message
    | .ok (returncode, output) =>
      if returncode ≠ 0 then
        let errors := errorLines output
        let shown := (join ['\n'] errors).take 2000
        .ok
          { fitness := 0, passed := false, faultKind := "task_failure".toList
            fault := "the file does not compile".toList
            notes := if shown = [] then output.take 2000 else shown
            visibleMetrics := [("declaration".toList, .text name),
              ("error_count".toList, .count errors.length)] }
      else .ok (gradeReport policy name output (gradedAxioms output name))

variable {policy : AxiomPolicy} {runner : LeanRunner} {source name output : Text} {axioms : Finset Text}

/-- Full marks: nothing forbidden, no `sorry`, and no native_decide axiom, whatever the floor. -/
theorem gradeReport_solved_iff : (gradeReport policy name output axioms).fitness = 1 ↔
    policy.blocking axioms = ∅ ∧ AxiomPolicy.unverifiedNative axioms = ∅ := by
  have hplaceholder : policy.blocking axioms = ∅ → sorryName ∉ axioms :=
    fun h hs => AxiomPolicy.sorry_blocks hs h
  by_cases hs : sorryName ∈ axioms
  · have hne : (gradeReport policy name output axioms).fitness ≠ 1 := by
      unfold gradeReport
      dsimp only
      split
      · norm_num
      · norm_num [hs, compilesFloor]
    constructor
    · intro h
      exact absurd h hne
    · intro h
      exact absurd hs (hplaceholder h.1)
  · have hrest : axioms \ {sorryName} = axioms := Finset.sdiff_eq_self_of_disjoint (Finset.disjoint_singleton_right.mpr hs)
    by_cases hu : AxiomPolicy.unverifiedNative axioms = ∅
    · by_cases hb : policy.blocking axioms = ∅
      · simp [gradeReport, hrest, hs, hu, hb]
      · simp [gradeReport, hrest, hb, hu]
    · have hne : (gradeReport policy name output axioms).fitness ≠ 1 := by
        unfold gradeReport
        dsimp only
        rw [hrest]
        split
        · norm_num
        · norm_num [hu, compilesFloor]
      constructor
      · intro h
        exact absurd h hne
      · intro h
        exact absurd h.2 hu

theorem grade_compiled (h : runner source = .ok (0, output)) : grade runner policy (some source) =
    .ok (gradeReport policy (targetName source) output (gradedAxioms output (targetName source))) := by
  simp [grade, h]

/-- The grader gives full marks, and the body recorded with the PROVED attempt is `b`. -/
def Solved (runner : LeanRunner) (policy : AxiomPolicy) (source b : Text) : Prop :=
  (∃ g, grade runner policy (some source) = .ok g ∧ g.fitness = 1) ∧ proofBody source = some b

theorem Solved.recorded {b : Text} (h : Solved runner policy source b) (report : RunReport)
    (hbest : report.bestFitness = some 1) (runDir : Option Text) :
    ∃ r, AttemptResult.fromRunReport report runDir 1 (proofBody source) = .ok r ∧
      r.outcome = .proved ∧ r.proofText = some b := by
  have hbody := h.2
  have hne : b ≠ [] := by
    unfold proofBody at hbody
    split at hbody
    · simp at hbody
    · dsimp only at hbody
      split at hbody
      · simp at hbody
      · next hne => exact Option.some.inj hbody ▸ hne
  have hsolved : report.bestFitness.any ((1 : ℚ) ≤ ·) = true := by simp [hbest]
  rw [hbody]
  unfold AttemptResult.fromRunReport
  simp only [hsolved, if_true]
  split
  · next hnil => exact absurd hnil hne
  · exact ⟨_, rfl, rfl, rfl⟩

def noAxiomsReport (name : Text) : Text := ['\''] ++ name ++ "' does not depend on any axioms".toList

theorem contains_append_self (mark a b : Text) : contains mark (a ++ mark ++ b) = true := by
  induction a with
  | nil =>
    cases mark with
    | nil => cases b <;> rfl
    | cons c mark => simp [contains, cut]
  | cons c a ih =>
    simp only [List.cons_append, contains, cut]
    split
    · rfl
    · simpa [contains] using ih

theorem solved_of_noAxioms {b : Text} (h : proofBody source = some b)
    (hr : runner source = .ok (0, noAxiomsReport (targetName source))) : Solved runner policy source b := by
  have hnone : gradedAxioms (noAxiomsReport (targetName source)) (targetName source) = ∅ := by
    have hc := contains_append_self (noAxiomsReport (targetName source)) [] []
    rw [List.nil_append, List.append_nil] at hc
    rw [gradedAxioms, noAxiomsReport]
    rw [noAxiomsReport] at hc
    simp only [hc, if_true]
  refine ⟨⟨_, grade_compiled hr, ?_⟩, h⟩
  rw [hnone, gradeReport_solved_iff]
  exact ⟨rfl, rfl⟩

/-- What Lean answers when the grader gives full marks. -/
def Certified (policy : AxiomPolicy) (source : Text) (answer : Except Text (ℤ × Text)) : Prop :=
  ∃ output, answer = .ok (0, output) ∧ policy.blocking (gradedAxioms output (targetName source)) = ∅ ∧
    AxiomPolicy.unverifiedNative (gradedAxioms output (targetName source)) = ∅

/-- No `:=` outside the brackets, which close. -/
def ClosedFrom : ℤ → Text → Prop
  | depth, [] => depth = 0
  | depth, c :: t =>
    if c ∈ openBrackets then ClosedFrom (depth + 1) t
    else if c ∈ closeBrackets then ClosedFrom (depth - 1) t
    else ¬(c = ':' ∧ t.head? = some '=' ∧ depth = 0) ∧ ClosedFrom depth t

def Closed (t : Text) : Prop := ClosedFrom 0 t

/-- Behind the first `:=` outside brackets stands nothing but what is trimmed. -/
def Bodiless (source : Text) : Prop := ∀ before after, editRegion source = before ++ ":=".toList ++ after →
  Closed before → trimDanglingComment after = []

/-- The edit region begins with the goal's statement and a `:=`, and the statement itself has none outside brackets. -/
def KeptStatement (goal : Goal) (source : Text) : Prop := ∃ lead gap rest, isBlank lead = true ∧ isBlank gap = true ∧
  editRegion source = lead ++ strip goal.statement ++ gap ++ ":=".toList ++ rest ∧ Closed (strip goal.statement)

/-- The declaration that the edit region opens with has the goal's signature, and the file holds the statement, `:=` and
the body. -/
structure AboutGoal (goal : Goal) (source b : Text) : Prop where
  opened : openedSignature source = some (strip goal.statement)
  stated : ∃ gap rest, isBlank gap = true ∧ trimDanglingComment rest = b ∧
    strip goal.statement ++ gap ++ ":=".toList ++ rest <:+: source

theorem solved_iff {b : Text} :
    Solved runner policy source b ↔ Certified policy source (runner source) ∧ proofBody source = some b := by
  refine and_congr_left fun _ => ?_
  unfold grade Certified
  cases hanswer : runner source with
  | error message =>
    refine iff_of_false ?_ ?_
    · rintro ⟨g, hg, -⟩
      simp [hanswer] at hg
    · rintro ⟨output, houtput, -⟩
      cases houtput
  | ok answer =>
    obtain ⟨returncode, output⟩ := answer
    by_cases hcode : returncode = 0
    · subst hcode
      simp only [hanswer, ne_eq, not_true_eq_false, if_false, Except.ok.injEq, exists_eq_left', Prod.mk.injEq, true_and]
      exact gradeReport_solved_iff
    · refine iff_of_false ?_ ?_
      · rintro ⟨g, hg, hfitness⟩
        simp only [hanswer, ne_eq, hcode, not_false_eq_true, if_true, Except.ok.injEq] at hg
        rw [← hg] at hfitness
        norm_num at hfitness
      · rintro ⟨output, houtput, -⟩
        exact hcode (Prod.mk.inj (Except.ok.inj houtput)).1

theorem cutDefinition_eq_some {depth : ℤ} {x before after : Text} : cutDefinition depth x = some (before, after) ↔
    x = before ++ ":=".toList ++ after ∧ ClosedFrom depth before := by
  have hmark : ':' ∉ openBrackets ∧ ':' ∉ closeBrackets := by decide
  induction x generalizing depth before with
  | nil => simp [cutDefinition]
  | cons c x ih =>
    rw [cutDefinition]
    -- both sides are about the rest of the text unless the mark stands here
    have hrest : ∀ depth', (cutDefinition depth' x).map (fun p => (c :: p.1, p.2)) = some (before, after) ↔
        ∃ rest, before = c :: rest ∧ x = rest ++ ":=".toList ++ after ∧ ClosedFrom depth' rest := by
      intro depth'
      rw [Option.map_eq_some_iff]
      constructor
      · rintro ⟨⟨rest, a⟩, hcut, heq⟩
        cases heq
        exact ⟨rest, rfl, ih.mp hcut⟩
      · rintro ⟨rest, rfl, hx⟩
        exact ⟨(rest, after), ih.mpr hx, rfl⟩
    have hopened : ∀ depth', (∀ rest, ClosedFrom depth (c :: rest) ↔ ClosedFrom depth' rest) → c ≠ ':' →
        ((∃ rest, before = c :: rest ∧ x = rest ++ ":=".toList ++ after ∧ ClosedFrom depth' rest) ↔
          c :: x = before ++ ":=".toList ++ after ∧ ClosedFrom depth before) := by
      intro depth' hclosed hc
      constructor
      · rintro ⟨rest, rfl, rfl, hx⟩
        exact ⟨rfl, (hclosed rest).mpr hx⟩
      · rintro ⟨hx, hbefore⟩
        cases before with
        | nil => exact absurd (List.cons.inj hx).1 hc
        | cons d rest =>
          obtain ⟨rfl, htail⟩ := List.cons.inj hx
          exact ⟨rest, rfl, htail, (hclosed rest).mp hbefore⟩
    by_cases ho : c ∈ openBrackets
    · rw [if_pos ho, hrest]
      exact hopened _ (fun rest => by rw [ClosedFrom, if_pos ho]) fun h => hmark.1 (h ▸ ho)
    · rw [if_neg ho]
      by_cases hc : c ∈ closeBrackets
      · rw [if_pos hc, hrest]
        exact hopened _ (fun rest => by rw [ClosedFrom, if_neg ho, if_pos hc]) fun h => hmark.2 (h ▸ hc)
      · rw [if_neg hc]
        by_cases hhere : c = ':' ∧ x.head? = some '=' ∧ depth = 0
        · rw [if_pos hhere]
          obtain ⟨rfl, hhead, rfl⟩ := hhere
          obtain ⟨x', rfl⟩ := List.head?_eq_some_iff.mp hhead
          constructor
          · intro h
            cases h
            exact ⟨rfl, rfl⟩
          · rintro ⟨hx, hbefore⟩
            cases before with
            | nil =>
              cases hx
              rfl
            | cons d rest =>
              -- a mark further on would leave this one before it
              obtain ⟨rfl, htail⟩ := List.cons.inj hx
              rw [ClosedFrom, if_neg ho, if_neg hc] at hbefore
              refine absurd ⟨rfl, ?_, rfl⟩ hbefore.1
              cases rest with
              | nil => cases htail
              | cons e rest => exact congrArg some (List.cons.inj htail).1.symm
        · rw [if_neg hhere, hrest]
          constructor
          · rintro ⟨rest, rfl, rfl, hx⟩
            refine ⟨rfl, ?_⟩
            rw [ClosedFrom, if_neg ho, if_neg hc]
            refine ⟨fun hmarked => hhere ⟨hmarked.1, ?_, hmarked.2.2⟩, hx⟩
            rw [List.append_assoc, List.head?_append, hmarked.2.1]
            rfl
          · rintro ⟨hx, hbefore⟩
            cases before with
            | nil =>
              have hdepth : depth = 0 := hbefore
              obtain ⟨hmarked, htail⟩ := List.cons.inj hx
              rw [htail] at hhere
              exact absurd ⟨hmarked, List.head?_cons, hdepth⟩ hhere
            | cons d rest =>
              obtain ⟨rfl, htail⟩ := List.cons.inj hx
              rw [ClosedFrom, if_neg ho, if_neg hc] at hbefore
              exact ⟨rest, rfl, htail, hbefore.2⟩

theorem closedFrom_cons_blank {depth : ℤ} {c : Char} (hc : isSpace c = true) (t : Text) :
    ClosedFrom depth (c :: t) ↔ ClosedFrom depth t := by
  have hink : ∀ d ∈ openBrackets ++ closeBrackets ++ [':'], isSpace d = false := by
    simp [openBrackets, closeBrackets, isSpace]
  have hother : c ∉ openBrackets ++ closeBrackets ++ [':'] := fun h => by
    rw [hink c h] at hc
    cases hc
  simp only [List.mem_append, List.mem_singleton, not_or] at hother
  rw [ClosedFrom, if_neg hother.1.1, if_neg hother.1.2]
  exact and_iff_right fun h => hother.2 h.1

theorem closedFrom_blank_append {depth : ℤ} {g : Text} (hg : isBlank g = true) (t : Text) :
    ClosedFrom depth (g ++ t) ↔ ClosedFrom depth t := by
  induction g with
  | nil => rfl
  | cons c g ih =>
    rw [isBlank_cons, Bool.and_eq_true] at hg
    rw [List.cons_append, closedFrom_cons_blank hg.1, ih hg.2]

theorem closedFrom_append_blank {depth : ℤ} {g : Text} (hg : isBlank g = true) (t : Text) :
    ClosedFrom depth (t ++ g) ↔ ClosedFrom depth t := by
  induction t generalizing depth with
  | nil =>
    have hblank := @closedFrom_blank_append depth g hg []
    rwa [List.append_nil] at hblank
  | cons c t ih =>
    have hhead : (t ++ g).head? = some '=' ↔ t.head? = some '=' := by
      cases t with
      | nil =>
        refine iff_of_false (fun h => ?_) fun h => nomatch h
        have hspace := isBlank_iff.mp hg '=' (List.mem_of_head? h)
        exact absurd hspace (by decide)
      | cons d t => rfl
    rw [List.cons_append, ClosedFrom, ClosedFrom, hhead]
    simp only [ih]

theorem closed_strip (t : Text) : Closed (strip t) ↔ Closed t := by
  obtain ⟨lead, hlead, ht⟩ := exists_lstrip t
  obtain ⟨gap, hgap, hl⟩ := exists_rstrip (lstrip t)
  have hwhole : t = lead ++ (strip t ++ gap) := by rw [strip, ← hl, ← ht]
  conv_rhs => rw [hwhole]
  rw [Closed, Closed, closedFrom_blank_append hlead, closedFrom_append_blank hgap]

theorem cut_in {mark t a b : Text} (h : cut mark t = some (a, b)) : a <:+: t ∧ b <:+: t := by
  rw [cut_eq h]
  exact ⟨⟨[], mark ++ b, by simp⟩, ⟨a ++ mark, [], by simp⟩⟩

theorem editRegion_in (source : Text) : editRegion source <:+: source := by
  have hbegin : ∀ t, afterBegin t <:+: t := by
    intro t
    unfold afterBegin
    cases hcut : cut regionBegin t with
    | none => exact List.infix_refl t
    | some p => exact (cut_in hcut).2
  have hend : ∀ t, beforeEnd t <:+: t := by
    intro t
    unfold beforeEnd
    cases hcut : cut regionEnd t with
    | none => exact List.infix_refl t
    | some p => exact (cut_in hcut).1
  unfold editRegion
  split
  · exact (hend _).trans (hbegin source)
  · exact List.infix_refl source

theorem bodiless_iff : Bodiless source ↔ proofBody source = none := by
  unfold Bodiless proofBody
  constructor
  · intro h
    cases hcut : cutDefinition 0 (editRegion source) with
    | none => rfl
    | some p =>
      obtain ⟨hregion, hclosed⟩ := cutDefinition_eq_some.mp hcut
      exact if_pos (h p.1 p.2 hregion hclosed)
  · intro h before after hregion hclosed
    rw [cutDefinition_eq_some.mpr ⟨hregion, hclosed⟩] at h
    by_contra hbody
    dsimp only at h
    rw [if_neg hbody] at h
    cases h

theorem keptStatement_iff {goal : Goal} :
    KeptStatement goal source ↔ openedSignature source = some (strip goal.statement) := by
  unfold KeptStatement openedSignature
  rw [Option.map_eq_some_iff]
  constructor
  · rintro ⟨lead, gap, rest, hlead, hgap, hregion, hclosed⟩
    refine ⟨(lead ++ strip goal.statement ++ gap, rest), cutDefinition_eq_some.mpr ⟨hregion, ?_⟩, ?_⟩
    · rw [closedFrom_append_blank hgap, closedFrom_blank_append hlead]
      exact hclosed
    · rw [strip_append_blank hgap, strip_blank_append hlead, strip_of_trimmed (trimmed_strip _)]
  · rintro ⟨⟨before, rest⟩, hcut, hstrip⟩
    obtain ⟨hregion, hclosed⟩ := cutDefinition_eq_some.mp hcut
    obtain ⟨lead, hlead, hbefore⟩ := exists_lstrip before
    obtain ⟨gap, hgap, hl⟩ := exists_rstrip (lstrip before)
    have hwhole : before = lead ++ strip goal.statement ++ gap := by
      rw [← hstrip, List.append_assoc, strip, ← hl, ← hbefore]
    refine ⟨lead, gap, rest, hlead, hgap, hwhole ▸ hregion, ?_⟩
    rw [← hstrip]
    exact (closed_strip before).mpr hclosed

/-- For every answer of the compiler, a solved candidate is about the goal it was asked exactly when it is not certified,
or it has no body, or it kept the goal's statement. -/
theorem solved_about_goal_iff (runner : LeanRunner) (policy : AxiomPolicy) (goal : Goal) (source : Text) :
    (∀ b, Solved runner policy source b → AboutGoal goal source b) ↔
      ¬Certified policy source (runner source) ∨ Bodiless source ∨ KeptStatement goal source := by
  constructor
  · intro h
    by_cases hcertified : Certified policy source (runner source)
    · cases hbody : proofBody source with
      | none => exact .inr (.inl (bodiless_iff.mpr hbody))
      | some b => exact .inr (.inr (keptStatement_iff.mpr (h b (solved_iff.mpr ⟨hcertified, hbody⟩)).opened))
    · exact .inl hcertified
  · rintro (hnot | hbodiless | hkept) b hsolved
    · exact absurd (solved_iff.mp hsolved).1 hnot
    · have hbody := (solved_iff.mp hsolved).2
      rw [bodiless_iff.mp hbodiless] at hbody
      cases hbody
    · refine ⟨keptStatement_iff.mp hkept, ?_⟩
      obtain ⟨lead, gap, rest, hlead, hgap, hregion, hclosed⟩ := hkept
      refine ⟨gap, rest, hgap, ?_, ?_⟩
      · have hbody := (solved_iff.mp hsolved).2
        have hcut : cutDefinition 0 (editRegion source) = some (lead ++ strip goal.statement ++ gap, rest) := by
          refine cutDefinition_eq_some.mpr ⟨hregion, ?_⟩
          rw [closedFrom_append_blank hgap, closedFrom_blank_append hlead]
          exact hclosed
        unfold proofBody at hbody
        rw [hcut] at hbody
        dsimp only at hbody
        split at hbody
        · cases hbody
        · exact Option.some.inj hbody
      · refine List.IsInfix.trans ⟨lead, [], ?_⟩ (editRegion_in source)
        rw [hregion]
        simp

def fermatGoal : Goal :=
  { id := 0, identity := "P".toList, statement := "theorem foo : P".toList }

def swappedCandidate : Text :=
  ("-- EDIT-REGION-BEGIN\ntheorem foo : True := trivial\n-- EDIT-REGION-END\n\n" ++
    "#print axioms foo\n").toList

theorem swapped_statement_solved : ¬ ∀ runner b, Solved runner {} swappedCandidate b → AboutGoal fermatGoal swappedCandidate b := by
  intro h
  have hbody : proofBody swappedCandidate = some " trivial".toList := by decide
  have hsolved : Solved (fun _ => .ok (0, noAxiomsReport (targetName swappedCandidate))) {}
      swappedCandidate " trivial".toList := solved_of_noAxioms hbody rfl
  have hopened : openedSignature swappedCandidate ≠ some (strip fermatGoal.statement) := by
    decide
  exact hopened (h _ _ hsolved).opened

end EvoHarness.Proof
