import EvoHarness.Assembly
import EvoHarness.AxiomReport

/-! Final re-verification: assemble, compile, and read the axiom report through the policy. -/
namespace EvoHarness.Proof
open PyText

structure AssemblyResult where
  ok : Bool
  reason : Text := []
  text : Text := []
  axioms : Finset Text := ∅
  trust : Text := []
  forbidden : Finset Text := ∅

namespace Store

/-- The declaration `#print axioms` should be asked about. -/
def rootName (s : Store) (i : GoalId) : Except AssemblyFault Text :=
  match s.goal i with
  | none => .error (.keyError ("no such goal: ".toList ++ idText i))
  | some g =>
    if assemblyName g.statement ≠ [] then .ok (assemblyName g.statement)
    else match (s.decompositionsOf i).findSome? (·.sketch) with
      | some k => .ok k.parentName
      | none => .error (.assemblyError ("goal ".toList ++ idText i ++
          " has no readable declaration name".toList))

/-- The file that is compiled: the assembled proof, and the question about its axioms. -/
def checkedText (s : Store) (i : GoalId) (routes : List DecompositionId) (preamble : Text) :
    Except AssemblyFault Text :=
  match assemble s i routes preamble with
  | .error e => .error e
  | .ok text =>
    match s.rootName i with
    | .error e => .error e
    | .ok name => .ok (rstrip text ++ "\n\n#print axioms ".toList ++ name ++ ['\n'])

end Store

def blockedReason (policy : AxiomPolicy) (axioms : Finset Text) : Text :=
  let unverified := AxiomPolicy.unverifiedNative axioms
  "the assembled proof depends on axioms outside the policy ".toList ++
    "(minimum_trust=".toList ++ policy.minimumTrust.value ++ "): ".toList ++
    sortedNames ", ".toList (policy.blocking axioms) ++
    (if unverified = ∅ then []
     else "; native_decide axioms need the verifier's content recheck and ".toList ++
      "a local compile cannot certify them: ".toList ++ sortedNames ", ".toList unverified)

def verdict (policy : AxiomPolicy) (text : Text) (axioms : Finset Text) : AssemblyResult :=
  let trust := (AxiomPolicy.classify axioms).value
  let forbidden := policy.blocking axioms
  if forbidden ≠ ∅ then
    { ok := false, reason := blockedReason policy axioms, text, axioms, trust, forbidden }
  else { ok := true, text, axioms, trust }

def verify (s : Store) (i : GoalId) (runner : LeanRunner) (routes : List DecompositionId)
    (policy : AxiomPolicy) (preamble : Text) : Except AssemblyFault AssemblyResult :=
  match s.goal i with
  | none => .error (.keyError ("no such goal: ".toList ++ idText i))
  | some _ =>
    match s.checkedText i routes preamble, s.rootName i with
    | .error e, _ => .error e
    | .ok _, .error e => .error e
    | .ok text, .ok name =>
      match runner text with
      | .error message => .error (.assemblyError ("could not run the final check: ".toList ++ message))
      | .ok (returncode, output) =>
        if returncode ≠ 0 then
          let errors := join ['\n'] (errorLines output)
          .ok
            { ok := false, text
              reason := ("the assembled proof does not compile -- the per-node greens ".toList ++
                "did not survive being put together:\n".toList ++
                (if errors = [] then output else errors)).take 4000 }
        else
          match reportedAxioms output name with
          | none => .ok { ok := false, text, reason := "no `#print axioms ".toList ++ name ++ "` output".toList }
          | some axioms => .ok (verdict policy text axioms)

theorem verdict_ok_iff {policy : AxiomPolicy} {text : Text} {axioms : Finset Text} :
    (verdict policy text axioms).ok = true ↔ policy.blocking axioms = ∅ := by
  unfold verdict
  by_cases h : policy.blocking axioms = ∅
  · simp only [h, ne_eq, not_true, if_false]
  · simp only [h, ne_eq, not_false_eq_true, if_true, Bool.false_eq_true]

theorem grade_solved_iff {runner : LeanRunner} {policy : AxiomPolicy} {source output : Text}
    (h : runner source = .ok (0, output)) :
    (∃ g, grade runner policy (some source) = .ok g ∧ g.fitness = 1) ↔
      policy.blocking (gradedAxioms output (targetName source)) = ∅ ∧
        AxiomPolicy.unverifiedNative (gradedAxioms output (targetName source)) = ∅ := by
  have hreport : (gradeReport policy (targetName source) output
      (gradedAxioms output (targetName source))).fitness = 1 ↔ _ := gradeReport_solved_iff
  rw [grade_compiled h, ← hreport]
  constructor
  · intro hg
    obtain ⟨g, hg, hone⟩ := hg
    rw [Except.ok.inj hg]
    exact hone
  · intro hone
    exact ⟨_, rfl, hone⟩

/-- The grader and the final check read the policy alike, except where the floor is
`claimed`: there the check lets an unverified native_decide axiom pass, the grader does not. -/
theorem graded_alike_iff (runner : LeanRunner) (policy : AxiomPolicy) (source output text : Text)
    (h : runner source = .ok (0, output)) :
    (((∃ g, grade runner policy (some source) = .ok g ∧ g.fitness = 1) ↔
        (verdict policy text (gradedAxioms output (targetName source))).ok = true) ∧
      ((∃ g, grade runner policy (some source) = .ok g ∧ g.fitness = 1) →
        policy.accepts (AxiomPolicy.classify (gradedAxioms output (targetName source))) = true)) ↔
      ¬(policy.minimumTrust = .claimed ∧ sorryName ∉ gradedAxioms output (targetName source) ∧
        ∃ a ∈ gradedAxioms output (targetName source), isNativeDecideAxiom a = true) := by
  rw [grade_solved_iff h, verdict_ok_iff, AxiomPolicy.accepts_classify_iff]
  generalize gradedAxioms output (targetName source) = axioms
  have hnative : (∃ a ∈ axioms, isNativeDecideAxiom a = true) ↔ AxiomPolicy.unverifiedNative axioms ≠ ∅ := by
    simp [AxiomPolicy.unverifiedNative, Finset.filter_eq_empty_iff, noRecheck]
  rw [hnative]
  constructor
  · intro h hclaimed
    obtain ⟨hm, hplaceholder, hunverified⟩ := hclaimed
    have hb : policy.blocking axioms noRecheck = ∅ := AxiomPolicy.blocking_claimed hm hplaceholder
    exact hunverified (h.1.mpr hb).2
  · intro h
    refine ⟨⟨fun hs => hs.1, fun hb => ⟨hb, ?_⟩⟩, fun hs => hs.1⟩
    by_contra hunverified
    have hplaceholder : sorryName ∉ axioms := fun hs => AxiomPolicy.sorry_blocks hs hb
    have hm : policy.minimumTrust ≠ .claimed := fun hm => h ⟨hm, hplaceholder, hunverified⟩
    have hsubset : AxiomPolicy.unverifiedNative axioms noRecheck ⊆ policy.blocking axioms noRecheck :=
      AxiomPolicy.unverified_subset_blocking hm
    rw [hb] at hsubset
    exact hunverified (Finset.subset_empty.mp hsubset)

def nativeCandidate : Text :=
  ("-- EDIT-REGION-BEGIN\ntheorem foo : P := by native_decide\n-- EDIT-REGION-END\n\n" ++
    "#print axioms foo\n").toList

def nativeName : Text := "foo._native.native_decide.ax_1".toList

def nativeReport : Text := "'foo' depends on axioms: [".toList ++ nativeName ++ "]\n".toList

theorem nativeReport_read : gradedAxioms nativeReport (targetName nativeCandidate) = {nativeName} := by
  decide +kernel

theorem graded_alike_iff_native :
    (((∃ g, grade (fun _ => .ok (0, nativeReport)) {} (some nativeCandidate) = .ok g ∧ g.fitness = 1) ↔
        (verdict {} [] (gradedAxioms nativeReport (targetName nativeCandidate))).ok = true) ∧
      ((∃ g, grade (fun _ => .ok (0, nativeReport)) {} (some nativeCandidate) = .ok g ∧ g.fitness = 1) →
        AxiomPolicy.accepts {} (AxiomPolicy.classify
          (gradedAxioms nativeReport (targetName nativeCandidate))) = true)) ↔
      ¬(Trust.audited = .claimed ∧ sorryName ∉ gradedAxioms nativeReport (targetName nativeCandidate) ∧
        ∃ a ∈ gradedAxioms nativeReport (targetName nativeCandidate), isNativeDecideAxiom a = true) :=
  graded_alike_iff (fun _ => .ok (0, nativeReport)) {} nativeCandidate nativeReport [] rfl

theorem native_graded_apart :
    ¬(((∃ g, grade (fun _ => .ok (0, nativeReport)) { minimumTrust := .claimed } (some nativeCandidate) =
          .ok g ∧ g.fitness = 1) ↔
        (verdict { minimumTrust := .claimed } []
          (gradedAxioms nativeReport (targetName nativeCandidate))).ok = true) ∧
      ((∃ g, grade (fun _ => .ok (0, nativeReport)) { minimumTrust := .claimed } (some nativeCandidate) =
          .ok g ∧ g.fitness = 1) →
        AxiomPolicy.accepts { minimumTrust := .claimed } (AxiomPolicy.classify
          (gradedAxioms nativeReport (targetName nativeCandidate))) = true)) := by
  have hnative : isNativeDecideAxiom nativeName = true := by decide
  have hplaceholder : sorryName ≠ nativeName := by decide
  intro h
  rw [grade_solved_iff rfl, nativeReport_read] at h
  have hok : (verdict { minimumTrust := .claimed } [] {nativeName}).ok = true := by
    rw [verdict_ok_iff]
    exact AxiomPolicy.blocking_claimed rfl (by simpa using hplaceholder)
  have hsolved := (h.1.mpr hok).2
  have hmem : nativeName ∈ AxiomPolicy.unverifiedNative {nativeName} := by
    simp [AxiomPolicy.unverifiedNative, hnative, noRecheck]
  rw [hsolved] at hmem
  simp at hmem

end EvoHarness.Proof
