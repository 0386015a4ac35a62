import EvoHarness.Core.Agent.Messages
import EvoHarness.Core.GenomeEdits

/-! The gate in front of the grader: a proposal's workspace is built, captured again and validated, and what comes out
of that is stored. -/
namespace EvoHarness.Core.Preflight
open PyText Genome
open Agent (PreflightIssue)
open Hoare (bind_ok_iff)

def firsts : Tree → Tree
  | [] => []
  | f :: t => f :: (firsts t).filter (·.1 ≠ f.1)

theorem firsts_sublist (t : Tree) : (firsts t).Sublist t := by
  induction t with
  | nil => exact .slnil
  | cons f t ih => exact (List.filter_sublist.trans ih).cons_cons f

theorem firsts_once (t : Tree) : ((firsts t).map (·.1)).Nodup := by
  induction t with
  | nil => exact List.nodup_nil
  | cons f t ih =>
    rw [firsts, List.map_cons, List.nodup_cons]
    refine ⟨fun h => ?_, ih.sublist (List.filter_sublist.map _)⟩
    obtain ⟨g, hg, he⟩ := List.mem_map.mp h
    exact of_decide_eq_true (List.mem_filter.mp hg).2 he

theorem lookup_firsts (t : Tree) (p : Path) : lookup (firsts t) p = lookup t p := by
  induction t with
  | nil => rfl
  | cons f t ih =>
    rw [firsts, lookup_cons, lookup_cons, lookup_filter (fun q => decide (q ≠ f.1)), ih]
    by_cases hp : f.1 = p
    · simp [hp]
    · simp [hp, Ne.symm hp]

def listing (t : Tree) : Listing where
  entries := ((firsts t).filter fun f => parts (posix f.1) = f.1).map fun f => (f.1, .file f.2)
  spelled f hf := by
    obtain ⟨g, hg, rfl⟩ := List.mem_map.mp hf
    exact of_decide_eq_true (List.mem_filter.mp hg).2
  once := by
    rw [List.map_map]
    exact (firsts_once t).sublist (List.filter_sublist.map _)

/-- The paths of a directory are spelled as `pathlib` spells them. -/
def Spelled (t : Tree) : Prop := ∀ f ∈ t, parts (posix f.1) = f.1

/-- No file of the directory is hidden from the text tree, and none has a carriage return. -/
def Plain (t : Tree) : Prop := ∀ p x, lookup t p = some x → hidden p = false ∧ '\r' ∉ x

def captureFile (w : FileWorkspace) (source : Listing) : Except Fault FileWorkspace := do
  let texts ← readTextTree source.entries
  match texts.find? (posix ·.1 = w.filename) with
  | none => .error (.workspaceError ("main file '".toList ++ w.filename ++ "' missing after agent session".toList))
  | some f =>
    if texts.any (posix ·.1 ≠ w.filename) then
      .error (.workspaceError "single-file genome cannot capture extra files".toList)
    else return { w with code := f.2 }

def captureChild (git : Git) (w : Genome.Workspace) (source : Listing) : Except Fault Genome.Workspace :=
  match w with
  | .file w => (captureFile w source).map .file
  | .git w => (w.captureChild git source).map .git

structure PreflightResult where
  stage : Text
  issues : List PreflightIssue := []

structure PreflightReport where
  results : List PreflightResult := []

namespace PreflightReport

def issues (r : PreflightReport) : List PreflightIssue := r.results.flatMap (·.issues)

def ok (r : PreflightReport) : Bool := r.issues.isEmpty

def failedStage (r : PreflightReport) : Option Text := (r.results.find? (!·.issues.isEmpty)).map (·.stage)

end PreflightReport

structure PreflightContext where
  parent : Except Fault Genome.Workspace
  operator : Text
  workdir : Tree

/-- What `validate` comes to: an exception, a value of another type, or a result. -/
inductive Validated where
  | raised (typeName message : Text)
  | other (typeName : Text)
  | result (r : PreflightResult)

structure PreflightValidator where
  name : Text
  validate : PreflightContext → Validated

structure PreflightPipeline where
  validators : List PreflightValidator := []
  named : ∀ v ∈ validators, isBlank v.name = false
  unique : (validators.map (·.name)).Nodup

def quoted (name : Text) : Text := "'".toList ++ name ++ "'".toList

def validatorError (v : PreflightValidator) (message : Text) : PreflightResult where
  stage := v.name
  issues := [{ validator := v.name, code := "validator-error".toList, message, repairable := false }]

def runValidator (v : PreflightValidator) (ctx : PreflightContext) : PreflightResult :=
  match v.validate ctx with
  | .raised typeName message => validatorError v (typeName ++ ": ".toList ++ message)
  | .other typeName =>
    validatorError v ("TypeError: validate() must return PreflightResult, got ".toList ++ typeName)
  | .result r =>
    if r.stage = v.name then r
    else validatorError v ("ValueError: validator ".toList ++ quoted v.name ++ " returned stage ".toList ++ quoted r.stage)

def runFrom (ctx : PreflightContext) : List PreflightValidator → List PreflightResult
  | [] => []
  | v :: vs => if (runValidator v ctx).issues = [] then runValidator v ctx :: runFrom ctx vs else [runValidator v ctx]

def PreflightPipeline.run (p : PreflightPipeline) (ctx : PreflightContext) : PreflightReport := ⟨runFrom ctx p.validators⟩

def workspaceStage : Text := "workspace".toList

structure ProposalCheckResult where
  childWorkspace : Option Genome.Workspace
  report : PreflightReport
  present : report.ok = childWorkspace.isSome

def fail (code message : Text) : ProposalCheckResult where
  childWorkspace := none
  report := ⟨[⟨workspaceStage, [{ validator := workspaceStage, code, message }]⟩]⟩
  present := rfl

theorem ok_cons (report : PreflightReport) : (PreflightReport.mk (⟨workspaceStage, []⟩ :: report.results)).ok = report.ok := rfl

section
variable (git : Git)

def judge (pipeline : PreflightPipeline) (ctx : PreflightContext) (parent child : Genome.Workspace) : ProposalCheckResult :=
  if child.serialize = parent.serialize then
    fail "no-changes".toList "No changes were made to this workspace".toList
  else if h : (pipeline.run ctx).ok = true then
    ⟨some child, ⟨⟨workspaceStage, []⟩ :: (pipeline.run ctx).results⟩, (ok_cons _).trans h⟩
  else ⟨none, ⟨⟨workspaceStage, []⟩ :: (pipeline.run ctx).results⟩, (ok_cons _).trans (Bool.eq_false_iff.mpr h)⟩

/-- `ProposalPreflight.check`; it lets out every error but those of the workspace. -/
def check (pipeline : PreflightPipeline) (ctx : PreflightContext) : Except Fault ProposalCheckResult :=
  match ctx.parent with
  | .error (.workspaceError message) => .ok (fail "workspace-invalid".toList message)
  | .error .osError => .error .osError
  | .ok parent =>
    match captureChild git parent (listing ctx.workdir) with
    | .error (.workspaceError message) => .ok (fail "workspace-invalid".toList message)
    | .error .osError => .error .osError
    | .ok child => .ok (judge pipeline ctx parent child)

/-- `type(exc).__name__: exc`, where the text of an `OSError` is not kept. -/
def described : Fault → Text
  | .workspaceError message => "WorkspaceError: ".toList ++ message
  | .osError => "OSError: ".toList

def materializeError (message : Text) : PreflightReport :=
  ⟨[⟨workspaceStage,
    [{ validator := workspaceStage, code := "materialize-error".toList, message, repairable := false }]⟩]⟩

/-- `SearchLoop._run_admission_preflight`: the workspace that is stored, if any, and the report. -/
def runAdmissionPreflight (pipeline : Option PreflightPipeline) (parent : Except Fault Genome.Workspace) (operator : Text)
    (child : Genome.Workspace) (requireWorkspaceChange : Bool) : Option Genome.Workspace × Option PreflightReport :=
  match pipeline with
  | none => (some child, none)
  | some pipeline =>
    match child.materialize git with
    | .error f => (none, some (materializeError (described f)))
    | .ok workdir =>
      if requireWorkspaceChange = true then
        if pipeline.validators.any (·.name = workspaceStage) then
          (none, some (materializeError "ValueError: 'workspace' reserved for ProposalPreflight".toList))
        else
          match check git pipeline ⟨parent, operator, workdir⟩ with
          | .error f => (none, some (materializeError (described f)))
          | .ok checked => (checked.childWorkspace, some checked.report)
      else
        (if (pipeline.run ⟨parent, operator, workdir⟩).ok = true then some child else none,
          some (pipeline.run ⟨parent, operator, workdir⟩))

end

def Accepts (ctx : PreflightContext) (v : PreflightValidator) : Prop := v.validate ctx = .result ⟨v.name, []⟩

/-- Nothing raises, the captured child differs from its parent, and every validator accepts. -/
structure Accepted (git : Git) (pipeline : PreflightPipeline) (parent : Except Fault Genome.Workspace) (operator : Text)
    (child stored : Genome.Workspace) : Prop where
  unreserved : ∀ v ∈ pipeline.validators, v.name ≠ workspaceStage
  built : ∃ workdir own, child.materialize git = .ok workdir ∧ parent = .ok own ∧
    captureChild git own (listing workdir) = .ok stored ∧ stored.serialize ≠ own.serialize ∧
    ∀ v ∈ pipeline.validators, Accepts ⟨parent, operator, workdir⟩ v

/-- The texts that are stored, those of the proposal, and the directory that was validated are the same. -/
def SameAsChecked (git : Git) (child stored : Genome.Workspace) (workdir : Tree) : Prop :=
  ∃ own kept, child.texts git = .ok own ∧ stored.texts git = .ok kept ∧ Same kept own ∧ Same kept workdir

section
variable {git : Git} {pipeline : PreflightPipeline} {ctx : PreflightContext}

theorem runValidator_accepts (v : PreflightValidator) : (runValidator v ctx).issues = [] ↔ Accepts ctx v := by
  unfold runValidator Accepts
  cases h : v.validate ctx with
  | raised typeName message => exact iff_of_false (List.cons_ne_nil _ _) fun h => nomatch h
  | other typeName => exact iff_of_false (List.cons_ne_nil _ _) fun h => nomatch h
  | result r =>
    obtain ⟨stage, issues⟩ := r
    dsimp only
    split
    · next hstage =>
      subst hstage
      simp
    · next hstage =>
      refine iff_of_false (List.cons_ne_nil _ _) fun h => hstage ?_
      injection h with h
      injection h

theorem run_ok (pipeline : PreflightPipeline) : (pipeline.run ctx).ok = true ↔ ∀ v ∈ pipeline.validators, Accepts ctx v := by
  have hfrom (vs : List PreflightValidator) :
      (runFrom ctx vs).flatMap (·.issues) = [] ↔ ∀ v ∈ vs, Accepts ctx v := by
    induction vs with
    | nil => simp [runFrom]
    | cons v vs ih =>
      rw [runFrom, List.forall_mem_cons, ← runValidator_accepts v, ← ih]
      split
      · next h => simp [h]
      · next h => simp [h]
  rw [PreflightReport.ok, List.isEmpty_iff]
  exact hfrom pipeline.validators

theorem judge_child {parent child stored : Genome.Workspace} :
    (judge pipeline ctx parent child).childWorkspace = some stored ↔
      child = stored ∧ child.serialize ≠ parent.serialize ∧ ∀ v ∈ pipeline.validators, Accepts ctx v := by
  unfold judge
  rw [← run_ok]
  split
  · next h => simp [fail, h]
  · next h =>
    split
    · next hok => simp [h, hok]
    · next hok => simp [hok]

/-- A proposal is admitted exactly when it is accepted: whatever else happens on the way, nothing is stored. -/
theorem admitted_iff (git : Git) (pipeline : PreflightPipeline) (parent : Except Fault Genome.Workspace) (operator : Text)
    (child stored : Genome.Workspace) :
    (runAdmissionPreflight git (some pipeline) parent operator child true).1 = some stored ↔
      Accepted git pipeline parent operator child stored := by
  unfold runAdmissionPreflight
  dsimp only
  constructor
  · intro h
    split at h
    · exact nomatch h
    · next workdir hworkdir =>
      rw [if_pos rfl] at h
      split at h
      · exact nomatch h
      · next hname =>
        refine ⟨fun v hv hreserved => hname ?_, workdir, ?_⟩
        · exact List.any_eq_true.mpr ⟨v, hv, decide_eq_true hreserved⟩
        · unfold check at h
          dsimp only at h
          cases parent with
          | error f =>
            cases f with
            | workspaceError message => exact nomatch h
            | osError => exact nomatch h
          | ok own =>
            dsimp only at h
            cases hcapture : captureChild git own (listing workdir) with
            | error f =>
              rw [hcapture] at h
              cases f with
              | workspaceError message => exact nomatch h
              | osError => exact nomatch h
            | ok captured =>
              rw [hcapture] at h
              obtain ⟨rfl, hchanged, haccepts⟩ := judge_child.mp h
              exact ⟨own, hworkdir, rfl, hcapture, hchanged, haccepts⟩
  · rintro ⟨hname, workdir, own, hworkdir, rfl, hcapture, hchanged, haccepts⟩
    have hfree : (pipeline.validators.any fun v => decide (v.name = workspaceStage)) = false := by
      rw [List.any_eq_false]
      exact fun v hv => by simpa using hname v hv
    rw [hworkdir]
    dsimp only
    rw [if_pos rfl, if_neg (Bool.eq_false_iff.mp hfree), check]
    dsimp only
    rw [hcapture]
    exact judge_child.mpr ⟨rfl, hchanged, haccepts⟩

end

theorem readTextTree_files {files t : Tree} (h : readTextTree (files.map fun f => (f.1, .file f.2)) = .ok t) :
    t = (files.filter fun f => !hidden f.1).map fun f => (f.1, universalNewlines f.2) := by
  induction files generalizing t with
  | nil =>
    cases h
    rfl
  | cons f files ih =>
    rw [List.map_cons, readTextTree] at h
    split at h
    · next hhidden =>
      rw [List.filter_cons_of_neg (by simp [hhidden])]
      exact ih h
    · next hvisible =>
      obtain ⟨x, hx, h⟩ := bind_ok_iff.mp h
      obtain ⟨u, hu, h⟩ := bind_ok_iff.mp h
      cases h
      rw [List.filter_cons_of_pos (by simp [hvisible]), List.map_cons, ← ih hu]
      simp only [readEntry] at hx
      split at hx
      · cases hx
      · cases hx
        rfl

theorem filter_spelled {t : Tree} (h : Spelled t) : ((firsts t).filter fun f => parts (posix f.1) = f.1) = firsts t := by
  rw [List.filter_eq_self]
  exact fun f hf => decide_eq_true (h f ((firsts_sublist t).subset hf))

theorem lookup_captured {t current : Tree} (hspelled : Spelled t) (h : readTextTree (listing t).entries = .ok current)
    (p : Path) : lookup current p = if hidden p = true then none else (lookup t p).map universalNewlines := by
  have hcurrent := readTextTree_files h
  rw [filter_spelled hspelled] at hcurrent
  rw [hcurrent, lookup_map, lookup_filter (fun q => !hidden q), lookup_firsts]
  cases hidden p <;> simp

theorem universalNewlines_eq {x : Text} : universalNewlines x = x ↔ '\r' ∉ x :=
  ⟨fun h => h ▸ no_return_universalNewlines x, universalNewlines_of_no_return⟩

theorem captured_same_iff {t current : Tree} (hspelled : Spelled t) (h : readTextTree (listing t).entries = .ok current) :
    Same current t ↔ Plain t := by
  constructor
  · intro hsame p x hx
    have hp := hsame p
    rw [lookup_captured hspelled h, hx] at hp
    split at hp
    · exact nomatch hp
    · next hvisible =>
      refine ⟨Bool.eq_false_iff.mpr hvisible, universalNewlines_eq.mp ?_⟩
      exact Option.some.inj hp
  · intro hplain p
    rw [lookup_captured hspelled h]
    cases hp : lookup t p with
    | none => simp
    | some x =>
      obtain ⟨hvisible, hreturn⟩ := hplain p x hp
      simp [hvisible, universalNewlines_of_no_return hreturn]

theorem captureFile_ok {w stored : FileWorkspace} {t : Tree} (h : captureFile w (listing t) = .ok stored) :
    ∃ current, readTextTree (listing t).entries = .ok current ∧ Same stored.texts current ∧
      stored.filename = w.filename := by
  unfold captureFile at h
  obtain ⟨current, hcurrent, h⟩ := bind_ok_iff.mp h
  refine ⟨current, hcurrent, ?_⟩
  split at h
  · exact nomatch h
  · next f hf =>
    split at h
    · exact nomatch h
    · next hextra =>
      cases h
      refine ⟨?_, rfl⟩
      have hsub := (GitWorkspace.readTextTree_ok hcurrent).1
      have hnodup : (current.map (·.1)).Nodup := (listing t).once.sublist hsub
      have hall : ∀ g ∈ current, g.1 = parts w.filename := by
        intro g hg
        have hname : posix g.1 = w.filename := by
          by_contra hne
          exact hextra (List.any_eq_true.mpr ⟨g, hg, decide_eq_true hne⟩)
        obtain ⟨e, he, heq⟩ := List.mem_map.mp (hsub.subset (List.mem_map_of_mem hg))
        rw [← hname, ← heq]
        exact ((listing t).spelled e he).symm
      have hmem := List.mem_of_find?_eq_some hf
      have hone : current = [f] := by
        cases current with
        | nil => exact nomatch hmem
        | cons g rest =>
          cases rest with
          | nil => rw [List.mem_singleton.mp hmem]
          | cons g' rest =>
            have heq : g.1 = g'.1 :=
              (hall g List.mem_cons_self).trans (hall g' (List.mem_cons_of_mem g List.mem_cons_self)).symm
            exact absurd (List.mem_map.mpr ⟨g', List.mem_cons_self, heq.symm⟩) (List.nodup_cons.mp hnodup).1
      rw [hone]
      intro p
      rw [FileWorkspace.texts, lookup_cons, lookup_cons, ← hall f hmem]

theorem captured_ne_nil {git : Git} {w stored : Genome.Workspace} {t : Tree} (h : captureChild git w (listing t) = .ok stored) :
    t ≠ [] := by
  rintro rfl
  cases w with
  | file w => exact nomatch h
  | git w => exact nomatch h

theorem lookup_readTexts_plain {t : Tree} (h : Plain t) : Same (GitWorkspace.readTexts t) t := by
  intro p
  rw [lookup_readTexts]
  cases hp : lookup t p with
  | none => simp
  | some x =>
    obtain ⟨hvisible, hreturn⟩ := h p x hp
    simp [GitWorkspace.inGitDir_of_visible hvisible, universalNewlines_of_no_return hreturn]

theorem texts_of_plain {git : Git} {child : Genome.Workspace} {workdir : Tree} (h : child.materialize git = .ok workdir)
    (hfiles : workdir ≠ []) (hplain : Plain workdir) : ∃ own, child.texts git = .ok own ∧ Same own workdir := by
  cases child with
  | file w =>
    refine ⟨w.texts, rfl, ?_⟩
    have h : w.materialize = .ok workdir := h
    unfold FileWorkspace.materialize at h
    split at h
    · exact absurd (Except.ok.inj h).symm hfiles
    · split at h
      · cases h
        exact Same.refl _
      · exact nomatch h
  | git w =>
    obtain ⟨repo, hrepo, h⟩ := bind_ok_iff.mp h
    cases h
    exact ⟨_, GitWorkspace.texts_ok hrepo, lookup_readTexts_plain hplain⟩

/-- No file of the directory is in the git directory, and none has a carriage return. -/
def Readable (t : Tree) : Prop := ∀ p x, lookup t p = some x → inGitDir p = false ∧ '\r' ∉ x

section
variable {git : Git} {child stored : Genome.Workspace} {workdir : Tree}

theorem same_of_file {w : FileWorkspace} (hbuilt : child.materialize git = .ok workdir) (hspelled : Spelled workdir)
    (hcapture : captureChild git (.file w) (listing workdir) = .ok stored) :
    SameAsChecked git child stored workdir ↔ Plain workdir := by
  have hfiles := captured_ne_nil hcapture
  unfold captureChild at hcapture
  dsimp only at hcapture
  cases hfile : captureFile w (listing workdir) with
  | error f =>
    rw [hfile] at hcapture
    exact nomatch hcapture
  | ok s =>
    rw [hfile] at hcapture
    cases hcapture
    obtain ⟨current, hcurrent, hsame, -⟩ := captureFile_ok hfile
    rw [← captured_same_iff hspelled hcurrent]
    constructor
    · rintro ⟨own, kept, -, hkept, -, hworkdir⟩
      cases hkept
      exact hsame.symm.trans hworkdir
    · intro h
      obtain ⟨own, hown, htexts⟩ := texts_of_plain hbuilt hfiles ((captured_same_iff hspelled hcurrent).mp h)
      exact ⟨own, s.texts, hown, rfl, (hsame.trans h).trans htexts.symm, hsame.trans h⟩

theorem same_of_git (hgit : Exact git) {w : GitWorkspace} (hbuilt : child.materialize git = .ok workdir)
    (hspelled : Spelled workdir) (hcapture : captureChild git (.git w) (listing workdir) = .ok stored)
    (hplain : Plain workdir) (hrecorded : CaptureRecorded git w (listing workdir)) :
    SameAsChecked git child stored workdir := by
  obtain ⟨own, hown, htexts⟩ := texts_of_plain hbuilt (captured_ne_nil hcapture) hplain
  have hstored := GitWorkspace.capture_stored hgit hrecorded
  unfold CaptureStored at hstored
  unfold captureChild at hcapture
  dsimp only at hcapture
  cases hchild : w.captureChild git (listing workdir) with
  | error f =>
    rw [hchild] at hcapture
    exact nomatch hcapture
  | ok s =>
    rw [hchild] at hcapture hstored
    cases hcapture
    obtain ⟨current, after, hcurrent, hafter, hsame⟩ := hstored
    have hworkdir := hsame.trans ((captured_same_iff hspelled hcurrent).mpr hplain)
    exact ⟨own, after, hown, hafter, hworkdir.trans htexts.symm, hworkdir⟩

theorem readable_of_same {w : GitWorkspace} (hcapture : captureChild git (.git w) (listing workdir) = .ok stored)
    (h : SameAsChecked git child stored workdir) : Readable workdir := by
  unfold captureChild at hcapture
  dsimp only at hcapture
  cases hchild : w.captureChild git (listing workdir) with
  | error f =>
    rw [hchild] at hcapture
    exact nomatch hcapture
  | ok s =>
    rw [hchild] at hcapture
    cases hcapture
    obtain ⟨own, kept, -, hkept, -, hsame⟩ := h
    obtain ⟨repo, -, hrepo⟩ := bind_ok_iff.mp hkept
    cases hrepo
    intro p x hx
    have hp := hsame p
    rw [hx, lookup_readTexts] at hp
    split at hp
    · exact nomatch hp
    · next hout =>
      obtain ⟨y, -, rfl⟩ := Option.map_eq_some_iff.mp hp
      exact ⟨Bool.eq_false_iff.mpr hout, no_return_universalNewlines y⟩

end

/-- A proposal is admitted when it is built, captured, changed and accepted by every validator, and in no other case.
What is stored is then what was proposed and what was validated exactly when the directory is plain, for a single file;
for a git genome this is enough where git records the change, and no carriage return is stored in any case. -/
theorem admits_what_it_checked {git : Git} (hgit : Exact git) (pipeline : PreflightPipeline)
    (parent : Except Fault Genome.Workspace) (operator : Text) (child stored : Genome.Workspace) :
    ((runAdmissionPreflight git (some pipeline) parent operator child true).1 = some stored ↔
      Accepted git pipeline parent operator child stored) ∧
    ∀ workdir, (runAdmissionPreflight git (some pipeline) parent operator child true).1 = some stored →
      child.materialize git = .ok workdir → Spelled workdir →
      (∀ w, parent = .ok (.file w) → (SameAsChecked git child stored workdir ↔ Plain workdir)) ∧
      ∀ w, parent = .ok (.git w) →
        (Plain workdir → CaptureRecorded git w (listing workdir) → SameAsChecked git child stored workdir) ∧
        (SameAsChecked git child stored workdir → Readable workdir) := by
  refine ⟨admitted_iff git pipeline parent operator child stored, fun workdir hadmitted hbuilt hspelled => ?_⟩
  obtain ⟨-, workdir', own, hbuilt', hparent, hcapture, -⟩ := (admitted_iff git pipeline parent operator child stored).mp hadmitted
  obtain rfl := Except.ok.inj (hbuilt'.symm.trans hbuilt)
  constructor
  · intro w hw
    obtain rfl := Except.ok.inj (hparent.symm.trans hw)
    exact same_of_file hbuilt hspelled hcapture
  · intro w hw
    obtain rfl := Except.ok.inj (hparent.symm.trans hw)
    exact ⟨same_of_git hgit hbuilt hspelled hcapture, readable_of_same hcapture⟩

def gate : PreflightPipeline where
  validators := []
  named := fun _ h => nomatch h
  unique := List.nodup_nil

def single (code : Text) : Genome.Workspace := .file { code }

theorem single_admitted {code captured : Text} (hbuilt : (single code).materialize listingGit = .ok [(mainPath, code)])
    (hcapture : captureChild listingGit (single oneLine) (listing [(mainPath, code)]) = .ok (single captured))
    (hchanged : captured ≠ oneLine) :
    (runAdmissionPreflight listingGit (some gate) (.ok (single oneLine)) "rewrite".toList (single code) true).1 =
      some (single captured) := by
  refine (admitted_iff listingGit gate _ _ _ _).mpr ⟨fun v hv => (nomatch hv), _, _, hbuilt, rfl, hcapture, hchanged, ?_⟩
  exact fun v hv => nomatch hv

theorem spelled_main (code : Text) : Spelled [(mainPath, code)] := by
  intro f hf
  rw [List.mem_singleton.mp hf]
  exact (by decide : parts (posix mainPath) = mainPath)

theorem plain_admitted : SameAsChecked listingGit (single nineLine) (single nineLine) [(mainPath, nineLine)] :=
  ((((admits_what_it_checked listingGit_exact gate (.ok (single oneLine)) "rewrite".toList (single nineLine)
    (single nineLine)).2 [(mainPath, nineLine)] (single_admitted rfl rfl (by decide)) rfl (spelled_main nineLine)).1
      _ rfl).mpr fun p x hx => by
        obtain ⟨rfl, rfl⟩ := Prod.mk.inj (List.mem_singleton.mp (GitWorkspace.lookup_mem hx))
        exact ⟨by decide, by decide⟩)

/-- The carriage return is in the directory that is validated, and not in what is stored. -/
theorem return_admitted : ¬ ∀ (git : Git) (pipeline : PreflightPipeline) (parent : Except Fault Genome.Workspace)
    (operator : Text) (child stored : Genome.Workspace) (workdir : Tree), Exact git →
    (runAdmissionPreflight git (some pipeline) parent operator child true).1 = some stored →
    child.materialize git = .ok workdir → SameAsChecked git child stored workdir := by
  intro h
  obtain ⟨own, kept, -, hkept, -, hsame⟩ := h listingGit gate (.ok (single oneLine)) "rewrite".toList
    (single "x = 9\r\n".toList) (single nineLine) _ listingGit_exact (single_admitted rfl rfl (by decide)) rfl
  cases hkept
  exact absurd (hsame mainPath) (by decide)

end EvoHarness.Core.Preflight
