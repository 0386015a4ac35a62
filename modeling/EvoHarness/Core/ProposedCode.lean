import EvoHarness.Core.Preflight

/-! What a proposal says its program is, and the workspace that the loop admits for it. -/
namespace EvoHarness.Core.ProposedCode
open PyText Genome Preflight
open Hoare (bind_ok_iff)

/-- The value in `proposal.code`: a text, or the method `main_text` of a workspace that was not called. -/
inductive Code where
  | text (t : Text)
  | mainText (w : Genome.Workspace)

structure Proposal where
  code : Code
  title : Text := []
  summary : Text := []
  model : Text := []
  workspace : Option Genome.Workspace := none

/-- Where a proposal comes from. The child of a session, agentic or conversational, is what the check of the session
captured of its directory. -/
inductive Lane where
  | patch (newCode : Text)
  | files (edits : List (Text × Text))
  | session (pipeline : PreflightPipeline) (workdir : Tree)
  | merge

def Lane.isMerge : Lane → Bool
  | .merge => true
  | _ => false

def withFiles (git : Git) (w : Genome.Workspace) (edits : List (Text × Text)) : Except Fault Genome.Workspace :=
  match w with
  | .file w => (w.withFiles edits).map .file
  | .git w => (w.withFiles git edits).map .git

def withMainText (git : Git) (w : Genome.Workspace) (newText : Text) : Except Fault Genome.Workspace :=
  match w with
  | .file w => (w.withMainText newText).map .file
  | .git w => (w.withMainText git newText).map .git

section
variable (git : Git) (pipeline : Option PreflightPipeline) (parent : Genome.Workspace) (operator : Text)

def ofChild (child : Genome.Workspace) : Except Fault Proposal := do
  let code ← child.mainText git
  return { code := .text code, workspace := some child }

/-- The proposal of a lane, or `none` where it has none. For a merge the parent is the base, and its `main_text` is
handed over without a call. -/
def propose : Lane → Except Fault (Option Proposal)
  | .patch newCode => .ok (some { code := .text newCode })
  | .files edits => do
    let child ← withFiles git parent edits
    let own ← child.texts git
    let old ← parent.texts git
    if sameFiles own old = true then return none else some <$> ofChild git child
  | .session checks workdir => do
    let checked ← check git checks ⟨.ok parent, operator, workdir⟩
    match checked.childWorkspace with
    | some child => some <$> ofChild git child
    | none => return none
  | .merge => .ok (some { code := .mainText parent, model := "(state-merge)".toList, workspace := some parent })

/-- `proposal.workspace or parent.workspace.with_main_text(proposal.code)`. A method without a workspace comes from no
lane. -/
def childOf (p : Proposal) : Except Fault Genome.Workspace :=
  match p.workspace, p.code with
  | some child, _ => .ok child
  | none, .text t => withMainText git parent t
  | none, .mainText _ => .error .osError

def admission (lane : Lane) (p : Proposal) : Except Fault (Option Genome.Workspace) := do
  let child ← childOf git parent p
  return (runAdmissionPreflight git pipeline (.ok parent) operator child !lane.isMerge).1

def listed (texts : Tree) : Text :=
  join ['\n'] ((texts.mergeSort fun a b => posix a.1 ≤ posix b.1).map fun f => "# ".toList ++ posix f.1 ++ '\n' :: f.2)

def noveltyText (w : Genome.Workspace) (fallback : Code) : Code :=
  match w.texts git with
  | .error _ => fallback
  | .ok [] => fallback
  | .ok texts => .text (listed texts)

inductive RejectionKind where
  | preflight
  | novelty
deriving DecidableEq

structure RejectionEvent where
  kind : RejectionKind
  parent : Genome.Workspace
  proposalCode : Code
  proposalWorkspace : Option Genome.Workspace
  changeTitle : Text

inductive Absorbed where
  | rejected (event : RejectionEvent)
  | candidate (code workspaceKind : Text)

def absorb (accepts : Option (Code → Bool)) (lane : Lane) (p : Proposal) : Except Fault Absorbed := do
  match ← admission git pipeline parent operator lane p with
  | none => return .rejected ⟨.preflight, parent, p.code, p.workspace, p.title⟩
  | some stored =>
    if lane.isMerge = false ∧ accepts.any (fun accepts => !accepts (noveltyText git stored p.code)) = true then
      return .rejected ⟨.novelty, parent, p.code, p.workspace, p.title⟩
    else return .candidate stored.serialize stored.kind

/-- What the summary of a change is made of: nothing, patches, or the lines before and after. -/
inductive Reading where
  | nothing
  | patches (new : List Text)
  | lines (before after : List Text)

inductive ObserverFault where
  | attributeError

/-- `_describe_proposal`: the code is read only where the workspaces are not both git's. A method has no `splitlines`. -/
def describeProposal (workspace : Option Genome.Workspace) (code : Code) : Except ObserverFault Reading :=
  match workspace, parent with
  | some (.git w), .git pw => .ok (.patches (w.patches.drop pw.patches.length))
  | _, _ =>
    match parent.mainText git, code with
    | .error _, _ => .ok .nothing
    | .ok a, .text b => .ok (if splitlines a = splitlines b then .nothing else .lines (splitlines a) (splitlines b))
    | .ok _, .mainText _ => .error .attributeError

/-- What the observer of rejections reads of an event besides its texts: the change, of a novelty rejection only. -/
def onProposalRejected (event : RejectionEvent) : Except ObserverFault (Option Reading) :=
  match event.kind with
  | .novelty => (describeProposal git event.parent event.proposalWorkspace event.proposalCode).map some
  | .preflight => .ok none

end

def Describes (git : Git) (code : Code) (stored : Genome.Workspace) : Prop :=
  ∃ t, code = .text t ∧ stored.mainText git = .ok t

/-- A text that the novelty gate can be given for a workspace: the listing of its files, or its main text. -/
def Judges (git : Git) (text : Code) (stored : Genome.Workspace) : Prop :=
  Describes git text stored ∨ ∃ texts, stored.texts git = .ok texts ∧ text = .text (listed texts)

/-- An outcome that is about the admitted workspace: the candidate is that workspace, or the event of a novelty rejection
describes it, and so does all that the gate and the observer read. -/
def Absorbed.About (git : Git) (accepts : Option (Code → Bool)) (stored : Genome.Workspace) : Absorbed → Prop
  | .candidate code workspaceKind => code = stored.serialize ∧ workspaceKind = stored.kind ∧
      ∀ accept ∈ accepts, ∃ text, accept text = true ∧ Judges git text stored
  | .rejected event => event.kind = .novelty ∧ Describes git event.proposalCode stored ∧
      (∀ w ∈ event.proposalWorkspace, Describes git event.proposalCode w) ∧
      (∃ accept ∈ accepts, ∃ text, accept text = false ∧ Judges git text stored) ∧
      ∀ before after, onProposalRejected git event = .ok (some (.lines before after)) →
        ∃ t, stored.mainText git = .ok t ∧ after = splitlines t

structure OneProgram (git : Git) (pipeline : Option PreflightPipeline) (parent : Genome.Workspace) (operator : Text)
    (accepts : Option (Code → Bool)) (lane : Lane) (p : Proposal) (stored : Genome.Workspace) : Prop where
  code : Describes git p.code stored
  outcome : ∃ absorbed, absorb git pipeline parent operator accepts lane p = .ok absorbed ∧
    absorbed.About git accepts stored

/-- What is asked of git for a parent that it keeps: it records the change of a patched main file, and the change of the
directory that is captured again. -/
structure Kept (git : Git) (pipeline : Option PreflightPipeline) (w : GitWorkspace) (lane : Lane) (child : Genome.Workspace) :
    Prop where
  edited : ∀ newCode, lane = .patch newCode → EditsRecorded git w [(w.mainFile, newCode)]
  captured : pipeline.isSome = true → ∀ workdir, child.materialize git = .ok workdir →
    Spelled workdir ∧ CaptureRecorded git w (listing workdir)

section
variable {git : Git} {pipeline : Option PreflightPipeline} {parent child stored : Genome.Workspace} {operator : Text}

/-- A merge that is rejected is rejected by the preflight: the novelty gate does not see it. -/
theorem merge_not_judged {accepts : Option (Code → Bool)} {p : Proposal} {e : RejectionEvent}
    (h : absorb git pipeline parent operator accepts .merge p = .ok (.rejected e)) : e.kind = .preflight := by
  obtain ⟨admitted, -, h⟩ := bind_ok_iff.mp h
  cases admitted with
  | none =>
    cases h
    rfl
  | some stored =>
    dsimp only at h
    rw [if_neg (fun hgate => Bool.noConfusion hgate.1)] at h
    exact nomatch h

theorem judges_noveltyText {code : Code} (h : Describes git code stored) : Judges git (noveltyText git stored code) stored := by
  unfold noveltyText
  cases htexts : stored.texts git with
  | error f => exact .inl h
  | ok texts =>
    cases texts with
    | nil => exact .inl h
    | cons f texts => exact .inr ⟨f :: texts, htexts, rfl⟩

theorem describeProposal_text {workspace : Option Genome.Workspace} {t : Text} :
    ∃ reading, describeProposal git parent workspace (.text t) = .ok reading ∧
      ∀ before after, reading = .lines before after → after = splitlines t := by
  unfold describeProposal
  split
  · exact ⟨_, rfl, fun _ _ h => nomatch h⟩
  · cases parent.mainText git with
    | error f => exact ⟨_, rfl, fun _ _ h => nomatch h⟩
    | ok a =>
      refine ⟨_, rfl, fun before after h => ?_⟩
      split at h
      · cases h
      · cases h
        rfl

/-- No rejection raises in the observer, that of a merge included: the code is read of novelty rejections only, and those
are about texts. -/
theorem rejected_read {accepts : Option (Code → Bool)} {lane : Lane} {p : Proposal} {event : RejectionEvent}
    (hcode : lane.isMerge = false → ∃ t, p.code = .text t)
    (h : absorb git pipeline parent operator accepts lane p = .ok (.rejected event)) :
    ∃ reading, onProposalRejected git event = .ok reading := by
  cases hlane : lane.isMerge with
  | true =>
    cases lane with
    | merge => exact ⟨none, by rw [onProposalRejected, merge_not_judged h]⟩
    | _ => cases hlane
  | false =>
    obtain ⟨t, ht⟩ := hcode hlane
    obtain ⟨admitted, -, h⟩ := bind_ok_iff.mp h
    cases admitted with
    | none =>
      cases h
      exact ⟨none, rfl⟩
    | some stored =>
      dsimp only at h
      split at h
      · cases h
        obtain ⟨reading, hreading, -⟩ := @describeProposal_text git parent p.workspace t
        refine ⟨some reading, ?_⟩
        rw [onProposalRejected, ht, hreading]
        rfl
      · cases h

theorem absorb_admitted {accepts : Option (Code → Bool)} {lane : Lane} {p : Proposal}
    (hadmitted : admission git pipeline parent operator lane p = .ok (some stored)) :
    absorb git pipeline parent operator accepts lane p =
      if lane.isMerge = false ∧ accepts.any (fun accepts => !accepts (noveltyText git stored p.code)) = true then
        .ok (.rejected ⟨.novelty, parent, p.code, p.workspace, p.title⟩)
      else .ok (.candidate stored.serialize stored.kind) := by
  unfold absorb
  rw [hadmitted]
  rfl

theorem oneProgram_iff {accepts : Option (Code → Bool)} {lane : Lane} {p : Proposal} {t : Text}
    (hlane : lane.isMerge = false) (hcode : p.code = .text t) (hown : ∀ w ∈ p.workspace, Describes git p.code w)
    (hadmitted : admission git pipeline parent operator lane p = .ok (some stored)) :
    OneProgram git pipeline parent operator accepts lane p stored ↔ Describes git p.code stored := by
  refine ⟨OneProgram.code, fun h => ⟨h, ?_⟩⟩
  rw [absorb_admitted hadmitted]
  split
  · next hgate =>
    refine ⟨_, rfl, rfl, h, hown, ?_, fun before after hread => ?_⟩
    · cases accepts with
      | none => simp at hgate
      | some accept => exact ⟨accept, rfl, _, by simpa using hgate.2, judges_noveltyText h⟩
    · obtain ⟨reading, hreading, hlines⟩ := @describeProposal_text git parent p.workspace t
      rw [onProposalRejected, hcode, hreading] at hread
      obtain ⟨t', ht', hmain⟩ := h
      cases hcode.symm.trans ht'
      exact ⟨t, hmain, hlines before after (Option.some.inj (Except.ok.inj hread))⟩
  · next hgate =>
    refine ⟨_, rfl, rfl, rfl, fun accept haccept => ⟨_, ?_, judges_noveltyText h⟩⟩
    cases haccept
    simpa [hlane] using hgate

theorem mem_lookup {t : Tree} (h : (t.map (·.1)).Nodup) {f : Path × Text} (hf : f ∈ t) : lookup t f.1 = some f.2 := by
  induction t with
  | nil => exact nomatch hf
  | cons g t ih =>
    obtain ⟨hnew, hrest⟩ := List.nodup_cons.mp h
    rw [lookup_cons]
    rcases List.mem_cons.mp hf with rfl | hf
    · rw [if_pos rfl]
    · rw [if_neg (fun he => hnew (List.mem_map.mpr ⟨f, hf, he.symm⟩)), ih hrest hf]

theorem captureFile_reads {w s : FileWorkspace} {t : Tree} (h : captureFile w (listing t) = .ok s) :
    ∃ x, lookup t (parts w.filename) = some x ∧ s = { w with code := universalNewlines x } := by
  unfold captureFile at h
  obtain ⟨current, hcurrent, h⟩ := bind_ok_iff.mp h
  split at h
  · exact nomatch h
  · next f hf =>
    split at h
    · exact nomatch h
    · cases h
      have hname : posix f.1 = w.filename := by simpa using List.find?_some hf
      have hmem := List.mem_of_find?_eq_some hf
      rw [readTextTree_files hcurrent] at hmem
      obtain ⟨g, hg, rfl⟩ := List.mem_map.mp hmem
      obtain ⟨hfirst, hspelled⟩ := List.mem_filter.mp (List.mem_filter.mp hg).1
      refine ⟨g.2, ?_, rfl⟩
      rw [← hname, of_decide_eq_true hspelled, ← lookup_firsts]
      exact mem_lookup (firsts_once t) hfirst

theorem withFiles_filename {w c : FileWorkspace} {edits : List (Text × Text)} (h : w.withFiles edits = .ok c) :
    c.filename = w.filename := by
  unfold FileWorkspace.withFiles at h
  split at h
  · exact nomatch h
  · cases h
    rfl

theorem withMainText_file (git : Git) (w : FileWorkspace) (t : Text) :
    withMainText git (.file w) t = .ok (.file { w with code := t }) := by
  simp [withMainText, FileWorkspace.withMainText, FileWorkspace.withFiles, Except.map]

theorem admitted_file {gate : PreflightPipeline} {w c : FileWorkspace} (hname : c.filename = w.filename)
    (h : (runAdmissionPreflight git (some gate) (.ok (.file w)) operator (.file c) true).1 = some stored) :
    stored = .file { w with code := universalNewlines c.code } := by
  obtain ⟨-, workdir, own, hbuilt, hown, hcapture, -⟩ := (admitted_iff _ _ _ _ _ _).mp h
  cases hown
  have hfiles := captured_ne_nil hcapture
  unfold captureChild at hcapture
  dsimp only at hcapture
  cases hfile : captureFile w (listing workdir) with
  | error f =>
    rw [hfile] at hcapture
    cases hcapture
  | ok s =>
    rw [hfile] at hcapture
    cases hcapture
    obtain ⟨x, hx, rfl⟩ := captureFile_reads hfile
    have hbuilt : c.materialize = .ok workdir := hbuilt
    unfold FileWorkspace.materialize at hbuilt
    split at hbuilt
    · exact absurd (Except.ok.inj hbuilt).symm hfiles
    · split at hbuilt
      · cases hbuilt
        rw [FileWorkspace.texts, lookup_cons, if_pos (congrArg parts hname)] at hx
        have hcode : c.code = x := Option.some.inj hx
        rw [hcode]
      · cases hbuilt

theorem mainText_git {w : GitWorkspace} {t : Text} : w.mainText git = .ok t ↔
    ∃ repo x, w.materialize git = .ok repo ∧ lookup repo.files (parts w.mainFile) = some x ∧ universalNewlines x = t := by
  unfold GitWorkspace.mainText
  rw [bind_ok_iff]
  constructor
  · rintro ⟨repo, hrepo, h⟩
    split at h
    · next x hx =>
      cases h
      exact ⟨repo, x, hrepo, hx, rfl⟩
    · exact nomatch h
  · rintro ⟨repo, x, hrepo, hx, rfl⟩
    refine ⟨repo, hrepo, ?_⟩
    rw [hx]
    rfl

theorem mainText_of_texts {w : GitWorkspace} {after : Tree} {t : Text} (h : w.texts git = .ok after)
    (ht : lookup after (parts w.mainFile) = some t) : w.mainText git = .ok t := by
  obtain ⟨repo, hrepo, h⟩ := bind_ok_iff.mp h
  cases h
  rw [lookup_readTexts] at ht
  split at ht
  · exact nomatch ht
  · obtain ⟨x, hx, rfl⟩ := Option.map_eq_some_iff.mp ht
    exact mainText_git.mpr ⟨repo, x, hrepo, hx, rfl⟩

theorem captureChild_mainFile {w s : GitWorkspace} {source : Listing} (h : w.captureChild git source = .ok s) :
    s.mainFile = w.mainFile ∧ ∃ current f, readTextTree source.entries = .ok current ∧ f ∈ current ∧
      posix f.1 = w.mainFile := by
  unfold GitWorkspace.captureChild at h
  obtain ⟨current, hcurrent, h⟩ := bind_ok_iff.mp h
  split at h
  · exact nomatch h
  · next hmain =>
    simp only [List.all_eq_true, decide_eq_true_eq, not_forall, not_not] at hmain
    obtain ⟨f, hf, hname⟩ := hmain
    refine ⟨?_, current, f, hcurrent, hf, hname⟩
    obtain ⟨clean, -, h⟩ := bind_ok_iff.mp h
    obtain ⟨parent, -, h⟩ := bind_ok_iff.mp h
    split at h
    · cases h
      rfl
    · obtain ⟨files, -, h⟩ := bind_ok_iff.mp h
      dsimp only at h
      split at h
      · exact nomatch h
      · cases h
        rfl

theorem admitted_git {gate : PreflightPipeline} {w c : GitWorkspace} {t : Text} (hgit : Exact git)
    (hname : c.mainFile = w.mainFile) (hcode : c.mainText git = .ok t)
    (hkept : ∀ workdir, (Genome.Workspace.git c).materialize git = .ok workdir →
      Spelled workdir ∧ CaptureRecorded git w (listing workdir))
    (h : (runAdmissionPreflight git (some gate) (.ok (.git w)) operator (.git c) true).1 = some stored) :
    stored.mainText git = .ok t := by
  obtain ⟨-, workdir, own, hbuilt, hown, hcapture, -⟩ := (admitted_iff _ _ _ _ _ _).mp h
  cases hown
  obtain ⟨hspelled, hrecorded⟩ := hkept workdir hbuilt
  have hstored := GitWorkspace.capture_stored hgit hrecorded
  unfold CaptureStored at hstored
  unfold captureChild at hcapture
  dsimp only at hcapture
  cases hchild : w.captureChild git (listing workdir) with
  | error f =>
    rw [hchild] at hcapture
    exact nomatch hcapture
  | ok s =>
    rw [hchild] at hcapture hstored
    cases hcapture
    obtain ⟨current, after, hcurrent, hafter, hsame⟩ := hstored
    obtain ⟨hmain, current', f, hcurrent', hf, hposix⟩ := captureChild_mainFile hchild
    obtain rfl := Except.ok.inj (hcurrent'.symm.trans hcurrent)
    -- the main file is in the directory, and not hidden
    obtain ⟨e, he, hpath⟩ :=
      List.mem_map.mp ((GitWorkspace.readTextTree_ok hcurrent).1.subset (List.mem_map_of_mem hf))
    have hparts : parts w.mainFile = f.1 := by
      rw [← hposix, ← hpath]
      exact (listing workdir).spelled e he
    have hvisible := ((GitWorkspace.readTextTree_ok hcurrent).2 f hf).1
    obtain ⟨repo, x, hrepo, hx, rfl⟩ := mainText_git.mp hcode
    obtain ⟨repo', hrepo', hworkdir⟩ := bind_ok_iff.mp hbuilt
    obtain rfl := Except.ok.inj (hrepo'.symm.trans hrepo)
    cases hworkdir
    have hread : lookup after (parts s.mainFile) = some (universalNewlines x) := by
      rw [hsame, lookup_captured hspelled hcurrent, hmain, hparts, if_neg (Bool.eq_false_iff.mp hvisible), ← hparts,
        ← hname, hx]
      rfl
    exact mainText_of_texts hafter hread

theorem withFiles_mainFile {w c : GitWorkspace} {edits : List (Text × Text)} (h : w.withFiles git edits = .ok c) :
    c.mainFile = w.mainFile := by
  obtain ⟨work, files, -, -, rfl⟩ := GitWorkspace.withFiles_ok h
  split <;> rfl

theorem mainText_edited {w c : GitWorkspace} {t : Text} (hgit : Exact git)
    (hedit : EditsRecorded git w [(w.mainFile, t)]) (h : w.withMainText git t = .ok c) : c.mainText git = .ok t := by
  have hstored := GitWorkspace.edits_stored hgit hedit
  unfold EditsStored at hstored
  have hfiles : w.withFiles git [(w.mainFile, t)] = .ok c := h
  rw [hfiles] at hstored
  obtain ⟨before, after, -, hafter, hsame⟩ := hstored
  refine mainText_of_texts hafter ?_
  rw [withFiles_mainFile hfiles, hsame]
  change lookup (put before (parts w.mainFile) t) (parts w.mainFile) = some t
  rw [lookup_put, if_pos rfl]

theorem mainText_plain {w : GitWorkspace} {t : Text} (h : w.mainText git = .ok t) : '\r' ∉ t := by
  obtain ⟨repo, x, -, -, rfl⟩ := mainText_git.mp h
  exact no_return_universalNewlines x

theorem ofChild_ok {p : Proposal} (h : ofChild git child = .ok p) :
    ∃ t, child.mainText git = .ok t ∧ p = { code := .text t, workspace := some child } := by
  obtain ⟨t, ht, h⟩ := bind_ok_iff.mp h
  cases h
  exact ⟨t, ht, rfl⟩

theorem some_ofChild_ok {p : Proposal} (h : some <$> ofChild git child = .ok (some p)) : ofChild git child = .ok p := by
  cases hof : ofChild git child with
  | error f =>
    rw [hof] at h
    exact nomatch h
  | ok q =>
    rw [hof] at h
    exact congrArg Except.ok (Option.some.inj (Except.ok.inj h))

theorem check_captured {checks : PreflightPipeline} {workdir : Tree} {checked : ProposalCheckResult}
    (h : check git checks ⟨.ok parent, operator, workdir⟩ = .ok checked) (hchild : checked.childWorkspace = some child) :
    captureChild git parent (listing workdir) = .ok child := by
  unfold check at h
  dsimp only at h
  cases hcapture : captureChild git parent (listing workdir) with
  | error f =>
    rw [hcapture] at h
    cases f with
    | workspaceError message =>
      cases h
      exact nomatch hchild
    | osError => exact nomatch h
  | ok captured =>
    rw [hcapture] at h
    cases h
    exact congrArg Except.ok (judge_child.mp hchild).1

/-- Where a proposal that is no merge comes from: its child was made or captured, and is the workspace of the proposal;
or it is a new main text. -/
theorem propose_cases {lane : Lane} {p : Proposal} (h : propose git parent operator lane = .ok (some p))
    (hlane : lane.isMerge = false) :
    (∃ newCode, lane = .patch newCode ∧ p = { code := .text newCode }) ∨
    ((∀ newCode, lane ≠ .patch newCode) ∧ ∃ child t, child.mainText git = .ok t ∧
      p = { code := .text t, workspace := some child } ∧
      ((∃ edits, withFiles git parent edits = .ok child) ∨
        ∃ workdir, captureChild git parent (listing workdir) = .ok child)) := by
  cases lane with
  | patch newCode =>
    cases h
    exact .inl ⟨newCode, rfl, rfl⟩
  | files edits =>
    refine .inr ⟨fun _ he => (nomatch he), ?_⟩
    obtain ⟨child, hchild, h⟩ := bind_ok_iff.mp h
    obtain ⟨own, -, h⟩ := bind_ok_iff.mp h
    obtain ⟨old, -, h⟩ := bind_ok_iff.mp h
    split at h
    · exact nomatch Except.ok.inj h
    · obtain ⟨t, ht, rfl⟩ := ofChild_ok (some_ofChild_ok h)
      exact ⟨child, t, ht, rfl, .inl ⟨edits, hchild⟩⟩
  | session checks workdir =>
    refine .inr ⟨fun _ he => (nomatch he), ?_⟩
    obtain ⟨checked, hchecked, h⟩ := bind_ok_iff.mp h
    split at h
    · next child hchild =>
      obtain ⟨t, ht, rfl⟩ := ofChild_ok (some_ofChild_ok h)
      exact ⟨child, t, ht, rfl, .inr ⟨workdir, check_captured hchecked hchild⟩⟩
    · exact nomatch Except.ok.inj h
  | merge => exact nomatch hlane

theorem child_file {w : FileWorkspace} {lane : Lane} {p : Proposal}
    (h : propose git (.file w) operator lane = .ok (some p)) (hlane : lane.isMerge = false) :
    ∃ c, c.filename = w.filename ∧ p.code = .text c.code ∧ childOf git (.file w) p = .ok (.file c) := by
  rcases propose_cases h hlane with ⟨newCode, -, rfl⟩ | ⟨-, child, t, ht, rfl, hmade⟩
  · exact ⟨{ w with code := newCode }, rfl, rfl, withMainText_file git w newCode⟩
  · rcases hmade with ⟨edits, hedits⟩ | ⟨workdir, hcapture⟩
    · unfold withFiles at hedits
      cases hc : w.withFiles edits with
      | error f => simp [hc, Except.map] at hedits
      | ok c =>
        simp only [hc, Except.map, Except.ok.injEq] at hedits
        subst hedits
        cases ht
        exact ⟨c, withFiles_filename hc, rfl, rfl⟩
    · unfold captureChild at hcapture
      cases hc : captureFile w (listing workdir) with
      | error f => simp [hc, Except.map] at hcapture
      | ok c =>
        simp only [hc, Except.map, Except.ok.injEq] at hcapture
        subst hcapture
        cases ht
        obtain ⟨x, -, rfl⟩ := captureFile_reads hc
        exact ⟨{ w with code := universalNewlines x }, rfl, rfl, rfl⟩

theorem child_git {w : GitWorkspace} {lane : Lane} {p : Proposal}
    (h : propose git (.git w) operator lane = .ok (some p)) (hlane : lane.isMerge = false) :
    ∃ t, p.code = .text t ∧ ∀ child, childOf git (.git w) p = .ok child → ∃ c, child = .git c ∧ c.mainFile = w.mainFile ∧
      (Exact git → (∀ newCode, lane = .patch newCode → EditsRecorded git w [(w.mainFile, newCode)]) →
        c.mainText git = .ok t) := by
  rcases propose_cases h hlane with ⟨newCode, rfl, rfl⟩ | ⟨-, child, t, ht, rfl, hmade⟩
  · refine ⟨newCode, rfl, fun child hchild => ?_⟩
    have hchild : (w.withMainText git newCode).map Genome.Workspace.git = .ok child := hchild
    cases hc : w.withMainText git newCode with
    | error f => simp [hc, Except.map] at hchild
    | ok c =>
      simp only [hc, Except.map, Except.ok.injEq] at hchild
      exact ⟨c, hchild.symm, withFiles_mainFile hc, fun hgit hedit => mainText_edited hgit (hedit newCode rfl) hc⟩
  · refine ⟨t, rfl, fun child' hchild' => ?_⟩
    cases hchild'
    rcases hmade with ⟨edits, hedits⟩ | ⟨workdir, hcapture⟩
    · unfold withFiles at hedits
      cases hc : w.withFiles git edits with
      | error f => simp [hc, Except.map] at hedits
      | ok c =>
        simp only [hc, Except.map, Except.ok.injEq] at hedits
        subst hedits
        exact ⟨c, rfl, withFiles_mainFile hc, fun _ _ => ht⟩
    · unfold captureChild at hcapture
      cases hc : w.captureChild git (listing workdir) with
      | error f => simp [hc, Except.map] at hcapture
      | ok c =>
        simp only [hc, Except.map, Except.ok.injEq] at hcapture
        subst hcapture
        exact ⟨c, rfl, (captureChild_mainFile hc).1, fun _ _ => ht⟩

theorem stored_git {w : GitWorkspace} {c : Genome.Workspace}
    (h : captureChild git (.git w) (listing workdir) = .ok c) : ∃ s, c = .git s := by
  unfold captureChild at h
  cases hc : w.captureChild git (listing workdir) with
  | error f => simp [hc, Except.map] at h
  | ok s =>
    simp only [hc, Except.map, Except.ok.injEq] at h
    exact ⟨s, h.symm⟩

theorem admit_ok {lane : Lane} {p : Proposal} (h : admission git pipeline parent operator lane p = .ok (some stored)) :
    ∃ child, childOf git parent p = .ok child ∧
      (runAdmissionPreflight git pipeline (.ok parent) operator child !lane.isMerge).1 = some stored := by
  obtain ⟨child, hchild, h⟩ := bind_ok_iff.mp h
  exact ⟨child, hchild, Except.ok.inj h⟩

theorem propose_own {lane : Lane} {p : Proposal} (h : propose git parent operator lane = .ok (some p))
    (hlane : lane.isMerge = false) : ∀ w ∈ p.workspace, Describes git p.code w := by
  intro w hw
  rcases propose_cases h hlane with ⟨newCode, -, rfl⟩ | ⟨-, child, t, ht, rfl, -⟩
  · cases hw
  · cases hw
    exact ⟨t, rfl, ht⟩

theorem described_cases {lane : Lane} {p : Proposal} (hgit : Exact git) (h : propose git parent operator lane = .ok (some p))
    (hlane : lane.isMerge = false) : ∃ t, p.code = .text t ∧
      ∀ stored, admission git pipeline parent operator lane p = .ok (some stored) →
        (∀ w, parent = .file w → (Describes git p.code stored ↔ pipeline = none ∨ '\r' ∉ t)) ∧
        ∀ w, parent = .git w → (Describes git p.code stored → '\r' ∉ t) ∧
          ((∀ child, childOf git parent p = .ok child → Kept git pipeline w lane child) → Describes git p.code stored) := by
  cases parent with
  | file w =>
    obtain ⟨c, hname, hcode, hchild⟩ := child_file h hlane
    refine ⟨c.code, hcode, fun stored hadmitted => ⟨?_, fun w' hw => nomatch hw⟩⟩
    intro w' hw
    obtain ⟨child, hchild', hstored⟩ := admit_ok hadmitted
    obtain rfl := Except.ok.inj (hchild'.symm.trans hchild)
    rw [hlane] at hstored
    have hsame {x : Text} (hx : stored.mainText git = .ok x) : Describes git p.code stored ↔ x = c.code := by
      rw [hcode, Describes, hx]
      simp [eq_comm]
    cases pipeline with
    | none =>
      cases hstored
      exact (hsame rfl).trans (by simp)
    | some gate =>
      cases admitted_file hname hstored
      exact (hsame rfl).trans (universalNewlines_eq.trans (by simp))
  | git w =>
    obtain ⟨t, hcode, hchild⟩ := child_git h hlane
    refine ⟨t, hcode, fun stored hadmitted => ⟨fun w' hw => (nomatch hw), fun w' hw => ?_⟩⟩
    cases hw
    obtain ⟨child, hchild', hstored⟩ := admit_ok hadmitted
    obtain ⟨c, rfl, hname, hmain⟩ := hchild child hchild'
    rw [hlane] at hstored
    constructor
    · rintro ⟨t', ht', hread⟩
      cases hcode.symm.trans ht'
      have hkind : ∃ s, stored = .git s := by
        cases pipeline with
        | none =>
          cases hstored
          exact ⟨c, rfl⟩
        | some gate =>
          obtain ⟨-, workdir, own, -, hown, hcapture, -⟩ := (admitted_iff _ _ _ _ _ _).mp hstored
          cases hown
          exact stored_git hcapture
      obtain ⟨s, rfl⟩ := hkind
      exact mainText_plain hread
    · intro hkept
      have hc := hmain hgit (hkept _ hchild').edited
      refine ⟨t, hcode, ?_⟩
      cases pipeline with
      | none =>
        cases hstored
        exact hc
      | some gate => exact admitted_git hgit hname hc ((hkept _ hchild').captured rfl) hstored

/-- No rejection raises in the observer. What a merge says of its program is no text; any other proposal says it with a
text. For a single file, the verdict, the event and the candidate are about one program exactly when the gate is open or
the text has no carriage return. For a git genome they are where git records the changes, and never when the text has a
carriage return. -/
theorem code_is_workspace {git : Git} (hgit : Exact git) (pipeline : Option PreflightPipeline) (parent : Genome.Workspace)
    (operator : Text) (accepts : Option (Code → Bool)) (lane : Lane) (p : Proposal)
    (h : propose git parent operator lane = .ok (some p)) :
    (∀ event, absorb git pipeline parent operator accepts lane p = .ok (.rejected event) →
      ∃ reading, onProposalRejected git event = .ok reading) ∧
    (lane.isMerge = true → ∀ stored, ¬Describes git p.code stored) ∧
    (lane.isMerge = false → ∃ t, p.code = .text t ∧
      ∀ stored, admission git pipeline parent operator lane p = .ok (some stored) →
        (∀ w, parent = .file w →
          (OneProgram git pipeline parent operator accepts lane p stored ↔ pipeline = none ∨ '\r' ∉ t)) ∧
        ∀ w, parent = .git w → (OneProgram git pipeline parent operator accepts lane p stored → '\r' ∉ t) ∧
          ((∀ child, childOf git parent p = .ok child → Kept git pipeline w lane child) →
            OneProgram git pipeline parent operator accepts lane p stored)) := by
  refine ⟨fun event hevent => ?_, fun hlane stored => ?_, fun hlane => ?_⟩
  · refine rejected_read (fun hlane => ?_) hevent
    obtain ⟨t, ht, -⟩ := @described_cases git pipeline parent operator lane p hgit h hlane
    exact ⟨t, ht⟩
  · cases lane with
    | merge =>
      cases h
      rintro ⟨t, ht, -⟩
      cases ht
    | _ => cases hlane
  · obtain ⟨t, ht, hcases⟩ := @described_cases git pipeline parent operator lane p hgit h hlane
    refine ⟨t, ht, fun stored hadmitted => ?_⟩
    rw [oneProgram_iff hlane ht (propose_own h hlane) hadmitted]
    exact hcases stored hadmitted

end

theorem merge_not_described : ¬ ∀ (git : Git) (pipeline : Option PreflightPipeline) (parent : Genome.Workspace) (operator : Text)
    (lane : Lane) (p : Proposal) (stored : Genome.Workspace), propose git parent operator lane = .ok (some p) →
    admission git pipeline parent operator lane p = .ok (some stored) → Describes git p.code stored := by
  intro h
  obtain ⟨t, ht, -⟩ := h listingGit none (single oneLine) "merge".toList .merge _ (single oneLine) rfl rfl
  exact nomatch ht

def fresh : Code → Bool
  | .text t => t ≠ listed [(["main.py".toList], oneLine)]
  | .mainText _ => false

theorem patch_described : OneProgram listingGit (some gate) (single oneLine) "rewrite".toList (some fresh) (.patch nineLine)
    { code := .text nineLine } (single nineLine) := by
  obtain ⟨t, ht, hlane⟩ := (code_is_workspace listingGit_exact (some gate) (single oneLine) "rewrite".toList (some fresh)
    (.patch nineLine) _ rfl).2.2 rfl
  cases ht
  have hadmitted : admission listingGit (some gate) (single oneLine) "rewrite".toList (.patch nineLine)
      { code := .text nineLine } = .ok (some (single nineLine)) :=
    congrArg Except.ok (single_admitted rfl rfl (by decide))
  exact ((hlane _ hadmitted).1 _ rfl).mpr (.inr (by decide))

end EvoHarness.Core.ProposedCode
