import EvoHarness.Core.Genome
import EvoHarness.Library.Bytes

/-! Edits of a git workspace: what a child holds of them, if git is exact. -/
namespace EvoHarness.Core.Genome
open PyText Json
open Hoare (bind_ok_iff)

def Same (a b : Tree) : Prop := ∀ p, lookup a p = lookup b p

theorem Same.refl (a : Tree) : Same a a := fun _ => rfl

theorem Same.symm {a b : Tree} (h : Same a b) : Same b a := fun p => (h p).symm

theorem Same.trans {a b c : Tree} (h : Same a b) (h' : Same b c) : Same a c := fun p => (h p).trans (h' p)

theorem lookup_nil (p : Path) : lookup [] p = none := rfl

theorem lookup_cons (f : Path × Text) (t : Tree) (p : Path) :
    lookup (f :: t) p = if f.1 = p then some f.2 else lookup t p := by
  unfold lookup
  by_cases hp : f.1 = p <;> simp [hp]

theorem lookup_filter (keep : Path → Bool) (t : Tree) (p : Path) :
    lookup (t.filter fun f => keep f.1) p = if keep p = true then lookup t p else none := by
  induction t with
  | nil => simp [lookup_nil]
  | cons f t ih =>
    by_cases hf : keep f.1 = true
    · simp only [List.filter_cons, hf, if_true, lookup_cons, ih]
      by_cases hp : f.1 = p
      · simp [hp, hp ▸ hf]
      · simp [hp]
    · simp only [List.filter_cons, hf, Bool.false_eq_true, if_false, lookup_cons]
      rw [ih]
      by_cases hp : f.1 = p
      · simp [hp ▸ hf]
      · simp [hp]

theorem lookup_append (a b : Tree) (p : Path) : lookup (a ++ b) p = (lookup a p).or (lookup b p) := by
  induction a with
  | nil => rfl
  | cons f a ih =>
    rw [List.cons_append, lookup_cons, lookup_cons, ih]
    by_cases hp : f.1 = p <;> simp [hp]

theorem lookup_mapPath (g : Path → Text → Text) (t : Tree) (p : Path) :
    lookup (t.map fun f => (f.1, g f.1 f.2)) p = (lookup t p).map (g p) := by
  induction t with
  | nil => rfl
  | cons f t ih =>
    rw [List.map_cons, lookup_cons, lookup_cons, ih]
    by_cases hp : f.1 = p <;> simp [hp]

theorem lookup_map (g : Text → Text) (t : Tree) (p : Path) :
    lookup (t.map fun f => (f.1, g f.2)) p = (lookup t p).map g := lookup_mapPath (fun _ => g) t p

@[simp] theorem lookup_put (t : Tree) (p q : Path) (x : Text) :
    lookup (put t p x) q = if p = q then some x else lookup t q := by
  have hfilter := lookup_filter (fun q => decide (q ≠ p)) t q
  unfold put
  rw [lookup_append, lookup_cons, lookup_nil, hfilter]
  by_cases hp : p = q
  · simp [hp]
  · simp [hp, Ne.symm hp]

theorem lookup_isSome {t : Tree} {p : Path} : (lookup t p).isSome = true ↔ ∃ f ∈ t, f.1 = p := by
  simp [lookup, List.find?_isSome]

theorem sameFiles_iff {a b : Tree} : sameFiles a b = true ↔ Same a b := by
  unfold sameFiles
  rw [List.all_eq_true]
  constructor
  · intro h p
    by_cases hp : ∃ f ∈ a ++ b, f.1 = p
    · obtain ⟨f, hf, rfl⟩ := hp
      exact of_decide_eq_true (h f hf)
    · have hnone (t : Tree) (ht : ∀ f ∈ t, f ∈ a ++ b) : lookup t p = none := by
        rw [← Option.not_isSome_iff_eq_none, lookup_isSome]
        exact fun ⟨f, hf, he⟩ => hp ⟨f, ht f hf, he⟩
      rw [hnone a fun f hf => List.mem_append_left b hf, hnone b fun f hf => List.mem_append_right a hf]
  · exact fun h f _ => decide_eq_true (h f.1)

def edited (t : Tree) (edits : List (Path × Text)) : Tree := edits.foldl (fun t f => put t f.1 f.2) t

theorem Same.edited {a b : Tree} (h : Same a b) (edits : List (Path × Text)) : Same (edited a edits) (edited b edits) := by
  induction edits generalizing a b with
  | nil => exact h
  | cons f edits ih =>
    have hput : Same (put a f.1 f.2) (put b f.1 f.2) := fun p => by rw [lookup_put, lookup_put, h p]
    exact ih hput

theorem lookup_readTexts (t : Tree) (p : Path) :
    lookup (GitWorkspace.readTexts t) p = if inGitDir p = true then none else (lookup t p).map universalNewlines := by
  unfold GitWorkspace.readTexts
  rw [lookup_map, lookup_filter fun q => !inGitDir q]
  by_cases hp : inGitDir p = true <;> simp [hp]

theorem Same.readTexts {a b : Tree} (h : Same a b) : Same (GitWorkspace.readTexts a) (GitWorkspace.readTexts b) :=
  fun p => by rw [lookup_readTexts, lookup_readTexts, h p]

/-- Texts without carriage returns outside the git directory are read as they were written. -/
theorem readTexts_edited {t : Tree} {edits : List (Path × Text)}
    (hplain : ∀ f ∈ edits, '\r' ∉ f.2 ∧ inGitDir f.1 = false) :
    Same (GitWorkspace.readTexts (edited t edits)) (edited (GitWorkspace.readTexts t) edits) := by
  induction edits generalizing t with
  | nil => exact Same.refl _
  | cons f edits ih =>
    have hf := hplain f List.mem_cons_self
    have hput : Same (GitWorkspace.readTexts (put t f.1 f.2)) (put (GitWorkspace.readTexts t) f.1 f.2) := by
      intro p
      rw [lookup_readTexts, lookup_put, lookup_put, lookup_readTexts]
      by_cases hp : f.1 = p
      · simp [hp, hp ▸ hf.2, universalNewlines_of_no_return hf.1]
      · simp [hp]
    exact (ih fun g hg => hplain g (List.mem_cons_of_mem f hg)).trans (hput.edited edits)

def Flat (t : Tree) : Prop := ∀ f ∈ t, ∀ g ∈ t, properPrefix f.1 g.1 = false

theorem flat_nil : Flat [] := fun _ h => nomatch h

theorem Flat.mono {a b : Tree} (h : Flat b) (hsub : ∀ f ∈ a, ∃ g ∈ b, g.1 = f.1) : Flat a := by
  intro f hf g hg
  obtain ⟨f', hf', hfile⟩ := hsub f hf
  obtain ⟨g', hg', hother⟩ := hsub g hg
  rw [← hfile, ← hother]
  exact h f' hf' g' hg'

theorem properPrefix_self (p : Path) : properPrefix p p = false := by
  simp [properPrefix]

theorem flat_put {was t : Tree} {p : Path} (h : Flat t) (hfree : blocked was t p = false) (x : Text) :
    Flat (put t p x) := by
  obtain ⟨habove, hbelow⟩ : (∀ f ∈ t, properPrefix f.1 p = false) ∧ ∀ f ∈ t, properPrefix p f.1 = false := by
    simp only [blocked, Bool.or_eq_false_iff, List.any_eq_false, List.mem_append] at hfree
    exact ⟨fun f hf => Bool.eq_false_iff.mpr (hfree.1.2 f hf), fun f hf => Bool.eq_false_iff.mpr (hfree.2 f (.inl hf))⟩
  have hput : ∀ f ∈ put t p x, f ∈ t ∨ f.1 = p := by
    intro f hf
    rcases List.mem_append.mp hf with hold | hnew
    · exact .inl (List.mem_of_mem_filter hold)
    · exact .inr (congrArg Prod.fst (List.mem_singleton.mp hnew))
  intro f hf g hg
  rcases hput f hf with hf | hf <;> rcases hput g hg with hg | hg
  · exact h f hf g hg
  · rw [hg]
    exact habove f hf
  · rw [hf]
    exact hbelow g hg
  · rw [hf, hg]
    exact properPrefix_self p

theorem writeAll_ok {was t t' : Tree} {es : List (Path × Text)} (h : writeAll was es t = .ok t') :
    t' = edited t es ∧ (Flat t → Flat t') := by
  induction es generalizing t with
  | nil =>
    cases h
    exact ⟨rfl, id⟩
  | cons f es ih =>
    rw [writeAll] at h
    split at h
    · exact nomatch h
    case isFalse hfree =>
      obtain ⟨heq, hflat⟩ := ih h
      exact ⟨heq, fun ht => hflat (flat_put ht (Bool.eq_false_iff.mpr hfree) f.2)⟩

def isBinary (x : Text) : Bool := ((PyBytes.encode x).take 8000).contains 0

def Changed (a b : Tree) (p : Path) : Prop := lookup a p ≠ lookup b p

instance (a b : Tree) (p : Path) : Decidable (Changed a b p) := inferInstanceAs (Decidable (_ ≠ _))

/-- `git diff` and `git apply` are exact: the difference of two commits is empty only if they are the
same, holds no carriage return that is not in a file, and takes every directory that has the old
files to the one with the new. Without `--binary` that needs files that are not binary. -/
structure Exact (git : Git) : Prop where
  ignored : ∀ {t t'} p, Same t t' → git.ignored t p = git.ignored t' p
  blank : ∀ {binary a b}, isBlank (git.diff binary a b) = true ↔ Same a b
  returns : ∀ {binary a b}, '\r' ∈ git.diff binary a b →
    ∃ p x, Changed a b p ∧ (lookup a p = some x ∨ lookup b p = some x) ∧ '\r' ∈ x
  flat : ∀ {t t' patch}, git.apply t patch = some t' → Flat t → Flat t'
  apply : ∀ {binary a b t r}, ¬Same a b → Flat r →
    (∀ p, Changed a b p → lookup t p = lookup a p ∧ lookup r p = lookup b p) →
    (∀ p, ¬Changed a b p → lookup r p = lookup t p) →
    (binary = false → ∀ p x, Changed a b p → (lookup a p = some x ∨ lookup b p = some x) → isBinary x = false) →
    ∃ t', git.apply t (git.diff binary a b) = some t' ∧ Same t' r

/-- `git add` stages what was changed in a directory, and nothing else. -/
structure Staged (git : Git) (work : Repo) (files : Tree) : Prop where
  tracked : ∀ p, Changed work.files files p →
    lookup work.head p = lookup work.files p ∧ lookup (git.addAll ⟨files, work.head⟩) p = lookup files p
  rest : ∀ p, ¬Changed work.files files p → lookup (git.addAll ⟨files, work.head⟩) p = lookup work.head p

/-- `git add` stages the change of a directory, and the change shows no carriage return. -/
structure Recorded (git : Git) (work : Repo) (files : Tree) : Prop extends Staged git work files where
  returns : ∀ p x, Changed work.files files p → (lookup work.files p = some x ∨ lookup files p = some x) → '\r' ∉ x

section
variable {git : Git} {work : Repo} {files : Tree}

theorem Staged.changed_iff (h : Staged git work files) (p : Path) :
    Changed work.head (git.addAll ⟨files, work.head⟩) p ↔ Changed work.files files p := by
  by_cases hp : Changed work.files files p
  · obtain ⟨hold, hnew⟩ := h.tracked p hp
    unfold Changed at hp ⊢
    rw [hold, hnew]
  · exact ⟨fun hc => absurd (h.rest p hp).symm hc, fun hc => absurd hc hp⟩

theorem addAll_congr (hgit : Exact git) {files' : Tree} (h : Same files files') (head : Tree) :
    Same (git.addAll ⟨files, head⟩) (git.addAll ⟨files', head⟩) := by
  intro p
  unfold Git.addAll
  rw [lookup_filter fun p => !inGitDir p && ((lookup head p).isSome || !git.ignored files p),
    lookup_filter fun p => !inGitDir p && ((lookup head p).isSome || !git.ignored files' p),
    hgit.ignored p h, h p]

theorem Recorded.patch_eq (hgit : Exact git) (h : Recorded git work files) (binary : Bool) :
    git.patch binary work.head (git.addAll ⟨files, work.head⟩) =
      git.diff binary work.head (git.addAll ⟨files, work.head⟩) := by
  refine universalNewlines_of_no_return fun hr => ?_
  obtain ⟨p, x, hp, hx, hreturn⟩ := hgit.returns hr
  have hp := (h.toStaged.changed_iff p).mp hp
  obtain ⟨hold, hnew⟩ := h.tracked p hp
  rw [hold, hnew] at hx
  exact h.returns p x hp hx hreturn

theorem Recorded.blank_iff (hgit : Exact git) (h : Recorded git work files) {binary : Bool} :
    isBlank (git.patch binary work.head (git.addAll ⟨files, work.head⟩)) = true ↔ Same work.files files := by
  rw [h.patch_eq hgit, hgit.blank]
  constructor
  · intro hsame p
    by_contra hp
    exact (h.toStaged.changed_iff p).mpr hp (hsame p)
  · intro hsame p
    by_contra hp
    exact (h.toStaged.changed_iff p).mp hp (hsame p)

theorem Recorded.step (hgit : Exact git) (h : Recorded git work files) (hflat : Flat files) {binary : Bool}
    (hbinary : binary = false → ∀ p x, Changed work.files files p →
      (lookup work.files p = some x ∨ lookup files p = some x) → isBinary x = false)
    (hchanged : ¬Same work.files files) :
    ∃ r, git.step work (git.patch binary work.head (git.addAll ⟨files, work.head⟩)) = .ok r ∧ Same r.files files := by
  rw [h.patch_eq hgit]
  obtain ⟨t, happly, hsame⟩ : ∃ t, git.apply work.files (git.diff binary work.head (git.addAll ⟨files, work.head⟩)) =
      some t ∧ Same t files := by
    have hindex : ¬Same work.head (git.addAll ⟨files, work.head⟩) := fun hs =>
      hchanged ((h.blank_iff hgit).mp ((h.patch_eq hgit binary).symm ▸ hgit.blank.mpr hs))
    refine hgit.apply hindex hflat (fun p hp => ?_) (fun p hp => ?_) (fun hb p x hp hx => ?_)
    · obtain ⟨hold, hnew⟩ := h.tracked p ((h.toStaged.changed_iff p).mp hp)
      exact ⟨hold.symm, hnew.symm⟩
    · have hp := fun hc => hp ((h.toStaged.changed_iff p).mpr hc)
      exact (not_not.mp hp).symm
    · have hp := (h.toStaged.changed_iff p).mp hp
      obtain ⟨hold, hnew⟩ := h.tracked p hp
      rw [hold, hnew] at hx
      exact hbinary hb p x hp hx
  refine ⟨⟨t, git.addAll ⟨t, work.head⟩⟩, ?_, hsame⟩
  have hcommit : ¬sameFiles (git.addAll ⟨t, work.head⟩) work.head = true := by
    rw [sameFiles_iff]
    intro hnothing
    have hhead := hnothing.symm.trans (addAll_congr hgit hsame work.head)
    exact hchanged ((h.blank_iff hgit).mp ((h.patch_eq hgit binary).symm ▸ hgit.blank.mpr hhead))
  simp only [Git.step, happly, hcommit, Bool.false_eq_true, if_false]

end

theorem steps_append (git : Git) (a b : List Text) (r : Repo) :
    git.steps (a ++ b) r = git.steps a r >>= git.steps b := by
  induction a generalizing r with
  | nil => rfl
  | cons patch a ih =>
    rw [List.cons_append, Git.steps, Git.steps]
    cases git.step r patch with
    | error e => rfl
    | ok u => exact ih u

theorem steps_flat {git : Git} (hgit : Exact git) {patches : List Text} {r r' : Repo}
    (h : git.steps patches r = .ok r') (hr : Flat r.files) : Flat r'.files := by
  induction patches generalizing r with
  | nil =>
    cases h
    exact hr
  | cons patch patches ih =>
    obtain ⟨u, hu, hrest⟩ := bind_ok_iff.mp h
    refine ih hrest ?_
    unfold Git.step at hu
    split at hu
    · exact nomatch hu
    case h_2 files happly =>
      dsimp only at hu
      split at hu
      · exact nomatch hu
      · cases hu
        exact hgit.flat happly hr

namespace GitWorkspace
variable {git : Git} {w : GitWorkspace} {work : Repo}

theorem materialize_ok : w.materialize git = .ok work ↔
    w.baseFiles.find? (leaves ·.1) = none ∧ (∃ files, writeAll [] (entries w.baseFiles) [] = .ok files ∧
      git.steps w.patches ⟨files, git.addAll ⟨files, []⟩⟩ = .ok work) ∧ w.hasMain work.files = true := by
  unfold materialize
  cases hleaves : w.baseFiles.find? (leaves ·.1) with
  | some f => simp
  | none =>
    simp only [bind_ok_iff, true_and]
    constructor
    · intro h
      obtain ⟨files, hfiles, repo, hrepo, h⟩ := h
      split at h
      · cases h
        exact ⟨⟨files, hfiles, hrepo⟩, ‹_›⟩
      · exact nomatch h
    · intro h
      obtain ⟨⟨files, hfiles, hrepo⟩, hmain⟩ := h
      exact ⟨files, hfiles, work, hrepo, by rw [if_pos hmain]; rfl⟩

theorem materialize_flat (hgit : Exact git) (h : w.materialize git = .ok work) : Flat work.files := by
  obtain ⟨-, ⟨files, hfiles, hsteps⟩, -⟩ := materialize_ok.mp h
  exact steps_flat hgit hsteps ((writeAll_ok hfiles).2 flat_nil)

theorem materialize_child {patch : Text} {r : Repo} (h : w.materialize git = .ok work)
    (hstep : git.step work patch = .ok r) (hmain : w.hasMain r.files = true) :
    (w.child patch).materialize git = .ok r := by
  obtain ⟨hleaves, ⟨files, hfiles, hsteps⟩, -⟩ := materialize_ok.mp h
  refine materialize_ok.mpr ⟨hleaves, ⟨files, hfiles, ?_⟩, hmain⟩
  have hlast : git.steps [patch] work = .ok r := by
    simp only [Git.steps, hstep]
    rfl
  simp only [child, steps_append, hsteps]
  exact hlast

theorem hasMain_iff {files : Tree} :
    w.hasMain files = true ↔ ∃ p, (parts w.mainFile).isPrefixOf p = true ∧ (lookup files p).isSome = true := by
  unfold hasMain
  rw [List.any_eq_true]
  constructor
  · intro h
    obtain ⟨f, hf, hprefix⟩ := h
    exact ⟨f.1, hprefix, lookup_isSome.mpr ⟨f, hf, rfl⟩⟩
  · intro h
    obtain ⟨p, hprefix, hp⟩ := h
    obtain ⟨f, hf, rfl⟩ := lookup_isSome.mp hp
    exact ⟨f, hf, hprefix⟩

theorem hasMain_mono {a b : Tree} (h : ∀ p, (lookup a p).isSome = true → (lookup b p).isSome = true)
    (hmain : w.hasMain a = true) : w.hasMain b = true := by
  obtain ⟨p, hprefix, hp⟩ := hasMain_iff.mp hmain
  exact hasMain_iff.mpr ⟨p, hprefix, h p hp⟩

theorem texts_ok (h : w.materialize git = .ok work) : w.texts git = .ok (readTexts work.files) := by
  unfold texts
  rw [h]
  rfl

end GitWorkspace

def Result (good : GitWorkspace → Prop) : Except Fault GitWorkspace → Prop
  | .error (.workspaceError _) => True
  | .error .osError => False
  | .ok child => good child

/-- `with_files` stores the edits, or it raises its own error. -/
@[irreducible] def EditsStored (git : Git) (w : GitWorkspace) (edits : List (Text × Text)) : Prop :=
  Result (fun child => ∃ before after, w.texts git = .ok before ∧ child.texts git = .ok after ∧
    Same after (edited before (GitWorkspace.entries edits))) (w.withFiles git edits)

/-- `capture_child` stores the text tree, or it raises its own error. -/
@[irreducible] def CaptureStored (git : Git) (w : GitWorkspace) (source : Listing) : Prop :=
  Result (fun child => ∃ current after, readTextTree source.entries = .ok current ∧ child.texts git = .ok after ∧
    Same after current) (w.captureChild git source)

/-- The edits are texts without carriage returns, outside the git directory, of no binary file and in
the way of no file; `git add` stages them. -/
structure EditsRecorded (git : Git) (w : GitWorkspace) (edits : List (Text × Text)) : Prop where
  rebuilt : w.materialize git ≠ .error .osError
  plain : ∀ f ∈ edits, '\r' ∉ f.2 ∧ inGitDir (parts f.1) = false
  written : ∀ work, w.materialize git = .ok work →
    ∃ files, writeAll [] (GitWorkspace.entries edits) work.files = .ok files ∧ Recorded git work files ∧
      ∀ p x, Changed work.files files p → (lookup work.files p = some x ∨ lookup files p = some x) → isBinary x = false

/-- No file of the parent is hidden from the text tree, no file of the source is in the way of
another, and `git add` stages what was changed. -/
structure CaptureRecorded (git : Git) (w : GitWorkspace) (source : Listing) : Prop where
  rebuilt : w.materialize git ≠ .error .osError
  visible : ∀ work, w.materialize git = .ok work → ∀ f ∈ work.files, hidden f.1 = false
  written : ∀ work current parent, w.materialize git = .ok work → readTextTree source.entries = .ok current →
    readTextTree (work.files.map fun f => (f.1, .file f.2)) = .ok parent → ¬Same current parent →
    ∃ files, writeAll work.files current (GitWorkspace.unlinked current parent work.files) = .ok files ∧
      Recorded git work files

namespace GitWorkspace
variable {git : Git} {w : GitWorkspace} {work : Repo}

theorem entries_plain {edits : List (Text × Text)} (h : ∀ f ∈ edits, '\r' ∉ f.2 ∧ inGitDir (parts f.1) = false) :
    ∀ f ∈ entries edits, '\r' ∉ f.2 ∧ inGitDir f.1 = false := by
  intro f hf
  obtain ⟨g, hg, rfl⟩ := List.mem_map.mp hf
  exact h g hg

theorem edited_keeps {t : Tree} (edits : List (Path × Text)) {p : Path} (h : (lookup t p).isSome = true) :
    (lookup (edited t edits) p).isSome = true := by
  induction edits generalizing t with
  | nil => exact h
  | cons f edits ih =>
    refine ih ?_
    rw [lookup_put]
    by_cases hp : f.1 = p <;> simp [hp, h]

theorem edits_stored (hgit : Exact git) {edits : List (Text × Text)} (h : EditsRecorded git w edits) :
    EditsStored git w edits := by
  unfold EditsStored withFiles
  cases edits.find? (leaves ·.1) with
  | some f => trivial
  | none =>
    cases hwork : w.materialize git with
    | error e =>
      cases e with
      | workspaceError message => trivial
      | osError => exact absurd hwork h.rebuilt
    | ok work =>
      obtain ⟨files, hfiles, hrecorded, hbinary⟩ := h.written work hwork
      obtain ⟨heq, hflat⟩ := writeAll_ok hfiles
      have htexts : Same (readTexts files) (edited (readTexts work.files) (entries edits)) :=
        heq ▸ readTexts_edited (entries_plain h.plain)
      simp only [bind, Except.bind, hfiles]
      split
      case isTrue hblank =>
        -- nothing is staged, so nothing was changed
        refine ⟨_, _, texts_ok hwork, texts_ok hwork, ?_⟩
        exact ((hrecorded.blank_iff hgit).mp hblank).readTexts.trans htexts
      case isFalse hpatch =>
        have hchanged : ¬Same work.files files := fun hsame => hpatch ((hrecorded.blank_iff hgit).mpr hsame)
        obtain ⟨r, hstep, hsame⟩ := hrecorded.step hgit (hflat (materialize_flat hgit hwork)) (fun _ => hbinary) hchanged
        have hmain : w.hasMain r.files = true := by
          refine hasMain_mono (fun p hp => ?_) (materialize_ok.mp hwork).2.2
          rw [hsame p, heq]
          exact edited_keeps _ hp
        exact ⟨_, _, texts_ok hwork, texts_ok (materialize_child hwork hstep hmain), hsame.readTexts.trans htexts⟩

theorem readTextTree_ok {es : List (Path × Entry)} {t : Tree} (h : readTextTree es = .ok t) :
    (t.map (·.1)).Sublist (es.map (·.1)) ∧ ∀ f ∈ t, hidden f.1 = false ∧ '\r' ∉ f.2 := by
  induction es generalizing t with
  | nil =>
    cases h
    exact ⟨List.Sublist.slnil, fun f hf => nomatch hf⟩
  | cons e es ih =>
    obtain ⟨p, e⟩ := e
    rw [readTextTree] at h
    split at h
    · obtain ⟨hsub, hall⟩ := ih h
      exact ⟨hsub.cons p, hall⟩
    case isFalse hvisible =>
      obtain ⟨x, hx, h⟩ := bind_ok_iff.mp h
      obtain ⟨u, hu, h⟩ := bind_ok_iff.mp h
      cases h
      obtain ⟨hsub, hall⟩ := ih hu
      refine ⟨hsub.cons_cons p, fun f hf => ?_⟩
      rcases List.mem_cons.mp hf with rfl | hf
      · refine ⟨Bool.eq_false_iff.mpr hvisible, ?_⟩
        unfold readEntry at hx
        split at hx
        · exact nomatch hx
        · split at hx <;> exact nomatch hx
        · split at hx
          · exact nomatch hx
          · cases hx
            exact no_return_universalNewlines _
      · exact hall f hf

theorem readTextTree_visible {files t : Tree} (hvisible : ∀ f ∈ files, hidden f.1 = false)
    (h : readTextTree (files.map fun f => (f.1, .file f.2)) = .ok t) :
    t = files.map fun f => (f.1, universalNewlines f.2) := by
  induction files generalizing t with
  | nil =>
    cases h
    rfl
  | cons f files ih =>
    rw [List.map_cons, readTextTree, if_neg (Bool.eq_false_iff.mp (hvisible f List.mem_cons_self))] at h
    obtain ⟨x, hx, h⟩ := bind_ok_iff.mp h
    obtain ⟨u, hu, h⟩ := bind_ok_iff.mp h
    cases h
    simp only [readEntry] at hx
    split at hx
    · exact nomatch hx
    · cases hx
      rw [List.map_cons, ih (fun g hg => hvisible g (List.mem_cons_of_mem f hg)) hu]

theorem inGitDir_of_visible {p : Path} (h : hidden p = false) : inGitDir p = false :=
  (Bool.or_eq_false_iff.mp h).1

theorem lookup_mem {t : Tree} {p : Path} {x : Text} (h : lookup t p = some x) : (p, x) ∈ t := by
  obtain ⟨f, hf, rfl⟩ := Option.map_eq_some_iff.mp h
  have hp : f.1 = p := by simpa using List.find?_some hf
  exact hp ▸ List.mem_of_find?_eq_some hf

theorem readTexts_plain {t : Tree} (h : ∀ f ∈ t, hidden f.1 = false ∧ '\r' ∉ f.2) : Same (readTexts t) t := by
  intro p
  rw [lookup_readTexts]
  cases hp : lookup t p with
  | none => simp
  | some x =>
    obtain ⟨hvisible, hreturn⟩ := h _ (lookup_mem hp)
    simp [inGitDir_of_visible hvisible, universalNewlines_of_no_return hreturn]

theorem readTexts_visible {files : Tree} (hvisible : ∀ f ∈ files, hidden f.1 = false) :
    Same (readTexts files) (files.map fun f => (f.1, universalNewlines f.2)) := by
  intro p
  rw [lookup_readTexts, lookup_map]
  cases hp : lookup files p with
  | none => simp
  | some x => simp [inGitDir_of_visible (hvisible _ (lookup_mem hp))]

theorem lookup_edited {t : Tree} {edits : List (Path × Text)} (h : (edits.map (·.1)).Nodup) (p : Path) :
    lookup (edited t edits) p = (lookup edits p).or (lookup t p) := by
  induction edits generalizing t with
  | nil => rfl
  | cons f edits ih =>
    obtain ⟨hnew, hrest⟩ := List.nodup_cons.mp h
    have hstep := @ih (put t f.1 f.2) hrest
    rw [lookup_cons]
    refine hstep.trans ?_
    rw [lookup_put]
    by_cases hp : f.1 = p
    · have hnone : lookup edits p = none := by
        rw [← Option.not_isSome_iff_eq_none, lookup_isSome]
        exact fun ⟨g, hg, he⟩ => hnew (List.mem_map.mpr ⟨g, hg, he.trans hp.symm⟩)
      simp [hp, hnone]
    · simp [hp]

theorem readTextTree_raises {es : List (Path × Entry)} : readTextTree es ≠ .error .osError := by
  induction es with
  | nil => exact fun h => nomatch h
  | cons e es ih =>
    obtain ⟨p, e⟩ := e
    rw [readTextTree]
    split
    · exact ih
    · cases he : readEntry p e with
      | error f =>
        intro h
        have hf : f = .osError := Except.error.inj h
        rw [hf] at he
        unfold readEntry at he
        split at he
        · exact nomatch he
        · split at he <;> exact nomatch he
        · split at he <;> exact nomatch he
      | ok x =>
        cases hrest : readTextTree es with
        | error f =>
          intro h
          have hf : f = .osError := Except.error.inj h
          exact ih (hf ▸ hrest)
        | ok u => exact fun h => nomatch h

/-- After the removed files are gone and the others written, the directory holds the text tree. -/
theorem captured_files {current parent files : Tree} (hnodup : (current.map (·.1)).Nodup)
    (hparent : ∀ p, lookup parent p = none → lookup files p = none) :
    Same (edited (unlinked current parent files) current) current := by
  intro p
  rw [lookup_edited hnodup]
  cases hp : lookup current p with
  | some x => rfl
  | none =>
    have hkept := lookup_filter (fun q => (lookup parent q).isNone || (lookup current q).isSome) files p
    rw [Option.none_or, unlinked, hkept, hp]
    cases hq : lookup parent p with
    | none => simp [hparent p hq]
    | some y => simp

theorem capture_stored (hgit : Exact git) {source : Listing} (h : CaptureRecorded git w source) :
    CaptureStored git w source := by
  unfold CaptureStored captureChild
  cases hcurrent : readTextTree source.entries with
  | error e =>
    cases e with
    | workspaceError message => trivial
    | osError => exact absurd hcurrent readTextTree_raises
  | ok current =>
    obtain ⟨hsub, hplain⟩ := readTextTree_ok hcurrent
    simp only [bind, Except.bind]
    split
    case isTrue => trivial
    case isFalse hmain =>
      cases hwork : w.materialize git with
      | error e =>
        cases e with
        | workspaceError message => trivial
        | osError => exact absurd hwork h.rebuilt
      | ok work =>
        have hvisible := h.visible work hwork
        dsimp only
        cases hparent : readTextTree (work.files.map fun f => (f.1, .file f.2)) with
        | error e =>
          cases e with
          | workspaceError message => trivial
          | osError => exact absurd hparent readTextTree_raises
        | ok parent =>
          have hread := readTextTree_visible hvisible hparent
          dsimp only
          by_cases hsame : sameFiles current parent = true
          · simp only [hsame, if_true]
            refine ⟨current, _, rfl, texts_ok hwork, ?_⟩
            exact (readTexts_visible hvisible).trans (hread ▸ (sameFiles_iff.mp hsame).symm)
          · obtain ⟨files, hfiles, hrecorded⟩ :=
              h.written work current parent hwork hcurrent hparent fun hs => hsame (sameFiles_iff.mpr hs)
            obtain ⟨heq, hflat⟩ := writeAll_ok hfiles
            have hnodup : (current.map (·.1)).Nodup := source.once.sublist hsub
            have hall : Same files current := by
              rw [heq]
              refine captured_files hnodup fun p hp => ?_
              rw [hread, lookup_map, Option.map_eq_none_iff] at hp
              exact hp
            simp only [hsame, Bool.false_eq_true, if_false, hfiles]
            split
            case isTrue => trivial
            case isFalse hpatch =>
              have hchanged : ¬Same work.files files := fun hs => hpatch ((hrecorded.blank_iff hgit).mpr hs)
              have hkept : Flat (unlinked current parent work.files) :=
                (materialize_flat hgit hwork).mono fun f hf => ⟨f, List.mem_of_mem_filter hf, rfl⟩
              obtain ⟨r, hstep, hr⟩ : ∃ r, git.step work (git.patch true work.head
                  (git.addAll ⟨files, work.head⟩)) = .ok r ∧ Same r.files files :=
                hrecorded.step hgit (hflat hkept) (fun hb => nomatch hb) hchanged
              have hmain : w.hasMain r.files = true := by
                simp only [List.all_eq_true, decide_eq_true_eq, not_forall, not_not] at hmain
                obtain ⟨f, hf, hname⟩ := hmain
                have hspelled : parts (posix f.1) = f.1 := by
                  have hkey : f.1 ∈ source.entries.map (·.1) := hsub.subset (List.mem_map_of_mem hf)
                  obtain ⟨g, hg, hgf⟩ := List.mem_map.mp hkey
                  exact hgf ▸ source.spelled g hg
                refine hasMain_iff.mpr ⟨f.1, ?_, ?_⟩
                · rw [← hname, hspelled]
                  exact List.isPrefixOf_iff_prefix.mpr (List.prefix_refl _)
                · rw [hr.trans hall f.1]
                  exact lookup_isSome.mpr ⟨f, hf, rfl⟩
              refine ⟨current, _, rfl, texts_ok (materialize_child hwork hstep hmain), ?_⟩
              exact (hr.trans hall).readTexts.trans (readTexts_plain hplain)

theorem withFiles_ok {edits : List (Text × Text)} {child : GitWorkspace} (h : w.withFiles git edits = .ok child) :
    ∃ work files, w.materialize git = .ok work ∧ writeAll [] (entries edits) work.files = .ok files ∧
      child = if isBlank (git.patch false work.head (git.addAll ⟨files, work.head⟩)) = true then w
        else w.child (git.patch false work.head (git.addAll ⟨files, work.head⟩)) := by
  unfold withFiles at h
  split at h
  · exact nomatch h
  · obtain ⟨work, hwork, h⟩ := bind_ok_iff.mp h
    obtain ⟨files, hfiles, h⟩ := bind_ok_iff.mp h
    refine ⟨work, files, hwork, hfiles, ?_⟩
    dsimp only at h
    split at h
    case isTrue hblank =>
      rw [if_pos hblank]
      exact (Except.ok.inj h).symm
    case isFalse hpatch =>
      rw [if_neg hpatch]
      exact (Except.ok.inj h).symm

theorem edited_or (t : Tree) (edits : List (Path × Text)) (p : Path) :
    lookup (edited t edits) p = (lookup (edited [] edits) p).or (lookup t p) := by
  induction edits using List.reverseRecOn with
  | nil => rfl
  | append_singleton edits f ih =>
    unfold edited at ih ⊢
    rw [List.foldl_append, List.foldl_append]
    simp only [List.foldl_cons, List.foldl_nil, lookup_put]
    by_cases hp : f.1 = p
    · simp [hp]
    · simp [hp, ih]

/-- What `texts` returns has no carriage return and nothing of the git directory. -/
theorem stored_plain {edits : List (Text × Text)} {child : GitWorkspace} (h : w.withFiles git edits = .ok child)
    (hstored : EditsStored git w edits) {p : Path} {x : Text} (hx : lookup (edited [] (entries edits)) p = some x) :
    '\r' ∉ x ∧ inGitDir p = false := by
  unfold EditsStored at hstored
  rw [h] at hstored
  obtain ⟨before, after, -, hafter, hsame⟩ := hstored
  have hp := hsame p
  rw [edited_or, hx, Option.some_or] at hp
  obtain ⟨r, hr, hafter⟩ := bind_ok_iff.mp hafter
  cases hafter
  rw [lookup_readTexts] at hp
  split at hp
  · exact nomatch hp
  case isFalse hgit =>
    obtain ⟨y, -, rfl⟩ := Option.map_eq_some_iff.mp hp
    exact ⟨no_return_universalNewlines y, Bool.eq_false_iff.mpr hgit⟩

end GitWorkspace

def changes (a b : Tree) : List (Path × Option Text) :=
  (((a ++ b).map (·.1)).dedup.filter fun p => decide (Changed a b p)).map fun p => (p, lookup b p)

def change (t : Tree) (c : Path × Option Text) : Tree :=
  match c.2 with
  | some x => put t c.1 x
  | none => t.filter fun f => decide (f.1 ≠ c.1)

theorem lookup_change (t : Tree) (c : Path × Option Text) (p : Path) :
    lookup (change t c) p = if c.1 = p then c.2 else lookup t p := by
  obtain ⟨q, o⟩ := c
  cases o with
  | some x => exact lookup_put t q p x
  | none =>
    refine (lookup_filter (fun r => decide (r ≠ q)) t p).trans ?_
    by_cases hp : q = p
    · simp [hp]
    · simp [hp, Ne.symm hp]

theorem lookup_changed {cs : List (Path × Option Text)} (h : (cs.map (·.1)).Nodup) (t : Tree) (p : Path) :
    lookup (cs.foldl change t) p = ((cs.find? (·.1 = p)).map (·.2)).getD (lookup t p) := by
  induction cs generalizing t with
  | nil => rfl
  | cons c cs ih =>
    obtain ⟨hnew, hrest⟩ := List.nodup_cons.mp h
    rw [List.foldl_cons, ih hrest, lookup_change]
    by_cases hp : c.1 = p
    · have hnone : cs.find? (·.1 = p) = none := by
        rw [List.find?_eq_none]
        intro d hd he
        exact hnew (List.mem_map.mpr ⟨d, hd, (of_decide_eq_true he).trans hp.symm⟩)
      simp [hp, hnone]
    · simp [hp]

theorem changes_nodup (a b : Tree) : ((changes a b).map (·.1)).Nodup := by
  unfold changes
  rw [List.map_map, show ((·.1) ∘ fun p => (p, lookup b p) : Path → Path) = id from rfl, List.map_id]
  exact (List.nodup_dedup _).filter _

theorem find_changes (a b : Tree) (p : Path) :
    (changes a b).find? (·.1 = p) = if Changed a b p then some (p, lookup b p) else none := by
  by_cases hp : Changed a b p
  · have hmem : (p, lookup b p) ∈ changes a b := by
      refine List.mem_map.mpr ⟨p, List.mem_filter.mpr ⟨List.mem_dedup.mpr ?_, decide_eq_true hp⟩, rfl⟩
      rw [List.map_append, List.mem_append, List.mem_map, List.mem_map]
      by_contra hnone
      rw [not_or] at hnone
      have ha : lookup a p = none := by
        rw [← Option.not_isSome_iff_eq_none, lookup_isSome]
        exact hnone.1
      have hb : lookup b p = none := by
        rw [← Option.not_isSome_iff_eq_none, lookup_isSome]
        exact hnone.2
      exact hp (ha.trans hb.symm)
    rw [if_pos hp]
    cases hfind : (changes a b).find? (·.1 = p) with
    | none => exact absurd (decide_eq_true rfl) (List.find?_eq_none.mp hfind _ hmem)
    | some c =>
      have hc := List.mem_of_find?_eq_some hfind
      obtain ⟨q, -, rfl⟩ := List.mem_map.mp hc
      have hq : q = p := by simpa using List.find?_some hfind
      rw [hq]
  · rw [if_neg hp, List.find?_eq_none]
    intro c hc he
    obtain ⟨q, hq, rfl⟩ := List.mem_map.mp hc
    exact hp ((of_decide_eq_true he : q = p) ▸ of_decide_eq_true (List.mem_filter.mp hq).2)

theorem changes_made {a b t r : Tree} (hchanged : ∀ p, Changed a b p → lookup t p = lookup a p ∧ lookup r p = lookup b p)
    (hrest : ∀ p, ¬Changed a b p → lookup r p = lookup t p) : Same ((changes a b).foldl change t) r := by
  intro p
  rw [lookup_changed (changes_nodup a b), find_changes]
  by_cases hp : Changed a b p
  · simp [hp, (hchanged p hp).2]
  · simp [hp, hrest p hp]

theorem changes_nil {a b : Tree} : changes a b = [] ↔ Same a b := by
  constructor
  · intro h p
    by_contra hp
    have hfind := find_changes a b p
    have hp : Changed a b p := hp
    rw [h, if_pos hp] at hfind
    exact nomatch hfind
  · intro h
    unfold changes
    rw [List.map_eq_nil_iff, List.filter_eq_nil_iff]
    exact fun p _ hp => of_decide_eq_true hp (h p)

def changeItem (c : Path × Option Text) : Value :=
  .array [.array (c.1.map .string), (c.2.map Value.string).getD .null]

def changeOf : Value → Option (Path × Option Text)
  | .array [p, .string x] => (textsOf p).map fun p => (p, some x)
  | .array [p, .null] => (textsOf p).map fun p => (p, none)
  | _ => none

def changesOf : Value → Option (List (Path × Option Text))
  | .array xs => xs.mapM changeOf
  | _ => none

theorem changeOf_item (c : Path × Option Text) : changeOf (changeItem c) = some c := by
  obtain ⟨p, o⟩ := c
  cases o with
  | none => simp [changeItem, changeOf, textsOf_strings]
  | some x => simp [changeItem, changeOf, textsOf_strings]

theorem changesOf_items (cs : List (Path × Option Text)) : changesOf (.array (cs.map changeItem)) = some cs := by
  induction cs with
  | nil => rfl
  | cons c cs ih =>
    simp only [changesOf] at ih
    simp only [changesOf, List.map_cons, List.mapM_cons, changeOf_item, ih]
    rfl

theorem distinct_items (cs : List (Path × Option Text)) : DistinctItems (cs.map changeItem) := by
  induction cs with
  | nil => trivial
  | cons c cs ih =>
    obtain ⟨p, o⟩ := c
    refine ⟨⟨distinct_strings p, ?_, trivial⟩, ih⟩
    cases o <;> trivial

def writeChanges (cs : List (Path × Option Text)) : Text := render (.array (cs.map changeItem))

theorem loads_writeChanges (cs : List (Path × Option Text)) : (loads (writeChanges cs)).bind changesOf = some cs := by
  have hdistinct : Distinct (.array (cs.map changeItem)) := distinct_items cs
  rw [writeChanges, loads_render hdistinct, Option.bind_some, changesOf_items]

theorem writeChanges_head (cs : List (Path × Option Text)) : ∃ t, writeChanges cs = '[' :: t := by
  cases cs with
  | nil => exact ⟨_, rfl⟩
  | cons c cs => exact ⟨_, rfl⟩

def mainPath : Path := ["main.py".toList]

def oneLine : Text := "x = 1\n".toList

def nineLine : Text := "x = 9\n".toList

def oneToNine : Text :=
  "diff --git a/main.py b/main.py\nindex 7d4290a..57cb8b2 100644\n--- a/main.py\n+++ b/main.py\n@@ -1 +1 @@\n-x = 1\n+x = 9\n".toList

instance (t : Tree) : Decidable (Flat t) :=
  inferInstanceAs (Decidable (∀ f ∈ t, ∀ g ∈ t, properPrefix f.1 g.1 = false))

def isOneToNine (a b : Tree) : Bool :=
  decide (changes a b = [(mainPath, some nineLine)]) && decide (lookup a mainPath = some oneLine)

def listingDiff (a b : Tree) : Text :=
  if changes a b = [] then [] else if isOneToNine a b = true then oneToNine else writeChanges (changes a b)

def readPatch (patch : Text) : Option (List (Path × Option Text)) :=
  if patch = oneToNine then some [(mainPath, some nineLine)] else (loads patch).bind changesOf

def listingApply (t : Tree) (patch : Text) : Option Tree :=
  (readPatch patch).bind fun cs => if Flat (cs.foldl change t) then some (cs.foldl change t) else none

def listingGit : Git where
  ignored _ _ := false
  diff _ a b := listingDiff a b
  apply := listingApply

theorem readPatch_diff {a b : Tree} (h : ¬Same a b) : readPatch (listingDiff a b) = some (changes a b) := by
  have hsome : changes a b ≠ [] := fun hnil => h (changes_nil.mp hnil)
  unfold listingDiff readPatch
  rw [if_neg hsome]
  by_cases hone : isOneToNine a b = true
  · rw [if_pos hone, if_pos rfl]
    exact congrArg some (of_decide_eq_true (Bool.and_eq_true_iff.mp hone).1).symm
  · obtain ⟨t, ht⟩ := writeChanges_head (changes a b)
    have hother : writeChanges (changes a b) ≠ oneToNine := by
      rw [ht]
      intro he
      have hhead : some '[' = oneToNine.head? := congrArg List.head? he
      exact absurd hhead (by decide +kernel)
    rw [if_neg hone, if_neg hother, loads_writeChanges]

theorem listingGit_exact : Exact listingGit where
  ignored _ _ := rfl
  blank {_ a b} := by
    change isBlank (listingDiff a b) = true ↔ Same a b
    rw [← changes_nil]
    constructor
    · intro hblank
      by_contra hsome
      unfold listingDiff at hblank
      rw [if_neg hsome] at hblank
      split at hblank
      · exact absurd hblank (by decide +kernel)
      · obtain ⟨t, ht⟩ := writeChanges_head (changes a b)
        rw [ht] at hblank
        exact absurd (List.all_eq_true.mp hblank '[' List.mem_cons_self) (by decide)
    · intro hnil
      rw [listingDiff, if_pos hnil]
      rfl
  returns {_ a b} h := by
    have h : '\r' ∈ listingDiff a b := h
    unfold listingDiff at h
    split at h
    · exact nomatch h
    · split at h
      · exact absurd h (by decide +kernel)
      · exact absurd (render_visible _ _ h) (by decide)
  flat {t t' patch} h _ := by
    have h : listingApply t patch = some t' := h
    obtain ⟨cs, -, hcs⟩ := Option.bind_eq_some_iff.mp h
    split at hcs
    case isTrue hflat => exact Option.some.inj hcs ▸ hflat
    case isFalse => exact nomatch hcs
  apply {_ a b t r} hdiffer hflat hchanged hrest _ := by
    have hmade := changes_made hchanged hrest
    have hflat' : Flat ((changes a b).foldl change t) := by
      refine hflat.mono fun f hf => ?_
      have hsome : (lookup r f.1).isSome = true := by
        rw [← hmade f.1]
        exact lookup_isSome.mpr ⟨f, hf, rfl⟩
      exact lookup_isSome.mp hsome
    refine ⟨_, ?_, hmade⟩
    change listingApply t (listingDiff a b) = _
    rw [listingApply, readPatch_diff hdiffer, Option.bind_some, if_pos hflat']

def oneFile : GitWorkspace where
  baseFiles := [("main.py".toList, oneLine)]
  keys := List.nodup_singleton _

theorem mainPath_parts : parts "main.py".toList = mainPath := by decide

theorem mainPath_entries (x : Text) : GitWorkspace.entries [("main.py".toList, x)] = [(mainPath, x)] :=
  congrArg (fun p => [(p, x)]) mainPath_parts

theorem mainPath_safe (x : Text) : [("main.py".toList, x)].find? (leaves ·.1) = none := by
  have hsafe : leaves "main.py".toList = false := by decide
  rw [List.find?_singleton, if_neg (Bool.eq_false_iff.mp hsafe)]

theorem oneFile_rebuilt (git : Git) :
    oneFile.materialize git = .ok ⟨[(mainPath, oneLine)], git.addAll ⟨[(mainPath, oneLine)], []⟩⟩ := by
  have hmain : oneFile.hasMain [(mainPath, oneLine)] = true := by decide
  refine GitWorkspace.materialize_ok.mpr ⟨mainPath_safe oneLine, ⟨[(mainPath, oneLine)], ?_, rfl⟩, hmain⟩
  rw [oneFile, mainPath_entries]
  rfl

theorem oneFile_written (x : Text) : writeAll [] (GitWorkspace.entries [("main.py".toList, x)]) [(mainPath, oneLine)] =
    .ok [(mainPath, x)] := by
  have hfree : blocked [] [(mainPath, oneLine)] mainPath = false := by decide
  have hold : [(mainPath, oneLine)].filter (fun f => decide (f.1 ≠ mainPath)) = [] := by decide
  rw [mainPath_entries, writeAll, if_neg (Bool.eq_false_iff.mp hfree), put, hold]
  rfl

theorem oneFile_edited (git : Git) (x : Text) :
    ∃ child, oneFile.withFiles git [("main.py".toList, x)] = .ok child := by
  unfold GitWorkspace.withFiles
  rw [mainPath_safe]
  simp only [oneFile_rebuilt, oneFile_written, bind, Except.bind]
  split <;> exact ⟨_, rfl⟩

theorem listingGit_addAll (x : Text) (head : Tree) :
    listingGit.addAll ⟨[(mainPath, x)], head⟩ = [(mainPath, x)] := by
  have hout : inGitDir mainPath = false := by decide
  simp [Git.addAll, listingGit, hout]

theorem one_to_nine_recorded : EditsRecorded listingGit oneFile [("main.py".toList, nineLine)] := by
  constructor
  case rebuilt =>
    rw [oneFile_rebuilt]
    exact fun h => nomatch h
  case plain =>
    intro f hf
    rw [List.mem_singleton.mp hf]
    exact ⟨by decide, by decide⟩
  case written =>
    intro work hwork
    have hone := Except.ok.inj ((oneFile_rebuilt listingGit).symm.trans hwork)
    subst hone
    have hplain : ∀ p x, lookup [(mainPath, oneLine)] p = some x ∨ lookup [(mainPath, nineLine)] p = some x →
        '\r' ∉ x ∧ isBinary x = false := by
      intro p x hx
      have hcontent : x = oneLine ∨ x = nineLine := by
        rcases hx with hx | hx
        · exact .inl (Prod.mk.inj (List.mem_singleton.mp (GitWorkspace.lookup_mem hx))).2
        · exact .inr (Prod.mk.inj (List.mem_singleton.mp (GitWorkspace.lookup_mem hx))).2
      rcases hcontent with rfl | rfl
      · exact ⟨by decide, by decide⟩
      · exact ⟨by decide, by decide⟩
    refine ⟨_, oneFile_written nineLine, ⟨⟨fun p _ => ?_, fun p hp => ?_⟩, fun p x _ hx => (hplain p x hx).1⟩,
      fun p x _ hx => (hplain p x hx).2⟩
    · rw [listingGit_addAll, listingGit_addAll]
      exact ⟨rfl, rfl⟩
    · rw [listingGit_addAll, listingGit_addAll]
      exact (not_not.mp hp).symm

end EvoHarness.Core.Genome
