import EvoHarness.Library.Hoare
import EvoHarness.Library.JsonMembers

/-! Workspaces: the genome of a candidate, how it is written to its row, and how its files are built.
git is a parameter. -/
namespace EvoHarness.Core.Genome
open PyText Json
open Hoare (bind_ok_iff)

abbrev Path := List Text

/-- `Path(rel).parts`, behind the root of an absolute path. -/
def parts (rel : Text) : Path := (rel.splitOn '/').filter fun p => p ≠ [] ∧ p ≠ ['.']

def posix (p : Path) : Text := join ['/'] p

/-- `Path(rel).is_absolute() or ".." in Path(rel).parts` -/
def leaves (rel : Text) : Bool := rel.head? = some '/' || (parts rel).contains ['.', '.']

abbrev Tree := List (Path × Text)

def lookup (t : Tree) (p : Path) : Option Text := (t.find? (·.1 = p)).map (·.2)

def put (t : Tree) (p : Path) (x : Text) : Tree := t.filter (·.1 ≠ p) ++ [(p, x)]

def sameFiles (a b : Tree) : Bool := (a ++ b).all fun f => lookup a f.1 = lookup b f.1

inductive Fault where
  | workspaceError (message : Text)
  | osError
deriving DecidableEq

def gitFailed (arg : String) : Fault := .workspaceError ("git ".toList ++ arg.toList ++ " failed".toList)

inductive Entry where
  | file (content : Text)
  | binary (size : ℕ)
  | symlink

def maxTextFileSize : ℕ := 2 * 1024 * 1024

def utf8Size (t : Text) : ℕ := (t.map Char.utf8Size).sum

def readEntry (p : Path) : Entry → Except Fault Text
  | .symlink => .error (.workspaceError ("symlinks are not supported: ".toList ++ posix p))
  | .binary size =>
    if maxTextFileSize < size then .error (.workspaceError ("candidate file too large: ".toList ++ posix p))
    else .error (.workspaceError ("binary files are not supported: ".toList ++ posix p))
  | .file content =>
    if maxTextFileSize < utf8Size content then
      .error (.workspaceError ("candidate file too large: ".toList ++ posix p))
    else .ok (universalNewlines content)

/-- What `rglob` finds below a directory: every path once, spelled as `pathlib` spells it. -/
structure Listing where
  entries : List (Path × Entry)
  spelled : ∀ f ∈ entries, parts (posix f.1) = f.1
  once : (entries.map (·.1)).Nodup

def hidden (p : Path) : Bool := p.contains ".git".toList || p.contains "__pycache__".toList

def readTextTree : List (Path × Entry) → Except Fault Tree
  | [] => .ok []
  | (p, e) :: rest =>
    if hidden p then readTextTree rest
    else do
      let text ← readEntry p e
      let texts ← readTextTree rest
      return (p, text) :: texts

def properPrefix (p q : Path) : Bool := p.isPrefixOf q && p.length < q.length

/-- `path.parent.mkdir(...)` or `path.write_text(...)` raises: a parent is a file, or the path is a
directory. `was` are files that were removed before, whose directories stay. -/
def blocked (was t : Tree) (p : Path) : Bool :=
  p.isEmpty || t.any (fun f => properPrefix f.1 p) || (t ++ was).any fun f => properPrefix p f.1

def writeAll (was : Tree) : List (Path × Text) → Tree → Except Fault Tree
  | [], t => .ok t
  | (p, x) :: more, t => if blocked was t p then .error .osError else writeAll was more (put t p x)

/-- `git check-ignore`, `git diff --cached` from HEAD to the index with `--binary` or without, and
`git apply` on the working directory. -/
structure Git where
  ignored : Tree → Path → Bool
  diff : Bool → Tree → Tree → Text
  apply : Tree → Text → Option Tree

structure Repo where
  files : Tree
  head : Tree

def Git.patch (git : Git) (binary : Bool) (head index : Tree) : Text := universalNewlines (git.diff binary head index)

def inGitDir (p : Path) : Bool := p.contains ".git".toList

def Git.addAll (git : Git) (r : Repo) : Tree :=
  r.files.filter fun f => !inGitDir f.1 && ((lookup r.head f.1).isSome || !git.ignored r.files f.1)

def Git.step (git : Git) (r : Repo) (patch : Text) : Except Fault Repo :=
  match git.apply r.files patch with
  | none => .error (gitFailed "apply")
  | some files =>
    let head := git.addAll ⟨files, r.head⟩
    if sameFiles head r.head then .error (gitFailed "commit") else .ok ⟨files, head⟩

def Git.steps (git : Git) : List Text → Repo → Except Fault Repo
  | [], r => .ok r
  | patch :: patches, r => git.step r patch >>= git.steps patches

structure FileWorkspace where
  code : Text
  filename : Text := "main.py".toList
deriving DecidableEq

structure GitWorkspace where
  baseFiles : List (Text × Text)
  keys : (baseFiles.map (·.1)).Nodup
  patches : List Text := []
  mainFile : Text := "main.py".toList

namespace GitWorkspace

def entries (files : List (Text × Text)) : List (Path × Text) := files.map fun f => (parts f.1, f.2)

def child (w : GitWorkspace) (patch : Text) : GitWorkspace := { w with patches := w.patches ++ [patch] }

def hasMain (w : GitWorkspace) (files : Tree) : Bool := files.any fun f => (parts w.mainFile).isPrefixOf f.1

section
variable (git : Git) (w : GitWorkspace)

def materialize : Except Fault Repo :=
  match w.baseFiles.find? (leaves ·.1) with
  | some f => .error (.workspaceError ("unsafe path in base_files: ".toList ++ f.1))
  | none => do
    let files ← writeAll [] (entries w.baseFiles) []
    let repo ← git.steps w.patches ⟨files, git.addAll ⟨files, []⟩⟩
    if w.hasMain repo.files then return repo
    else .error (.workspaceError ("main file '".toList ++ w.mainFile ++ "' missing after rebuild".toList))

def mainText : Except Fault Text := do
  let repo ← w.materialize git
  match lookup repo.files (parts w.mainFile) with
  | some x => return universalNewlines x
  | none => .error .osError

def readTexts (files : Tree) : Tree :=
  (files.filter fun f => !inGitDir f.1).map fun f => (f.1, universalNewlines f.2)

def texts : Except Fault Tree := do
  let repo ← w.materialize git
  return readTexts repo.files

def withFiles (edits : List (Text × Text)) : Except Fault GitWorkspace :=
  match edits.find? (leaves ·.1) with
  | some f => .error (.workspaceError ("unsafe path in edits: ".toList ++ f.1))
  | none => do
    let work ← w.materialize git
    let files ← writeAll [] (entries edits) work.files
    let patch := git.patch false work.head (git.addAll ⟨files, work.head⟩)
    if isBlank patch then return w else return w.child patch

def withMainText (newText : Text) : Except Fault GitWorkspace := w.withFiles git [(w.mainFile, newText)]

/-- The files that stay when those in `parent` and not in `current` are removed. -/
def unlinked (current parent files : Tree) : Tree :=
  files.filter fun f => (lookup parent f.1).isNone || (lookup current f.1).isSome

def captureChild (source : Listing) : Except Fault GitWorkspace := do
  let current ← readTextTree source.entries
  if current.all fun f => posix f.1 ≠ w.mainFile then
    .error (.workspaceError ("main file '".toList ++ w.mainFile ++ "' missing after agent session".toList))
  else do
    let clean ← w.materialize git
    let parent ← readTextTree (clean.files.map fun f => (f.1, .file f.2))
    if sameFiles current parent then return w
    else do
      let files ← writeAll clean.files current (unlinked current parent clean.files)
      let patch := git.patch true clean.head (git.addAll ⟨files, clean.head⟩)
      if isBlank patch then
        .error (.workspaceError "workspace files changed but no canonical patch was produced".toList)
      else return w.child patch

end

def members (w : GitWorkspace) : List (Text × Value) :=
  [("base_files".toList, .object (w.baseFiles.map fun f => (f.1, .string f.2))),
    ("main_file".toList, .string w.mainFile),
    ("patches".toList, .array (w.patches.map .string))]

def serialize (w : GitWorkspace) : Text := render (.object w.members)

end GitWorkspace

def textOf : Value → Option Text
  | .string s => some s
  | _ => none

def textsOf : Value → Option (List Text)
  | .array xs => xs.mapM textOf
  | _ => none

def filesOf : Value → Option (List (Text × Text))
  | .object ps => ps.mapM fun p => (textOf p.2).map fun s => (p.1, s)
  | _ => none

/-- The data of a blob, where it has the types that `serialize` writes. -/
def GitWorkspace.ofData : Value → Option GitWorkspace
  | .object ps => do
    let baseFiles ← (Json.get ps "base_files".toList).bind filesOf
    let patches ← (Json.get ps "patches".toList).bind textsOf
    let mainFile ← (Json.get ps "main_file".toList).bind textOf
    if keys : (baseFiles.map (·.1)).Nodup then some { baseFiles, keys, patches, mainFile } else none
  | _ => none

def GitWorkspace.deserialize (blob : Text) : Except Fault GitWorkspace :=
  match (loads blob).bind ofData with
  | some w => .ok w
  | none => .error (.workspaceError "unreadable git workspace blob".toList)

namespace FileWorkspace

def withFiles (w : FileWorkspace) (edits : List (Text × Text)) : Except Fault FileWorkspace :=
  if edits.any fun f => f.1 ≠ w.filename then
    .error (.workspaceError "single-file genome cannot grow files".toList)
  else .ok ⟨(Option.map (·.2) (edits.find? (·.1 = w.filename))).getD w.code, w.filename⟩

def withMainText (w : FileWorkspace) (newText : Text) : Except Fault FileWorkspace :=
  w.withFiles [(w.filename, newText)]

def texts (w : FileWorkspace) : Tree := [(parts w.filename, w.code)]

/-- `materialize` makes the directory, but not the parents of the file. An absolute name is not below
the directory. -/
def materialize (w : FileWorkspace) : Except Fault Tree :=
  if w.filename.head? = some '/' then .ok []
  else if (parts w.filename).length = 1 ∧ leaves w.filename = false then .ok w.texts
  else .error .osError

end FileWorkspace

inductive Workspace where
  | file (w : FileWorkspace)
  | git (w : GitWorkspace)

namespace Workspace

def kind : Workspace → Text
  | .file _ => "file".toList
  | .git _ => "git".toList

def serialize : Workspace → Text
  | .file w => w.code
  | .git w => w.serialize

def load (kind blob : Text) : Except Fault Workspace :=
  if kind = "file".toList then .ok (.file { code := blob })
  else if kind = "git".toList then (GitWorkspace.deserialize blob).map .git
  else .error (.workspaceError ("unknown workspace kind: ".toList ++ kind))

section
variable (git : Git)

def mainText : Workspace → Except Fault Text
  | .file w => .ok w.code
  | .git w => w.mainText git

def texts : Workspace → Except Fault Tree
  | .file w => .ok w.texts
  | .git w => w.texts git

def materialize : Workspace → Except Fault Tree
  | .file w => w.materialize
  | .git w => do
    let repo ← w.materialize git
    return repo.files

end
end Workspace

theorem textsOf_strings (xs : List Text) : textsOf (.array (xs.map .string)) = some xs := by
  induction xs with
  | nil => rfl
  | cons x xs ih =>
    simp only [textsOf] at ih
    simp [textsOf, textOf, ih]

theorem filesOf_strings (fs : List (Text × Text)) : filesOf (.object (fs.map fun f => (f.1, .string f.2))) = some fs := by
  induction fs with
  | nil => rfl
  | cons f fs ih =>
    simp only [filesOf] at ih
    simp only [filesOf, List.map_cons, List.mapM_cons, ih]
    rfl

theorem distinct_strings (xs : List Text) : DistinctItems (xs.map .string) := by
  induction xs with
  | nil => trivial
  | cons x xs ih => exact ⟨trivial, ih⟩

namespace GitWorkspace
variable (w : GitWorkspace)

theorem members_keys : (w.members.map (·.1)).Nodup := by
  have hkeys : ["base_files".toList, "main_file".toList, "patches".toList].Nodup := by decide +kernel
  exact hkeys

theorem distinct_members : Distinct (.object w.members) := by
  have hkeys : ((w.baseFiles.map fun f => (f.1, Value.string f.2)).map (·.1)).Nodup := by
    rw [List.map_map]
    exact w.keys
  have hfiles : DistinctMembers (w.baseFiles.map fun f => (f.1, Value.string f.2)) := by
    rw [distinctMembers_iff]
    intro p hp
    obtain ⟨f, -, rfl⟩ := List.mem_map.mp hp
    trivial
  exact ⟨w.members_keys, ⟨hkeys, hfiles⟩, trivial, distinct_strings w.patches, trivial⟩

theorem ofData_members : ofData (.object w.members) = some w := by
  have hbase : (Json.get w.members "base_files".toList).bind filesOf = some w.baseFiles := by
    rw [get_of_mem w.members_keys List.mem_cons_self]
    exact filesOf_strings w.baseFiles
  have hmain : (Json.get w.members "main_file".toList).bind textOf = some w.mainFile := by
    rw [get_of_mem w.members_keys (List.mem_cons_of_mem _ List.mem_cons_self)]
    rfl
  have hpatches : (Json.get w.members "patches".toList).bind textsOf = some w.patches := by
    rw [get_of_mem w.members_keys (List.mem_cons_of_mem _ (List.mem_cons_of_mem _ List.mem_cons_self))]
    exact textsOf_strings w.patches
  simp only [ofData, hbase, hmain, hpatches, Option.bind_eq_bind, Option.bind_some]
  exact dif_pos w.keys

theorem deserialize_serialize : deserialize w.serialize = .ok w := by
  unfold deserialize serialize
  rw [loads_render w.distinct_members, Option.bind_some, w.ofData_members]

end GitWorkspace

end EvoHarness.Core.Genome
