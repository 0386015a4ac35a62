import EvoHarness.Core.Agent.WorkspaceText
import EvoHarness.Library.Delimited
import EvoHarness.Library.Fnmatch
import EvoHarness.Library.PathTree

/-! The search tools of a workspace: `workspace_glob` walks the tree itself, and `workspace_grep` leaves
that to ripgrep, which is a parameter. -/
namespace EvoHarness.Core.Agent.WorkspaceSearch
open PyText PyBytes Json Fnmatch PathTree
open Genome (Path parts posix)

def vcsDirectories : List Text := [".bzr".toList, ".git".toList, ".hg".toList, ".jj".toList, ".svn".toList]

inductive Entry where
  | file (content : Bytes)
  | symlink
  | other
deriving DecidableEq

def Entry.isFile : Entry → Bool
  | .file _ => true
  | _ => false

def Name (n : Text) : Prop := n ≠ [] ∧ n ≠ ['.'] ∧ '/' ∉ n

/-- A workspace on disk; the entries of a directory stand in the order of their names. -/
structure Root where
  entries : List (Text × Tree Text Entry)
  sound : Sound Name (.dir entries)

def Root.tree (root : Root) : Tree Text Entry := .dir root.entries

def isSymlink : Option (Tree Text Entry) → Bool
  | some (.leaf .symlink) => true
  | _ => false

/-- `resolve_workspace_path(workdir, raw_path, allow_root=True)`; a path without links is its own
resolution. -/
def resolveWorkspacePath (root : Root) (rawPath : Text) : Except AgentToolError Path :=
  let relative := parts rawPath
  if Char.ofNat 0 ∈ rawPath then .error ("invalid-path".toList, "path cannot contain NUL bytes".toList)
  else if rawPath = [] ∨ rawPath = ['.'] then .ok []
  else if rawPath.head? = some '/' then .error ("path-escape".toList, "absolute paths are not allowed".toList)
  else if ['.', '.'] ∈ relative then .error ("path-escape".toList, "parent traversal is not allowed".toList)
  else if ∃ part ∈ relative, part ∈ vcsDirectories then
    .error ("invalid-path".toList, "version-control metadata is protected".toList)
  else if (relative.inits.any fun p => isSymlink (PathTree.find root.tree p)) = true then
    .error ("symlink".toList, "symlink paths are not allowed: ".toList ++ posix relative)
  else .ok relative

def displayPath (p : Path) : Text := if p = [] then ['.'] else posix p

/-- `_required_int(arguments, name, minimum=minimum, maximum=maximum)` -/
def requiredIntFrom (minimum : ℕ) (arguments : List (Text × Value)) (name : Text) (maximum : Option ℕ) :
    Except AgentToolError ℕ :=
  match get arguments name with
  | some (.number n) =>
    match n.toInt? with
    | none => invalidArguments (name ++ " must be an integer".toList)
    | some z =>
      if z < minimum ∨ (maximum.any fun m => decide ((m : ℤ) < z)) = true then
        invalidArguments (name ++ " must be at least ".toList ++ decimal minimum ++
          ((maximum.map fun m => " and at most ".toList ++ decimal m).getD []))
      else .ok z.toNat
  | _ => invalidArguments (name ++ " must be an integer".toList)

def requiredBool (arguments : List (Text × Value)) (name : Text) : Except AgentToolError Bool :=
  match get arguments name with
  | some (.bool b) => .ok b
  | _ => invalidArguments (name ++ " must be a boolean".toList)

def invalidPattern (message : String) {α : Type} : Except AgentToolError α :=
  .error ("invalid-pattern".toList, message.toList)

def validateGlobPattern (pattern : Text) : Except AgentToolError Text :=
  if pattern = [] ∨ Char.ofNat 0 ∈ pattern then
    invalidPattern "glob pattern must be non-empty and contain no NUL bytes"
  else
    let normalized := pattern.map fun c => if c = '\\' then '/' else c
    if normalized.head? = some '/' ∨ ['.', '.'] ∈ parts normalized then
      invalidPattern "glob pattern must stay within its search path"
    else if ∃ part ∈ parts normalized, part ∈ vcsDirectories then
      invalidPattern "glob pattern cannot access version-control metadata"
    else .ok normalized

def matchesRight : Path → List Text → Bool
  | _, [] => true
  | [], _ :: _ => false
  | n :: p, q :: qs => fnmatch n q && matchesRight p qs

/-- `PurePosixPath(path).match(pattern)`; there is no answer when it raises a `ValueError`. -/
def pathMatch (p : Path) (pattern : Text) : Option Bool :=
  if pattern.head? = some '/' then some false
  else if parts pattern = [] then none
  else some (matchesRight p.reverse (parts pattern).reverse)

def matchesGlob (p : Path) (pattern : Text) : Option Bool := do
  if ← pathMatch p pattern then some true
  else if "**/".toList.isPrefixOf pattern then pathMatch p (pattern.drop 3)
  else some false

inductive Failure where
  | toolError (e : AgentToolError)
  | valueError
deriving DecidableEq

def tool {α : Type} : Except AgentToolError α → Except Failure α
  | .ok x => .ok x
  | .error e => .error (.toolError e)

/-- `_iter_workspace_files(base, workdir)`, for what is at the base. -/
def iterWorkspaceFiles (base : Path) (found : Tree Text Entry) : List Path :=
  ((leaves (fun p _ => p.getLast?.all (· ∉ vcsDirectories)) [] found).filter (·.2.isFile)).map (base ++ ·.1)

structure WorkspaceGlobTool where
  maxResults : ℕ := 500
  maxResults_bounds : 1 ≤ maxResults ∧ maxResults ≤ 500 := by decide

structure GlobRequest where
  pattern : Text
  rawPath : Text
  offset : ℕ
  limit : ℕ

structure GlobAnswer where
  pattern : Text
  path : Text
  files : List Text
  totalFiles : ℕ
  offset : ℕ
  hasMore : Bool

def GlobRequest.ofArguments (glob : WorkspaceGlobTool) (arguments : List (Text × Value)) :
    Except AgentToolError GlobRequest := do
  validateExact ["limit".toList, "offset".toList, "path".toList, "pattern".toList] arguments
  let pattern ← validateGlobPattern (← requiredString arguments "pattern".toList)
  let rawPath ← requiredString arguments "path".toList
  let offset ← requiredIntFrom 0 arguments "offset".toList none
  let limit ← requiredIntFrom 1 arguments "limit".toList (some glob.maxResults)
  return ⟨pattern, rawPath, offset, limit⟩

def textOrder (a b : Text) : Bool := decide (a ≤ b)

def notFound (rawPath : Text) {α : Type} : Except AgentToolError α :=
  .error ("not-found".toList, "path does not exist: ".toList ++ rawPath)

def GlobRequest.base (root : Root) (r : GlobRequest) : Except AgentToolError (Path × Tree Text Entry) := do
  let base ← resolveWorkspacePath root r.rawPath
  match PathTree.find root.tree base with
  | none => notFound r.rawPath
  | some (.leaf _) => .error ("not-directory".toList, "not a directory: ".toList ++ r.rawPath)
  | some (.dir entries) => return (base, .dir entries)

def globbed (base : Path) (pattern : Text) : List Path → Option (List Path)
  | [] => some []
  | p :: ps => do
    let accepted ← matchesGlob (p.drop base.length) pattern
    let rest ← globbed base pattern ps
    return if accepted then p :: rest else rest

def GlobRequest.page (r : GlobRequest) (base : Path) (files : List Path) : GlobAnswer :=
  let found := (files.map displayPath).mergeSort textOrder
  let selected := (found.drop r.offset).take r.limit
  { pattern := r.pattern
    path := displayPath base
    files := selected
    totalFiles := found.length
    offset := r.offset
    hasMore := decide (r.offset + selected.length < found.length) }

def GlobRequest.answer (root : Root) (r : GlobRequest) : Except Failure GlobAnswer := do
  let (base, found) ← tool (r.base root)
  match globbed base r.pattern (iterWorkspaceFiles base found) with
  | none => .error .valueError
  | some files => return r.page base files

def WorkspaceGlobTool.invoke (glob : WorkspaceGlobTool) (root : Root) (arguments : List (Text × Value)) :
    Except Failure GlobAnswer := do
  let r ← tool (GlobRequest.ofArguments glob arguments)
  r.answer root

/-- A `--glob` argument: whether it began with `!`, and the paths below the directory that ripgrep runs
in that it matches, as files or as directories. -/
structure Rule where
  excludes : Bool
  accepts : Path → Bool → Bool

structure Query where
  globs : List Text
  ignoreCase : Bool
  regexp : Text
  path : Text

structure Event where
  path : Text
  lineNumber : ℕ
  line : Text
  submatches : ℕ

def Query.excludesVcs (d : Text) : Text := '!' :: (d ++ "/**".toList)

/-- `rg --json --hidden --sort path`. `ignored` is what its ignore files hide, `skipped` a file that is
too large or not text, `hits` the lines of a file that match, `asOption` a run whose path begins with
`-`, which ripgrep takes for an option, and `refusal` what the tool makes of a run that gives no answer,
or none that can be read. -/
structure Ripgrep where
  rule : Text → Option Rule
  ignored : Path → Bool → Bool
  skipped : Bytes → Bool
  hits : Text → Bool → Bytes → List (ℕ × Text × ℕ)
  asOption : Query → List Event
  refusal : Query → Option AgentToolError
  /-- A glob with a slash is anchored. -/
  anchored : ∀ d ∈ vcsDirectories, ∃ r, rule (Query.excludesVcs d) = some r ∧ r.excludes = true ∧
    ∀ p isDir, r.accepts p isDir = true ↔ ∃ n q, p = d :: n :: q

variable (rg : Ripgrep)

/-- The last glob that matches decides. Where none does, a file is left out when a glob asks for others. -/
def Ripgrep.admits (globs : List Text) (p : Path) (isDir : Bool) : Bool :=
  let rules := globs.filterMap rg.rule
  match rules.reverse.find? (·.accepts p isDir) with
  | some r => !r.excludes
  | none => !(!isDir && rules.any (!·.excludes)) && !rg.ignored p isDir

def Ripgrep.hitsOf (q : Query) (p : Path) : Entry → List Event
  | .file content =>
    if rg.skipped content then []
    else (rg.hits q.regexp q.ignoreCase content).map fun hit => ⟨posix p, hit.1, hit.2.1, hit.2.2⟩
  | _ => []

/-- A run, for what is at the path. Links are not followed, and the globs are not for the path itself. -/
def Ripgrep.run (q : Query) (base : Path) (found : Tree Text Entry) : List Event :=
  if q.path.head? = some '-' then rg.asOption q
  else (leaves (rg.admits q.globs) base found).flatMap fun l => rg.hitsOf q l.1 l.2

inductive OutputMode where
  | content
  | filesWithMatches
  | count
deriving DecidableEq

structure WorkspaceGrepTool where
  maxResults : ℕ := 500
  maxLineChars : ℕ := 500
  maxResults_bounds : 1 ≤ maxResults ∧ maxResults ≤ 500 := by decide
  maxLineChars_pos : 1 ≤ maxLineChars := by decide

structure GrepRequest where
  pattern : Text
  rawPath : Text
  glob : Text
  outputMode : OutputMode
  caseInsensitive : Bool
  headLimit : ℕ
  offset : ℕ

def requiredMode (arguments : List (Text × Value)) : Except AgentToolError OutputMode := do
  let mode ← requiredString arguments "output_mode".toList
  if mode = "content".toList then return .content
  else if mode = "files_with_matches".toList then return .filesWithMatches
  else if mode = "count".toList then return .count
  else invalidArguments "output_mode must be content, files_with_matches, or count".toList

def GrepRequest.ofArguments (grep : WorkspaceGrepTool) (arguments : List (Text × Value)) :
    Except AgentToolError GrepRequest := do
  validateExact ["case_insensitive".toList, "glob".toList, "head_limit".toList, "offset".toList,
    "output_mode".toList, "path".toList, "pattern".toList] arguments
  let pattern ← requiredString arguments "pattern".toList
  let rawPath ← requiredString arguments "path".toList
  let supplied ← requiredText arguments "glob".toList
  let glob ← if supplied = [] then .ok [] else validateGlobPattern supplied
  let outputMode ← requiredMode arguments
  let caseInsensitive ← requiredBool arguments "case_insensitive".toList
  let headLimit ← requiredIntFrom 1 arguments "head_limit".toList (some grep.maxResults)
  let offset ← requiredIntFrom 0 arguments "offset".toList none
  return ⟨pattern, rawPath, glob, outputMode, caseInsensitive, headLimit, offset⟩

def GrepRequest.base (root : Root) (r : GrepRequest) : Except AgentToolError (Path × Tree Text Entry) := do
  let base ← resolveWorkspacePath root r.rawPath
  match PathTree.find root.tree base with
  | none => notFound r.rawPath
  | some (.leaf (.file content)) => return (base, .leaf (.file content))
  | some (.leaf _) => .error ("not-file".toList, "not a file or directory: ".toList ++ r.rawPath)
  | some (.dir entries) => return (base, .dir entries)

def GrepRequest.query (r : GrepRequest) (base : Path) : Query where
  globs := vcsDirectories.map Query.excludesVcs ++ if r.glob = [] then [] else [r.glob]
  ignoreCase := r.caseInsensitive
  regexp := r.pattern
  path := displayPath base

inductive Found where
  | line (path : Text) (line : ℕ) (text : Text) (truncated : Bool)
  | file (path : Text)
  | count (path : Text) (matched : ℕ)

def Found.path : Found → Text
  | .line path _ _ _ => path
  | .file path => path
  | .count path _ => path

def stripLineEnd (t : Text) : Text := t.rdropWhile fun c => c = '\r' || c = '\n'

def contentLine (maxLineChars : ℕ) (e : Event) : Found :=
  let line := stripLineEnd e.line
  .line e.path e.lineNumber (line.take maxLineChars) (decide (maxLineChars < line.length))

def paths (events : List Event) : List Text := (events.map (·.path)).dedup.mergeSort textOrder

def countOf (events : List Event) (path : Text) : ℕ := ((events.filter (·.path = path)).map (·.submatches)).sum

def results (maxLineChars : ℕ) (events : List Event) : OutputMode → List Found
  | .content => events.map (contentLine maxLineChars)
  | .filesWithMatches => (paths events).map .file
  | .count => (paths events).map fun path => .count path (countOf events path)

structure GrepAnswer where
  mode : OutputMode
  pattern : Text
  path : Text
  results : List Found
  totalResults : ℕ
  totalMatches : ℕ
  offset : ℕ
  hasMore : Bool

def GrepRequest.page (grep : WorkspaceGrepTool) (r : GrepRequest) (base : Path) (events : List Event) : GrepAnswer :=
  let all := results grep.maxLineChars events r.outputMode
  let selected := (all.drop r.offset).take r.headLimit
  { mode := r.outputMode
    pattern := r.pattern
    path := displayPath base
    results := selected
    totalResults := all.length
    totalMatches := (events.map (·.submatches)).sum
    offset := r.offset
    hasMore := decide (r.offset + selected.length < all.length) }

def GrepRequest.answer (grep : WorkspaceGrepTool) (root : Root) (r : GrepRequest) :
    Except AgentToolError GrepAnswer := do
  let (base, found) ← r.base root
  match rg.refusal (r.query base) with
  | some e => .error e
  | none => return r.page grep base (rg.run (r.query base) base found)

def WorkspaceGrepTool.invoke (grep : WorkspaceGrepTool) (root : Root) (arguments : List (Text × Value)) :
    Except AgentToolError GrepAnswer := do
  let r ← GrepRequest.ofArguments grep arguments
  r.answer rg grep root

variable {rg} {root : Root}

theorem parts_posix {p : Path} (h : ∀ n ∈ p, Name n) : parts (posix p) = p := by
  cases p with
  | nil => rfl
  | cons n p =>
    rw [parts, posix, splitOn_join_of_free (List.cons_ne_nil n p) fun m hm => (h m hm).2.2, List.filter_eq_self]
    intro m hm
    exact decide_eq_true ⟨(h m hm).1, (h m hm).2.1⟩

theorem Root.names (root : Root) {p : Path} {e : Entry} (h : Reaches root.tree p e) : parts (posix p) = p :=
  parts_posix (root.sound.names_of_reaches h)

theorem displayPath_of_reaches {p : Path} {e : Entry} (h : Reaches root.tree p e) : displayPath p = posix p := by
  cases h
  rfl

theorem resolve_ok {rawPath : Text} {base : Path} (h : resolveWorkspacePath root rawPath = .ok base) :
    ∀ part ∈ base, part ∉ vcsDirectories := by
  unfold resolveWorkspacePath at h
  dsimp only at h
  split_ifs at h with _ _ _ _ hvcs
  · cases h
    exact fun _ hpart => nomatch hpart
  · cases h
    intro part hpart hmem
    exact hvcs ⟨part, hpart, hmem⟩

/-- The path leads to a regular file, through directories alone, and none of its parts is of version
control. -/
def Visible (root : Root) (path : Text) : Prop :=
  (∃ content, Reaches root.tree (parts path) (.file content)) ∧ ∀ part ∈ parts path, part ∉ vcsDirectories

theorem visible_posix_iff {p : Path} {content : Bytes} (h : Reaches root.tree p (.file content)) :
    Visible root (posix p) ↔ ∀ part ∈ p, part ∉ vcsDirectories := by
  rw [Visible, root.names h]
  exact and_iff_right ⟨content, h⟩

theorem mem_iterWorkspaceFiles {base p : Path} {found : Tree Text Entry} :
    p ∈ iterWorkspaceFiles base found ↔ ∃ q content, p = base ++ q ∧ Reaches found q (.file content) ∧
      ∀ n ∈ q, n ∉ vcsDirectories := by
  rw [iterWorkspaceFiles, List.mem_map]
  constructor
  · rintro ⟨⟨q, e⟩, hmem, rfl⟩
    obtain ⟨hleaf, hfile⟩ := List.mem_filter.mp hmem
    obtain ⟨q, rfl, hreach, hkept⟩ := (mem_leaves found).mp hleaf
    rw [kept_names] at hkept
    cases e with
    | file content => exact ⟨q, content, rfl, hreach, fun n hn => of_decide_eq_true (hkept n hn)⟩
    | symlink => exact nomatch hfile
    | other => exact nomatch hfile
  · rintro ⟨q, content, rfl, hreach, hnames⟩
    have hkept : Kept (fun p _ => p.getLast?.all (· ∉ vcsDirectories)) [] q :=
      kept_names.mpr fun n hn => decide_eq_true (hnames n hn)
    have hleaf := (mem_leaves found).mpr ⟨q, rfl, hreach, hkept⟩
    exact ⟨(q, .file content), List.mem_filter.mpr ⟨hleaf, rfl⟩, rfl⟩

theorem mem_of_globbed {base p : Path} {pattern : Text} {ps qs : List Path} (h : globbed base pattern ps = some qs)
    (hp : p ∈ qs) : p ∈ ps := by
  induction ps generalizing qs with
  | nil =>
    cases h
    exact hp
  | cons q ps ih =>
    rw [globbed, Option.bind_eq_bind, Option.bind_eq_some_iff] at h
    obtain ⟨accepted, -, h⟩ := h
    rw [Option.bind_eq_bind, Option.bind_eq_some_iff] at h
    obtain ⟨rest, hrest, h⟩ := h
    cases h
    split at hp
    · rcases List.mem_cons.mp hp with rfl | hp
      · exact List.mem_cons_self
      · exact List.mem_cons_of_mem _ (ih hrest hp)
    · exact List.mem_cons_of_mem _ (ih hrest hp)

theorem matchesGlob_all {p : Path} (hp : p ≠ []) : matchesGlob p "**/*".toList = some true := by
  have hparts : parts "**/*".toList = ["**".toList, "*".toList] := by decide
  have hlast : parts ("**/*".toList.drop 3) = ["*".toList] := by decide
  have hdeep : pathMatch p "**/*".toList = some (matchesRight p.reverse ["*".toList, "**".toList]) := by
    rw [pathMatch, hparts]
    rfl
  have hshallow : pathMatch p ("**/*".toList.drop 3) = some true := by
    obtain ⟨n, q, hq⟩ := List.exists_cons_of_ne_nil (mt List.reverse_eq_nil_iff.mp hp)
    rw [pathMatch, if_neg (by decide), if_neg (by decide), hlast, hq]
    change some (fnmatch n ['*'] && matchesRight q []) = some true
    rw [fnmatch_star, matchesRight]
    rfl
  rw [matchesGlob, hdeep]
  change (if _ then _ else if _ then _ else _) = _
  split
  · rfl
  · rw [if_pos (by decide), hshallow]

theorem globbed_all {base : Path} {ps : List Path} (h : ∀ p ∈ ps, p.drop base.length ≠ []) :
    globbed base "**/*".toList ps = some ps := by
  induction ps with
  | nil => rfl
  | cons p ps ih =>
    obtain ⟨hp, hps⟩ := List.forall_mem_cons.mp h
    rw [globbed, matchesGlob_all hp, ih hps]
    rfl

theorem GlobRequest.base_ok {r : GlobRequest} {base : Path} {found : Tree Text Entry}
    (h : r.base root = .ok (base, found)) :
    resolveWorkspacePath root r.rawPath = .ok base ∧ PathTree.find root.tree base = some found := by
  obtain ⟨p, hp, h⟩ := Hoare.bind_ok_iff.mp h
  split at h
  · exact nomatch h
  · exact nomatch h
  · next entries hfind =>
    cases h
    exact ⟨hp, hfind⟩

theorem tool_ok {α : Type} {x : Except AgentToolError α} {y : α} (h : tool x = .ok y) : x = .ok y := by
  cases x with
  | ok z => cases h; rfl
  | error e => exact nomatch h

theorem mem_of_mem_page {α : Type} {x : α} {xs : List α} {offset limit : ℕ} (h : x ∈ (xs.drop offset).take limit) :
    x ∈ xs := List.mem_of_mem_drop (List.mem_of_mem_take h)

theorem exists_page {α : Type} {x : α} {xs : List α} (h : x ∈ xs) : ∃ offset, x ∈ (xs.drop offset).take 1 := by
  obtain ⟨i, hi, rfl⟩ := List.mem_iff_getElem.mp h
  refine ⟨i, ?_⟩
  rw [List.drop_eq_getElem_cons hi]
  exact List.mem_cons_self

theorem GlobRequest.files_visible {r : GlobRequest} {answer : GlobAnswer} (h : r.answer root = .ok answer) {path : Text}
    (hpath : path ∈ answer.files) : Visible root path := by
  obtain ⟨⟨base, found⟩, hbase, h⟩ := Hoare.bind_ok_iff.mp h
  obtain ⟨hresolve, hfind⟩ := GlobRequest.base_ok (tool_ok hbase)
  dsimp only at h
  split at h
  · exact nomatch h
  · next files hfiles =>
    cases h
    obtain ⟨p, hp, rfl⟩ := List.mem_map.mp (List.mem_mergeSort.mp (mem_of_mem_page hpath))
    obtain ⟨q, content, rfl, hreach, hnames⟩ := mem_iterWorkspaceFiles.mp (mem_of_globbed hfiles hp)
    have hfile := Reaches.of_find hfind hreach
    rw [displayPath_of_reaches hfile, visible_posix_iff hfile]
    exact fun n hn => (List.mem_append.mp hn).elim (resolve_ok hresolve n) (hnames n)

/-- A page of the files that `workspace_glob` finds for `**/*` in the whole workspace has the path. -/
def Listed (root : Root) (path : Text) : Prop :=
  ∃ offset answer, (GlobRequest.mk "**/*".toList ['.'] offset 1).answer root = .ok answer ∧ path ∈ answer.files

theorem listed_of_reaches {p : Path} {content : Bytes} (h : Reaches root.tree p (.file content))
    (hnames : ∀ n ∈ p, n ∉ vcsDirectories) : Listed root (posix p) := by
  have hwalk : p ∈ iterWorkspaceFiles [] root.tree := mem_iterWorkspaceFiles.mpr ⟨p, content, rfl, h, hnames⟩
  have hall : globbed [] "**/*".toList (iterWorkspaceFiles [] root.tree) = some (iterWorkspaceFiles [] root.tree) := by
    apply globbed_all
    intro q hq
    obtain ⟨q, _, rfl, hreach, -⟩ := mem_iterWorkspaceFiles.mp hq
    cases hreach
    exact List.cons_ne_nil _ _
  have hmem : posix p ∈ ((iterWorkspaceFiles [] root.tree).map displayPath).mergeSort textOrder := by
    rw [List.mem_mergeSort, ← displayPath_of_reaches h]
    exact List.mem_map_of_mem hwalk
  obtain ⟨offset, hpage⟩ := exists_page hmem
  have hbase : (GlobRequest.mk "**/*".toList ['.'] offset 1).base root = .ok ([], root.tree) := by
    have hresolve : resolveWorkspacePath root ['.'] = .ok [] := rfl
    rw [GlobRequest.base, hresolve]
    rfl
  refine ⟨offset, (GlobRequest.mk "**/*".toList ['.'] offset 1).page [] (iterWorkspaceFiles [] root.tree), ?_, hpage⟩
  rw [GlobRequest.answer, hbase]
  change (match globbed [] "**/*".toList (iterWorkspaceFiles [] root.tree) with | none => _ | some files => _) = _
  rw [hall]
  rfl

def InVcsDirectory (p : Path) : Prop := ∃ d ∈ vcsDirectories, ∃ n q, p = d :: n :: q

def vcsRules (rg : Ripgrep) : List Rule := (vcsDirectories.map Query.excludesVcs).filterMap rg.rule

theorem vcsRules_exclude {r : Rule} (h : r ∈ vcsRules rg) : r.excludes = true := by
  obtain ⟨t, ht, hr⟩ := List.mem_filterMap.mp h
  obtain ⟨d, hd, rfl⟩ := List.mem_map.mp ht
  obtain ⟨r', hr', hexcludes, -⟩ := rg.anchored d hd
  rw [hr] at hr'
  cases hr'
  exact hexcludes

theorem vcsRules_accept {p : Path} {isDir : Bool} :
    (∃ r ∈ vcsRules rg, r.accepts p isDir = true) ↔ InVcsDirectory p := by
  constructor
  · rintro ⟨r, hr, haccepts⟩
    obtain ⟨t, ht, hr⟩ := List.mem_filterMap.mp hr
    obtain ⟨d, hd, rfl⟩ := List.mem_map.mp ht
    obtain ⟨r', hr', -, hpaths⟩ := rg.anchored d hd
    rw [hr] at hr'
    cases hr'
    exact ⟨d, hd, (hpaths p isDir).mp haccepts⟩
  · rintro ⟨d, hd, hp⟩
    obtain ⟨r, hr, -, hpaths⟩ := rg.anchored d hd
    exact ⟨r, List.mem_filterMap.mpr ⟨_, List.mem_map_of_mem hd, hr⟩, (hpaths p isDir).mpr hp⟩

def supplied (rg : Ripgrep) (glob : Text) : Option Rule := if glob = [] then none else rg.rule glob

/-- How a path stays out of a search: the glob of the call excludes it, or says nothing about it and
it is in a version-control directory at the top of the workspace, or a file where the glob asks for
others, or hidden by an ignore file. -/
inductive Hides (rg : Ripgrep) (glob : Text) (p : Path) (isDir : Bool) : Prop where
  | excluded (r : Rule) (hr : supplied rg glob = some r) (haccepts : r.accepts p isDir = true)
      (hexcludes : r.excludes = true)
  | inVcs (hsilent : ∀ r ∈ supplied rg glob, r.accepts p isDir = false) (hp : InVcsDirectory p)
  | notAsked (r : Rule) (hr : supplied rg glob = some r) (haccepts : r.accepts p isDir = false)
      (hincludes : r.excludes = false) (hfile : isDir = false)
  | ignored (hsilent : ∀ r ∈ supplied rg glob, r.accepts p isDir = false) (hp : rg.ignored p isDir = true)

theorem rules_eq (r : GrepRequest) (base : Path) :
    (r.query base).globs.filterMap rg.rule = vcsRules rg ++ (supplied rg r.glob).toList := by
  rw [GrepRequest.query, List.filterMap_append, supplied, vcsRules]
  split
  · rfl
  · cases h : rg.rule r.glob <;> simp [h]

theorem any_includes (r : Option Rule) :
    (vcsRules rg ++ r.toList).any (fun r => !r.excludes) = r.any (fun r => !r.excludes) := by
  have hvcs : (vcsRules rg).any (fun r => !r.excludes) = false := by
    rw [List.any_eq_false]
    intro r hr
    simp [vcsRules_exclude hr]
  rw [List.any_append, hvcs, Bool.false_or]
  cases r <;> simp

theorem silent_admits_iff {p : Path} {isDir asked : Bool} :
    (match (vcsRules rg).reverse.find? (·.accepts p isDir) with
      | some r => !r.excludes
      | none => !(!isDir && asked) && !rg.ignored p isDir) = false ↔
      InVcsDirectory p ∨ (isDir = false ∧ asked = true) ∨ rg.ignored p isDir = true := by
  cases hfind : (vcsRules rg).reverse.find? (·.accepts p isDir) with
  | some r =>
    have hr : r ∈ vcsRules rg := List.mem_reverse.mp (List.mem_of_find?_eq_some hfind)
    have hvcs : InVcsDirectory p := vcsRules_accept.mp ⟨r, hr, List.find?_some (p := fun r : Rule => r.accepts p isDir) hfind⟩
    simp [vcsRules_exclude hr, hvcs]
  | none =>
    have hvcs : ¬ InVcsDirectory p := by
      intro hp
      obtain ⟨r, hr, haccepts⟩ := vcsRules_accept.mpr hp
      exact List.find?_eq_none.mp hfind r (List.mem_reverse.mpr hr) haccepts
    cases isDir <;> cases asked <;> simp [hvcs]

theorem not_admits_iff {r : GrepRequest} {base p : Path} {isDir : Bool} :
    rg.admits (r.query base).globs p isDir = false ↔ Hides rg r.glob p isDir := by
  rw [Ripgrep.admits, rules_eq, any_includes, List.reverse_append]
  cases hsupplied : supplied rg r.glob with
  | none =>
    change (match (vcsRules rg).reverse.find? (·.accepts p isDir) with | some r => _ | none => _) = false ↔ _
    rw [silent_admits_iff]
    constructor
    · rintro (hp | ⟨-, hnone⟩ | hp)
      · exact .inVcs (by simp [hsupplied]) hp
      · exact nomatch hnone
      · exact .ignored (by simp [hsupplied]) hp
    · rintro (⟨g, hg, -, -⟩ | ⟨-, hp⟩ | ⟨g, hg, -, -, -⟩ | ⟨-, hp⟩)
      · exact nomatch hsupplied.symm.trans hg
      · exact .inl hp
      · exact nomatch hsupplied.symm.trans hg
      · exact .inr (.inr hp)
  | some g =>
    change (match (g :: (vcsRules rg).reverse).find? (·.accepts p isDir) with | some r => _ | none => _) = false ↔ _
    have hunique : ∀ {g' : Rule}, supplied rg r.glob = some g' → g' = g := by
      intro g' hg'
      exact Option.some.inj (hg'.symm.trans hsupplied)
    rw [List.find?_cons]
    cases haccepts : g.accepts p isDir with
    | true =>
      dsimp only
      constructor
      · intro hexcludes
        exact .excluded g hsupplied haccepts (by simpa using hexcludes)
      · rintro (⟨g', hg', -, hexcludes⟩ | ⟨hsilent, -⟩ | ⟨g', hg', hsilent, -, -⟩ | ⟨hsilent, -⟩)
        · rw [← hunique hg', hexcludes]
          rfl
        · rw [hsilent g hsupplied] at haccepts
          exact nomatch haccepts
        · rw [hunique hg', haccepts] at hsilent
          exact nomatch hsilent
        · rw [hsilent g hsupplied] at haccepts
          exact nomatch haccepts
    | false =>
      have hsilent : ∀ g' ∈ supplied rg r.glob, g'.accepts p isDir = false := by
        intro g' hg'
        rw [hunique hg', haccepts]
      dsimp only
      rw [silent_admits_iff]
      constructor
      · rintro (hp | ⟨hfile, hincludes⟩ | hp)
        · exact .inVcs hsilent hp
        · exact .notAsked g hsupplied haccepts (by simpa using hincludes) hfile
        · exact .ignored hsilent hp
      · rintro (⟨g', hg', hmatch, -⟩ | ⟨-, hp⟩ | ⟨g', hg', -, hincludes, hfile⟩ | ⟨-, hp⟩)
        · rw [hunique hg', haccepts] at hmatch
          exact nomatch hmatch
        · exact .inl hp
        · exact .inr (.inl ⟨hfile, by rw [← hunique hg']; simpa using hincludes⟩)
        · exact .inr (.inr hp)

theorem mem_paths {events : List Event} {path : Text} : path ∈ paths events ↔ ∃ e ∈ events, e.path = path := by
  rw [paths, List.mem_mergeSort, List.mem_dedup, List.mem_map]

theorem path_of_mem_results {maxLineChars : ℕ} {events : List Event} {mode : OutputMode} {x : Found}
    (h : x ∈ results maxLineChars events mode) : ∃ e ∈ events, e.path = x.path := by
  cases mode with
  | content =>
    obtain ⟨e, he, rfl⟩ := List.mem_map.mp h
    exact ⟨e, he, rfl⟩
  | filesWithMatches =>
    obtain ⟨path, hpath, rfl⟩ := List.mem_map.mp h
    exact mem_paths.mp hpath
  | count =>
    obtain ⟨path, hpath, rfl⟩ := List.mem_map.mp h
    exact mem_paths.mp hpath

theorem GrepRequest.base_ok {r : GrepRequest} {base : Path} {found : Tree Text Entry}
    (h : r.base root = .ok (base, found)) :
    resolveWorkspacePath root r.rawPath = .ok base ∧ PathTree.find root.tree base = some found := by
  obtain ⟨p, hp, h⟩ := Hoare.bind_ok_iff.mp h
  split at h
  · exact nomatch h
  · next content hfind =>
    cases h
    exact ⟨hp, hfind⟩
  · exact nomatch h
  · next entries hfind =>
    cases h
    exact ⟨hp, hfind⟩

def Matched (rg : Ripgrep) (r : GrepRequest) (content : Bytes) : Prop :=
  rg.skipped content = false ∧ rg.hits r.pattern r.caseInsensitive content ≠ []

theorem mem_run {r : GrepRequest} {base : Path} {found : Tree Text Entry} {path : Text}
    (hoption : (displayPath base).head? ≠ some '-') :
    (∃ e ∈ rg.run (r.query base) base found, e.path = path) ↔ ∃ q content, path = posix (base ++ q) ∧
      Reaches found q (.file content) ∧ Kept (rg.admits (r.query base).globs) base q ∧ Matched rg r content := by
  rw [Ripgrep.run, if_neg (show (r.query base).path.head? ≠ some '-' from hoption)]
  constructor
  · rintro ⟨e, he, rfl⟩
    obtain ⟨⟨p, entry⟩, hleaf, he⟩ := List.mem_flatMap.mp he
    obtain ⟨q, rfl, hreach, hkept⟩ := (mem_leaves found).mp hleaf
    cases entry with
    | file content =>
      rw [Ripgrep.hitsOf] at he
      split at he
      · exact nomatch he
      · next hread =>
        obtain ⟨hit, hhit, rfl⟩ := List.mem_map.mp he
        exact ⟨q, content, rfl, hreach, hkept, by simpa using hread, List.ne_nil_of_mem hhit⟩
    | symlink => exact nomatch he
    | other => exact nomatch he
  · rintro ⟨q, content, rfl, hreach, hkept, hread, hhits⟩
    obtain ⟨hit, hhit⟩ := List.exists_mem_of_ne_nil _ hhits
    refine ⟨⟨posix (base ++ q), hit.1, hit.2.1, hit.2.2⟩, List.mem_flatMap.mpr ⟨(base ++ q, .file content), ?_, ?_⟩, rfl⟩
    · exact (mem_leaves found).mpr ⟨q, rfl, hreach, hkept⟩
    · rw [Ripgrep.hitsOf, hread]
      exact List.mem_map.mpr ⟨hit, hhit, rfl⟩

theorem not_kept_iff {r : GrepRequest} {base q : Path} :
    ¬ Kept (rg.admits (r.query base).globs) base q ↔
      ∃ n rest done, q = done ++ n :: rest ∧ Hides rg r.glob (base ++ done ++ [n]) (!rest.isEmpty) := by
  simp only [Kept, not_forall, Bool.not_eq_true, not_admits_iff, exists_prop]

variable {grep : WorkspaceGrepTool}

/-- Whatever page of a search is asked for, in whatever mode, its paths are visible ones that
`workspace_glob` lists. -/
def Respects (rg : Ripgrep) (grep : WorkspaceGrepTool) (root : Root) (r : GrepRequest) : Prop :=
  ∀ outputMode headLimit offset answer,
    GrepRequest.answer rg grep root { r with outputMode, headLimit, offset } = .ok answer →
    ∀ x ∈ answer.results, Visible root x.path ∧ Listed root x.path

/-- Every file with lines that the search looks for, below the searched directory and below a
version-control directory, is hidden, or is in a directory that is. -/
def Hidden (rg : Ripgrep) (root : Root) (r : GrepRequest) : Prop :=
  ∀ base found, r.base root = .ok (base, found) → rg.refusal (r.query base) = none →
    ∀ q content, Reaches found q (.file content) → Matched rg r content → (∃ part ∈ q, part ∈ vcsDirectories) →
    ∃ n rest done, q = done ++ n :: rest ∧ Hides rg r.glob (base ++ done ++ [n]) (!rest.isEmpty)

theorem GrepRequest.answer_ok_iff {r : GrepRequest} {answer : GrepAnswer} :
    r.answer rg grep root = .ok answer ↔ ∃ base found, r.base root = .ok (base, found) ∧
      rg.refusal (r.query base) = none ∧ answer = r.page grep base (rg.run (r.query base) base found) := by
  constructor
  · intro h
    obtain ⟨⟨base, found⟩, hbase, h⟩ := Hoare.bind_ok_iff.mp h
    dsimp only at h
    split at h
    · exact nomatch h
    · next hrun =>
      cases h
      exact ⟨base, found, hbase, hrun, rfl⟩
  · rintro ⟨base, found, hbase, hrun, rfl⟩
    rw [GrepRequest.answer, hbase]
    change (match rg.refusal (r.query base) with | some e => _ | none => _) = _
    rw [hrun]
    rfl

/-- The files that `workspace_glob` returns are always visible. Those of a search are exactly when what
it looks for below a version-control directory is hidden. -/
theorem searches_respect_iff :
    (∀ glob arguments answer, WorkspaceGlobTool.invoke glob root arguments = .ok answer →
      ∀ path ∈ answer.files, Visible root path) ∧
    ∀ r : GrepRequest, (∀ base found, r.base root = .ok (base, found) → (displayPath base).head? ≠ some '-') →
      (Respects rg grep root r ↔ Hidden rg root r) := by
  constructor
  · intro glob arguments answer h path hpath
    obtain ⟨r, -, h⟩ := Hoare.bind_ok_iff.mp h
    exact GlobRequest.files_visible h hpath
  intro r hoption
  constructor
  · intro hrespects base found hbase hrun q content hreach hmatched hvcs
    rw [← not_kept_iff]
    intro hkept
    have hfile := Reaches.of_find (GrepRequest.base_ok hbase).2 hreach
    have hpath := (mem_run (hoption base found hbase)).mpr ⟨q, content, rfl, hreach, hkept, hmatched⟩
    obtain ⟨offset, hpage⟩ := exists_page (List.mem_map_of_mem (f := Found.file) (mem_paths.mpr hpath))
    have hvisible := (hrespects .filesWithMatches 1 offset _
      (GrepRequest.answer_ok_iff.mpr ⟨base, found, hbase, hrun, rfl⟩) _ hpage).1
    obtain ⟨part, hpart, hmem⟩ := hvcs
    exact (visible_posix_iff hfile).mp hvisible part (List.mem_append_right _ hpart) hmem
  · intro hhidden outputMode headLimit offset answer h x hx
    obtain ⟨base, found, hbase, hrun, rfl⟩ := GrepRequest.answer_ok_iff.mp h
    obtain ⟨hresolve, hfind⟩ := GrepRequest.base_ok hbase
    obtain ⟨q, content, hpath, hreach, hkept, hmatched⟩ :=
      (mem_run (hoption base found hbase)).mp (path_of_mem_results (mem_of_mem_page hx))
    have hfile := Reaches.of_find hfind hreach
    have hnames : ∀ part ∈ base ++ q, part ∉ vcsDirectories := by
      intro part hpart hmem
      rcases List.mem_append.mp hpart with hpart | hpart
      · exact resolve_ok hresolve part hpart hmem
      · exact not_kept_iff.mpr (hhidden base found hbase hrun q content hreach hmatched ⟨part, hpart, hmem⟩) hkept
    rw [hpath]
    exact ⟨(visible_posix_iff hfile).mpr hnames, listed_of_reaches hfile hnames⟩

def vcsRule (d : Text) : Rule where
  excludes := true
  accepts := fun
    | e :: _ :: _, _ => e = d
    | _, _ => false

def lineGrep : Ripgrep where
  rule t :=
    if t = ['*'] then some ⟨false, fun _ _ => true⟩
    else if t = "!.*".toList then some ⟨true, fun p _ => (p.getLastD []).head? = some '.'⟩
    else (vcsDirectories.find? fun d => t = Query.excludesVcs d).map vcsRule
  ignored _ _ := false
  skipped _ := false
  hits regexp _ content := if content = encode regexp then [(1, regexp, 1)] else []
  asOption _ := []
  refusal _ := none
  anchored := by
    have haccepts : ∀ d p isDir, (vcsRule d).accepts p isDir = true ↔ ∃ n q, p = d :: n :: q := by
      intro d p isDir
      match p with
      | [] => simp [vcsRule]
      | [e] => simp [vcsRule]
      | e :: n :: q => simp [vcsRule]
    intro d hd
    refine ⟨vcsRule d, ?_, rfl, haccepts d⟩
    simp only [vcsDirectories, List.mem_cons, List.not_mem_nil, or_false] at hd
    rcases hd with rfl | rfl | rfl | rfl | rfl <;> rfl

def repository : Tree Text Entry := .dir [("config".toList, .leaf (.file (encode "x".toList)))]

theorem repository_sound : Sound Name repository :=
  .dir (by decide) (by simp [Name]) fun e he => by
    rw [List.mem_singleton.mp he]
    exact .leaf _

def repositories : Root where
  entries := [(".git".toList, repository), ("a.py".toList, .leaf (.file (encode "y".toList))),
    ("sub".toList, .dir [(".git".toList, repository)])]
  sound := by
    refine .dir (by decide) (by simp [Name]) fun e he => ?_
    simp only [List.mem_cons, List.not_mem_nil, or_false] at he
    rcases he with rfl | rfl | rfl
    · exact repository_sound
    · exact .leaf _
    · refine .dir (by decide) (by simp [Name]) fun e he => ?_
      rw [List.mem_singleton.mp he]
      exact repository_sound

def grepArguments (glob : Text) : List (Text × Value) :=
  [("pattern".toList, .string "x".toList), ("path".toList, .string ['.']), ("glob".toList, .string glob),
    ("output_mode".toList, .string "content".toList), ("case_insensitive".toList, .bool false),
    ("head_limit".toList, .number (.ofNat 9)), ("offset".toList, .number (.ofNat 0))]

theorem grepArguments_accepted {glob : Text} (h : glob = [] ∨ glob = ['*']) :
    GrepRequest.ofArguments {} (grepArguments glob) = .ok ⟨"x".toList, ['.'], glob, .content, false, 9, 0⟩ := by
  have hvalid : validateExact ["case_insensitive".toList, "glob".toList, "head_limit".toList, "offset".toList,
      "output_mode".toList, "path".toList, "pattern".toList] (grepArguments glob) = .ok () := by
    have hextra : ((grepArguments glob).map (·.1)).filter (· ∉ ["case_insensitive".toList, "glob".toList,
        "head_limit".toList, "offset".toList, "output_mode".toList, "path".toList, "pattern".toList]) = [] := by
      change (["pattern".toList, "path".toList, "glob".toList, "output_mode".toList, "case_insensitive".toList,
        "head_limit".toList, "offset".toList] : List Text).filter _ = []
      decide
    rw [validateExact, hextra, List.mergeSort_nil]
    rfl
  rw [GrepRequest.ofArguments, hvalid]
  rcases h with rfl | rfl
  · rfl
  · rfl

/-- The exclusions hold for the top of the workspace alone, and not where the glob of the call matches. -/
theorem metadata_found :
    (∃ answer, WorkspaceGrepTool.invoke lineGrep {} repositories (grepArguments []) = .ok answer ∧
      answer.results = [.line "sub/.git/config".toList 1 "x".toList false]) ∧
    (∃ answer, WorkspaceGrepTool.invoke lineGrep {} repositories (grepArguments ['*']) = .ok answer ∧
      answer.results = [.line ".git/config".toList 1 "x".toList false,
        .line "sub/.git/config".toList 1 "x".toList false]) ∧
    ¬ Visible repositories "sub/.git/config".toList ∧ ¬ Visible repositories ".git/config".toList := by
  refine ⟨?_, ?_, ?_, ?_⟩
  · rw [WorkspaceGrepTool.invoke, grepArguments_accepted (.inl rfl)]
    exact ⟨_, rfl, rfl⟩
  · rw [WorkspaceGrepTool.invoke, grepArguments_accepted (.inr rfl)]
    exact ⟨_, rfl, rfl⟩
  · rintro ⟨-, hnames⟩
    exact hnames ".git".toList (by decide) (by decide)
  · rintro ⟨-, hnames⟩
    exact hnames ".git".toList (by decide) (by decide)

def globArguments : List (Text × Value) :=
  [("pattern".toList, .string "**/*".toList), ("path".toList, .string ['.']), ("offset".toList, .number (.ofNat 0)),
    ("limit".toList, .number (.ofNat 9))]

theorem glob_repositories :
    ∃ answer, WorkspaceGlobTool.invoke {} repositories globArguments = .ok answer ∧ answer.files = ["a.py".toList] := by
  have hvalid : validateExact ["limit".toList, "offset".toList, "path".toList, "pattern".toList] globArguments =
      .ok () := by
    have hextra : (globArguments.map (·.1)).filter (· ∉ ["limit".toList, "offset".toList, "path".toList,
        "pattern".toList]) = [] := by
      change (["pattern".toList, "path".toList, "offset".toList, "limit".toList] : List Text).filter _ = []
      decide
    rw [validateExact, hextra, List.mergeSort_nil]
    rfl
  have haccepted : GlobRequest.ofArguments {} globArguments = .ok ⟨"**/*".toList, ['.'], 0, 9⟩ := by
    rw [GlobRequest.ofArguments, hvalid]
    rfl
  refine ⟨(GlobRequest.mk "**/*".toList ['.'] 0 9).page [] [["a.py".toList]], ?_, ?_⟩
  · rw [WorkspaceGlobTool.invoke, haccepted]
    rfl
  · rw [GlobRequest.page, List.map_singleton, List.mergeSort_singleton]
    rfl

theorem dotted_vcs {d : Text} (h : d ∈ vcsDirectories) : d.head? = some '.' := by
  revert d
  decide

/-- Everything below a version-control directory matches `x`, and a glob keeps each such directory out. -/
theorem repositories_hidden : Hidden lineGrep repositories ⟨"x".toList, ['.'], "!.*".toList, .content, false, 9, 0⟩ := by
  intro base found hbase hrun q content hreach hmatched hvcs
  obtain ⟨part, hpart, hmem⟩ := hvcs
  obtain ⟨done, rest, rfl⟩ := List.append_of_mem hpart
  refine ⟨part, rest, done, rfl, .excluded ⟨true, fun p _ => (p.getLastD []).head? = some '.'⟩ rfl ?_ rfl⟩
  rw [decide_eq_true_iff, List.getLastD_concat]
  exact dotted_vcs hmem

theorem repositories_respected :
    (∃ answer, WorkspaceGlobTool.invoke {} repositories globArguments = .ok answer ∧ answer.files = ["a.py".toList] ∧
      Visible repositories "a.py".toList) ∧
    Respects lineGrep {} repositories ⟨"x".toList, ['.'], "!.*".toList, .content, false, 9, 0⟩ := by
  constructor
  · obtain ⟨answer, hanswer, hfiles⟩ := glob_repositories
    have hvisible := (@searches_respect_iff lineGrep repositories {}).1 {} globArguments answer hanswer
    exact ⟨answer, hanswer, hfiles, hvisible _ (by rw [hfiles]; exact List.mem_singleton_self _)⟩
  · refine (searches_respect_iff.2 _ fun base found hbase => ?_).mpr repositories_hidden
    cases hbase
    decide

end EvoHarness.Core.Agent.WorkspaceSearch
