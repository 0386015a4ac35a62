import EvoHarness.Library.Fnmatch
import EvoHarness.Library.Hoare
import EvoHarness.Library.TreeWalk

/-! The static scanner for candidate programs, and the calls that an import lets through under another name. -/
namespace EvoHarness.Guard
open PyText Fnmatch TreeWalk
open Hoare (bind_ok_iff)

/-- `import name as asname`, or a name of `from ... import`. -/
structure Alias where
  name : Text
  asname : Option Text := none

inductive Node where
  | import_ (lineno : ℕ) (names : List Alias)
  | importFrom (lineno : ℕ) (module : Option Text) (names : List Alias) (level : ℕ := 0)
  | call (lineno : ℕ) (func : Node) (args : List Node)
  | name (id : Text)
  | attribute_ (value : Node) (attr : Text)
  | str (lineno : ℕ) (value : Text)
  | other (children : List Node)

/-- `ast.iter_child_nodes`, without the aliases of an import. -/
def Node.children : Node → List Node
  | .call _ func args => func :: args
  | .attribute_ value _ => [value]
  | .other children => children
  | _ => []

mutual

def Node.size : Node → ℕ
  | .call _ func args => 1 + (func.size + sizes args)
  | .attribute_ value _ => 1 + value.size
  | .other children => 1 + sizes children
  | _ => 1

def sizes : List Node → ℕ
  | [] => 0
  | t :: ts => t.size + sizes ts

end

def walkTree (t : Node) : List Node := walk Node.children t.size [t]

/-- What `ast.parse` makes of a text: besides a `SyntaxError` it may raise other exceptions. -/
inductive Parsed where
  | tree (t : Node)
  | syntaxError (lineno : Option ℕ) (message : Text)
  | raises (exception : Text)

structure Finding where
  rule : Text
  lineno : ℕ
  detail : Text
  path : Option Text := none
deriving DecidableEq

def defaultBannedImports : List Text :=
  ["socket".toList, "requests".toList, "urllib".toList, "urllib3".toList, "http".toList, "httpx".toList,
    "aiohttp".toList, "ftplib".toList, "smtplib".toList, "telnetlib".toList, "paramiko".toList, "websocket".toList,
    "websockets".toList, "subprocess".toList, "ctypes".toList, "importlib".toList, "pty".toList]

def bannedCalls : List Text := ["eval".toList, "exec".toList, "compile".toList, "__import__".toList]

def bannedOsAttrs : List Text :=
  ["system".toList, "popen".toList, "execv".toList, "execve".toList, "execvp".toList, "spawnl".toList, "fork".toList,
    "kill".toList]

structure AntiHackScanner where
  parse : Text → Parsed
  lower : Text → Text
  holdoutGlobs : List Text := ["*holdout*".toList]
  bannedImports : List Text := defaultBannedImports

def rootOf (name : Text) : Text := name.takeWhile (· ≠ '.')

namespace AntiHackScanner
variable (s : AntiHackScanner)

def isHoldout (text : Text) : Bool := s.holdoutGlobs.any fun pattern => fnmatch (s.lower text) (s.lower pattern)

def findingsOf : Node → List Finding
  | .import_ lineno names =>
    (names.filter fun a => s.bannedImports.contains (rootOf a.name)).map fun a =>
      { rule := "banned-import".toList, lineno, detail := a.name }
  | .importFrom lineno module _ _ =>
    if s.bannedImports.contains (rootOf (module.getD [])) then
      [{ rule := "banned-import".toList, lineno, detail := module.getD [] }]
    else []
  | .call lineno (.name id) _ =>
    if bannedCalls.contains id then [{ rule := "dynamic-exec".toList, lineno, detail := id }] else []
  | .call lineno (.attribute_ (.name id) attr) _ =>
    if id = "os".toList ∧ bannedOsAttrs.contains attr then
      [{ rule := "process-escape".toList, lineno, detail := "os.".toList ++ attr }]
    else []
  | .str lineno value =>
    if s.isHoldout value then [{ rule := "holdout-access".toList, lineno, detail := value }] else []
  | _ => []

def scan (code : Text) : Except Text (List Finding) :=
  match s.parse code with
  | .tree t => .ok ((walkTree t).flatMap s.findingsOf)
  | .syntaxError lineno message =>
    .ok [{ rule := "syntax-error".toList, lineno := lineno.getD 0, detail := message }]
  | .raises exception => .error exception

def scanFile (path code : Text) : Except Text (List Finding) := do
  let ofPath := if s.isHoldout path then [⟨"holdout-access".toList, 0, path, some path⟩] else []
  if ".py".toList.isSuffixOf path then
    let found ← s.scan code
    return ofPath ++ found.map fun f => { f with path := some path }
  else return ofPath

def scanFiles (texts : List (Text × Text)) : Except Text (List Finding) := do
  let found ← (texts.mergeSort fun a b => a.1 ≤ b.1).mapM fun f => s.scanFile f.1 f.2
  return found.flatten

inductive Binds : Node → Text → Text → Prop where
  | root {lineno : ℕ} {names : List Alias} {a : Alias} (ha : a ∈ names) (hname : a.asname = none) :
    Binds (.import_ lineno names) (rootOf a.name) (rootOf a.name)
  | asname {lineno : ℕ} {names : List Alias} {a : Alias} {n : Text} (ha : a ∈ names) (hname : a.asname = some n) :
    Binds (.import_ lineno names) n a.name
  | member {lineno : ℕ} {module : Text} {names : List Alias} {a : Alias} (ha : a ∈ names) :
    Binds (.importFrom lineno (some module) names) (a.asname.getD a.name) (module ++ '.' :: a.name)
  | star {lineno : ℕ} {module : Text} {names : List Alias} {a : Alias} {n : Text} (ha : a ∈ names)
      (hname : a.name = ['*']) (hpublic : n.head? ≠ some '_') :
    Binds (.importFrom lineno (some module) names) n (module ++ '.' :: n)

inductive StandsFor (n dotted : Text) : Node → Text → Prop where
  | name : StandsFor n dotted (.name n) dotted
  | member {value : Node} {d attr : Text} (h : StandsFor n dotted value d) :
    StandsFor n dotted (.attribute_ value attr) (d ++ '.' :: attr)

def BannedFunction (dotted : Text) : Prop :=
  (∃ f ∈ bannedOsAttrs, dotted = "os.".toList ++ f) ∨ ∃ f ∈ bannedCalls, dotted = "builtins.".toList ++ f

/-- `func` is called somewhere, and an import binds the name it starts with so that it is a banned function. -/
def CallsImported (t func : Node) : Prop :=
  ∃ lineno args node n dotted d, Below Node.children t (.call lineno func args) ∧ Below Node.children t node ∧
    Binds node n dotted ∧ StandsFor n dotted func d ∧ BannedFunction d

def ImportsBanned (t : Node) : Prop :=
  ∃ node n dotted, Below Node.children t node ∧ Binds node n dotted ∧ rootOf dotted ∈ s.bannedImports

/-- The spellings of the tables: `eval(...)`, `os.system(...)`. -/
def Literal (func : Node) : Prop :=
  (∃ id ∈ bannedCalls, func = .name id) ∨ ∃ attr ∈ bannedOsAttrs, func = .attribute_ (.name "os".toList) attr

/-- An import of a banned module, a call in a spelling of the tables, or a text that names the holdout. -/
inductive Names : Node → Prop where
  | import_ {lineno : ℕ} {names : List Alias} {a : Alias} (ha : a ∈ names) (h : rootOf a.name ∈ s.bannedImports) :
    Names (.import_ lineno names)
  | importFrom {lineno level : ℕ} {module : Option Text} {names : List Alias}
      (h : rootOf (module.getD []) ∈ s.bannedImports) : Names (.importFrom lineno module names level)
  | call {lineno : ℕ} {func : Node} {args : List Node} (h : Literal func) : Names (.call lineno func args)
  | holdout {lineno : ℕ} {value : Text} (h : s.isHoldout value = true) : Names (.str lineno value)

/-- A banned function is called through an imported name, and not in a spelling of the tables. -/
def Disguised (t : Node) : Prop := ∃ func, CallsImported t func ∧ ¬Literal func

/-- A program that uses what is banned is found out, and a text that is no program gives a finding. -/
def Sound (code : Text) : Prop :=
  match s.parse code with
  | .tree t => s.ImportsBanned t ∨ (∃ func, CallsImported t func) → ∃ found, s.scan code = .ok found ∧ found ≠ []
  | _ => ∃ found, s.scan code = .ok found ∧ found ≠ []

/-- Of a program, that no call is disguised unless something else in it is named; of another text, that the parser
raises nothing but a `SyntaxError`. -/
def Undisguised (code : Text) : Prop :=
  match s.parse code with
  | .tree t => Disguised t → ∃ node, Below Node.children t node ∧ s.Names node
  | .syntaxError _ _ => True
  | .raises _ => False

end AntiHackScanner

theorem sizes_eq (ts : List Node) : sizes ts = (ts.map Node.size).sum := by
  induction ts with
  | nil => rfl
  | cons t ts ih => rw [sizes, ih, List.map_cons, List.sum_cons]

theorem size_children (t : Node) : t.size = 1 + ((t.children).map Node.size).sum := by
  cases t with
  | call lineno func args => rw [Node.size, Node.children, List.map_cons, List.sum_cons, sizes_eq]
  | attribute_ value attr => simp [Node.size, Node.children]
  | other children => rw [Node.size, Node.children, sizes_eq]
  | _ => simp [Node.size, Node.children]

theorem mem_walkTree {t node : Node} : node ∈ walkTree t ↔ Below Node.children t node :=
  mem_walk_iff size_children t node

namespace AntiHackScanner
variable {s : AntiHackScanner} {t node : Node} {code : Text}

theorem findingsOf_ne_nil : s.findingsOf node ≠ [] ↔ s.Names node := by
  constructor
  · intro h
    unfold findingsOf at h
    split at h
    · next lineno names =>
      obtain ⟨f, hf⟩ := List.exists_mem_of_ne_nil _ h
      obtain ⟨a, ha, -⟩ := List.mem_map.mp hf
      rw [List.mem_filter, List.contains_iff_mem] at ha
      exact .import_ ha.1 ha.2
    · split at h
      · next hbanned => exact .importFrom (List.contains_iff_mem.mp hbanned)
      · exact absurd rfl h
    · split at h
      · next hid => exact .call (.inl ⟨_, List.contains_iff_mem.mp hid, rfl⟩)
      · exact absurd rfl h
    · split at h
      · next hattr =>
        rw [hattr.1]
        exact .call (.inr ⟨_, List.contains_iff_mem.mp hattr.2, rfl⟩)
      · exact absurd rfl h
    · split at h
      · next hvalue => exact .holdout hvalue
      · exact absurd rfl h
    · exact absurd rfl h
  · intro h
    cases h with
    | import_ ha h =>
      refine List.ne_nil_of_mem (List.mem_map_of_mem (List.mem_filter.mpr ⟨ha, ?_⟩))
      exact List.contains_iff_mem.mpr h
    | importFrom h => simp [findingsOf, h]
    | call h =>
      rcases h with ⟨id, hid, rfl⟩ | ⟨attr, hattr, rfl⟩
      · simp [findingsOf, hid]
      · simp [findingsOf, hattr]
    | holdout h => simp [findingsOf, h]

theorem scan_tree_iff (hparse : s.parse code = .tree t) :
    (∃ found, s.scan code = .ok found ∧ found ≠ []) ↔ ∃ node, Below Node.children t node ∧ s.Names node := by
  have hscan : s.scan code = .ok ((walkTree t).flatMap s.findingsOf) := by rw [scan, hparse]
  rw [hscan]
  constructor
  · rintro ⟨found, hfound, hne⟩
    cases hfound
    obtain ⟨f, hf⟩ := List.exists_mem_of_ne_nil _ hne
    obtain ⟨node, hnode, hmem⟩ := List.mem_flatMap.mp hf
    exact ⟨node, mem_walkTree.mp hnode, findingsOf_ne_nil.mp (List.ne_nil_of_mem hmem)⟩
  · rintro ⟨node, hnode, hnames⟩
    obtain ⟨f, hf⟩ := List.exists_mem_of_ne_nil _ (findingsOf_ne_nil.mpr hnames)
    exact ⟨_, rfl, List.ne_nil_of_mem (List.mem_flatMap.mpr ⟨node, mem_walkTree.mpr hnode, hf⟩)⟩

theorem rootOf_append_dot (m d : Text) : rootOf (m ++ '.' :: d) = rootOf m := by
  unfold rootOf
  induction m with
  | nil => simp
  | cons c m ih =>
    by_cases hc : c = '.'
    · simp [hc]
    · rw [List.cons_append, List.takeWhile_cons_of_pos (by simp [hc]), List.takeWhile_cons_of_pos (by simp [hc]), ih]

theorem rootOf_rootOf (m : Text) : rootOf (rootOf m) = rootOf m := by
  unfold rootOf
  rw [List.takeWhile_takeWhile]
  simp

theorem names_of_importsBanned (h : s.ImportsBanned t) : ∃ node, Below Node.children t node ∧ s.Names node := by
  obtain ⟨node, n, dotted, hnode, hbinds, hbanned⟩ := h
  refine ⟨node, hnode, ?_⟩
  cases hbinds with
  | root ha => exact .import_ ha (by rwa [rootOf_rootOf] at hbanned)
  | asname ha => exact .import_ ha hbanned
  | member ha => exact .importFrom (by rwa [rootOf_append_dot] at hbanned)
  | star ha => exact .importFrom (by rwa [rootOf_append_dot] at hbanned)

/-- On every text: what is banned is found out exactly when no call is disguised, or something else gives the program
away, and the parser has no other way to fail than a `SyntaxError`. -/
theorem sound_iff_undisguised (s : AntiHackScanner) (code : Text) : s.Sound code ↔ s.Undisguised code := by
  unfold Sound Undisguised
  split
  · next t hparse =>
    rw [hparse, scan_tree_iff hparse]
    constructor
    · rintro h ⟨func, hfunc, -⟩
      exact h (.inr ⟨func, hfunc⟩)
    · rintro h (himports | ⟨func, hfunc⟩)
      · exact names_of_importsBanned himports
      · by_cases hliteral : Literal func
        · obtain ⟨lineno, args, -, -, -, -, hcall, -⟩ := hfunc
          exact ⟨_, hcall, .call hliteral⟩
        · exact h ⟨func, hfunc, hliteral⟩
  · next hparse =>
    cases hp : s.parse code with
    | tree t => exact absurd hp (hparse t)
    | syntaxError lineno message =>
      refine iff_of_true ⟨_, by rw [scan, hp], List.cons_ne_nil _ _⟩ trivial
    | raises exception =>
      refine iff_of_false ?_ id
      rintro ⟨found, hfound, -⟩
      rw [scan, hp] at hfound
      exact nomatch hfound

theorem exists_of_mapM_ok {α β : Type} {f : α → Except Text β} {xs : List α} {ys : List β} (h : xs.mapM f = .ok ys)
    {x : α} (hx : x ∈ xs) : ∃ y ∈ ys, f x = .ok y := by
  induction xs generalizing ys with
  | nil => exact nomatch hx
  | cons a xs ih =>
    rw [List.mapM_cons, bind_ok_iff] at h
    obtain ⟨b, hb, h⟩ := h
    rw [bind_ok_iff] at h
    obtain ⟨bs, hbs, h⟩ := h
    cases h
    rcases List.mem_cons.mp hx with rfl | hx
    · exact ⟨b, List.mem_cons_self, hb⟩
    · obtain ⟨y, hy, hfx⟩ := ih hbs hx
      exact ⟨y, List.mem_cons_of_mem b hy, hfx⟩

theorem scanFiles_finds {texts : List (Text × Text)} {path : Text} {found : List Finding}
    (h : s.scanFiles texts = .ok found) (hfile : (path, code) ∈ texts) (hpy : ".py".toList.isSuffixOf path = true) :
    ∃ ofFile, s.scan code = .ok ofFile ∧ ∀ f ∈ ofFile, { f with path := some path } ∈ found := by
  rw [scanFiles, bind_ok_iff] at h
  obtain ⟨perFile, hperFile, h⟩ := h
  cases h
  have hsorted := (List.mergeSort_perm texts fun a b => a.1 ≤ b.1).mem_iff.mpr hfile
  obtain ⟨ofPath, hofPath, hscan⟩ := exists_of_mapM_ok hperFile hsorted
  simp only [scanFile, hpy, if_true] at hscan
  rw [bind_ok_iff] at hscan
  obtain ⟨ofFile, hofFile, hscan⟩ := hscan
  cases hscan
  refine ⟨ofFile, hofFile, fun f hf => List.mem_flatten.mpr ⟨_, hofPath, ?_⟩⟩
  exact List.mem_append_right _ (List.mem_map_of_mem (f := fun f : Finding => { f with path := some path }) hf)

def renamed : Text := "import os as o\no.system('x')\n".toList

def renamedTree : Node :=
  .other [.import_ 1 [⟨"os".toList, some "o".toList⟩],
    .other [.call 2 (.attribute_ (.name "o".toList) "system".toList) [.str 2 "x".toList]]]

def scanner : AntiHackScanner where
  parse code := if code = renamed then .tree renamedTree else .syntaxError (some 1) "invalid syntax".toList
  lower t := t.map Char.toLower

theorem renamed_not_found : ¬ ∀ (s : AntiHackScanner) (code : Text), s.Sound code := by
  intro h
  have hparse : scanner.parse renamed = .tree renamedTree := rfl
  have hsound := h scanner renamed
  rw [Sound, hparse] at hsound
  have hchild : ∀ x ∈ renamedTree.children, Below Node.children renamedTree x := fun x hx => .child hx (.self x)
  have hcall : CallsImported renamedTree (.attribute_ (.name "o".toList) "system".toList) :=
    ⟨2, [.str 2 "x".toList], _, _, _, _,
      .child (List.mem_cons_of_mem _ List.mem_cons_self) (.child List.mem_cons_self (.self _)),
      hchild _ List.mem_cons_self, .asname List.mem_cons_self rfl, .member .name,
      .inl ⟨"system".toList, by decide, rfl⟩⟩
  obtain ⟨found, hfound, hne⟩ := hsound (.inr ⟨_, hcall⟩)
  have hnone : scanner.scan renamed = .ok [] := rfl
  rw [hnone] at hfound
  exact hne (Except.ok.inj hfound).symm

end AntiHackScanner
end EvoHarness.Guard
