import EvoHarness.Library.LeanComments
import EvoHarness.Library.Spacing
import EvoHarness.RunSolver

/-! A candidate file split once into what the verifier checks: the context of its
preamble, the body of its edit region, and the query commands behind it. -/
namespace EvoHarness.Proof.Envelope
open PyText LeanComments

@[irreducible] def beginMark : Text := "-- EDIT-REGION-BEGIN".toList
@[irreducible] def endMark : Text := "-- EDIT-REGION-END".toList

def strippable : List Text := ["#print axioms".toList, "#print".toList, "#check".toList]

def schemaVersion : ℕ := 1

/-- The verifier's contract; a root that is not expected, or expected twice, has none. -/
structure SourceEnvelope where
  candidateFileSha256 : Text
  imports : List Text
  /-- The context's `raw` entry, if it has one. -/
  ctx : Option (List Text)
  body : Text
  primaryRoot : Text
  expectedRoots : List Text
  strippedCommands : List Text := []
  schema : ℕ := schemaVersion
  rooted : primaryRoot ∈ expectedRoots
  distinct : expectedRoots.Nodup

structure PreambleContext where
  imports : List Text
  ctx : Option (List Text) := none

def isHeaderLine (line : Text) : Bool :=
  "import ".toList.isPrefixOf (strip line) || strip line == [] || "--".toList.isPrefixOf (strip line)

/-- `_DANGLING_IN` on a line without white space at its end. -/
def danglingIn (last : Text) : Bool :=
  last == "in".toList || (last.reverse.take 2 == "ni".toList && (last.reverse[2]?).any isSpace)

def lastCommand (rest : Text) : Text :=
  (((splitlines rest).reverse.map strip).find? fun line =>
    line != [] && !"--".toList.isPrefixOf line).getD []

def preambleContext (preamble : Text) : Except Text PreambleContext :=
  let lines := splitlines (strip preamble)
  let imports := ((lines.takeWhile isHeaderLine).map strip).filter ("import ".toList.isPrefixOf ·)
  let rest := strip (join ['\n'] (lines.dropWhile isHeaderLine))
  let last := lastCommand rest
  if danglingIn last then
    .error ("the preamble ends with `".toList ++ last ++ "`, which scopes only the next ".toList ++
      "command; after the split there is none. Put the `open` in the ".toList ++
      "preamble without `in`, or inside the edit region".toList)
  else .ok { imports, ctx := if rest = [] then none else some [rest] }

structure Marked where
  before : Text
  region : Text
  after : Text
  deriving DecidableEq

def Marked.text (m : Marked) : Text := m.before ++ beginMark ++ m.region ++ endMark ++ m.after

def findMarks (preamble text : Text) : Except Text Marked :=
  if preamble.isPrefixOf text then
    match cut beginMark (text.drop preamble.length) with
    | none => .error ("no `".toList ++ beginMark ++ "` marker".toList)
    | some (gap, regionAndTail) =>
      if strip gap ≠ [] then
        .error ("text between the preamble and the edit region; only the edit ".toList ++
          "region may change".toList)
      else
        match cut endMark regionAndTail with
        | none => .error ("no `".toList ++ endMark ++ "` marker".toList)
        | some (region, after) => .ok { before := preamble ++ gap, region, after }
  else
    .error ("the file does not begin with the graph's preamble; a candidate may ".toList ++
      "not change it".toList)

def bodyOf (region : Text) : Text := rstrip (stripChar '\n' region)

def stripCommands (repr : Text → Text) : List Text → Except Text (List Text)
  | [] => .ok []
  | line :: lines =>
    let command := strip line
    if command = [] ∨ "--".toList.isPrefixOf command then stripCommands repr lines
    else if strippable.any fun c => command == c || (c ++ [' ']).isPrefixOf command then
      (stripCommands repr lines).map (command :: ·)
    else
      .error ("after the edit region only ".toList ++ join ", ".toList strippable ++
        " are allowed; refusing rather than stripping: ".toList ++ repr (command.take 80))

theorem mem_oneRoot (root : Text) : root ∈ [root] := List.mem_singleton.mpr rfl

theorem nodup_oneRoot (root : Text) : [root].Nodup := List.nodup_singleton root

/-- `sha256` is the hex digest of a text's UTF-8 encoding, `repr` Python's. -/
def splitSource (sha256 repr : Text → Text) (text preamble root : Text) (namePrefix : Text := []) :
    Except Text SourceEnvelope := do
  let marked ← findMarks (strip preamble) text
  let body := bodyOf marked.region
  if strip body = [] then throw "the edit region is empty".toList
  let declared := declarationName (((cut ":=".toList body).map Prod.fst).getD body)
  if declared ≠ root then
    throw ("the edit region must open with the goal's own declaration `".toList ++ root ++ "`, ".toList ++
      "found `".toList ++ declared ++ ['`'])
  let stripped ← stripCommands repr (splitlines marked.after)
  let context ← preambleContext (strip preamble)
  return { candidateFileSha256 := sha256 text, imports := context.imports, ctx := context.ctx, body
           primaryRoot := namePrefix ++ root, expectedRoots := [namePrefix ++ root]
           strippedCommands := stripped, rooted := mem_oneRoot (namePrefix ++ root)
           distinct := nodup_oneRoot (namePrefix ++ root) }

variable {sha256 repr : Text → Text} {text preamble root namePrefix t u : Text} {m : Marked}
  {envelope : SourceEnvelope}

/-- The marks cut the file itself. -/
theorem findMarks_text (h : findMarks preamble text = .ok m) : text = m.text := by
  simp only [findMarks] at h
  split at h
  · rename_i hprefix
    obtain ⟨rest, hrest⟩ := List.isPrefixOf_iff_prefix.mp hprefix
    split at h
    · cases h
    · rename_i gap regionAndTail hbegin
      split at h
      · cases h
      · split at h
        · cases h
        · rename_i region after hend
          cases h
          have hgap := cut_eq hbegin
          rw [← hrest, List.drop_left, cut_eq hend] at hgap
          rw [← hrest, hgap]
          simp [Marked.text]
  · cases h

theorem splitSource_body
    (h : splitSource sha256 repr text preamble root namePrefix = .ok envelope) :
    ∃ m, findMarks (strip preamble) text = .ok m ∧ envelope.body = bodyOf m.region := by
  simp only [splitSource, bind, Except.bind, pure, Except.pure, throw, throwThe, MonadExceptOf.throw] at h
  repeat' split at h
  all_goals injection h
  rename_i _ m hm _ _ _ _ _ _ _ _ henvelope
  exact ⟨m, hm, by rw [← henvelope]⟩

/-- A file as the controller seeds it: the verifier gets the lemma, the context without the
imports, and the query that stood behind the region. -/
example :
    (splitSource id id ("import A\nopen Nat\n\n-- EDIT-REGION-BEGIN\ntheorem a : P := by\n  sorry\n" ++
      "-- EDIT-REGION-END\n\n#print axioms a\n").toList "import A\nopen Nat\n".toList ['a']).toOption.map
      (fun e => (e.imports, e.ctx, e.body, e.strippedCommands)) =
    some (["import A".toList], some ["open Nat".toList], "theorem a : P := by\n  sorry".toList,
      ["#print axioms a".toList]) := by decide +kernel

def Marked.fileCode (m : Marked) : Text :=
  (scan (scan fresh (m.before ++ beginMark) (m.region ++ (endMark ++ m.after))).2 m.region (endMark ++ m.after)).1

def SameCode (preamble text : Text) (envelope : SourceEnvelope) : Prop :=
  (findMarks (strip preamble) text).toOption.map (strip ·.fileCode) = some (strip (uncomment envelope.body))

def Marked.markLine (m : Marked) : Text := m.region.takeWhile (· ≠ '\n')

def Marked.ownLines (m : Marked) : Text := m.region.dropWhile (· ≠ '\n')

def Marked.Opens (m : Marked) : Prop :=
  (scan fresh m.before (beginMark ++ (m.region ++ (endMark ++ m.after)))).2.closed = true

def Marked.LineEnds (m : Marked) : Prop :=
  m.ownLines = [] ∨ (scan fresh m.markLine m.ownLines).2.closed = true

/-- The mark's line has no commands, and no sign of code stands right before the end mark. -/
structure Marked.Apart (m : Marked) : Prop where
  line : isBlank (scan fresh m.markLine m.ownLines).1 = true
  sign : ¬ Touches fresh m.ownLines

instance : Decidable (SameCode preamble text envelope) := inferInstanceAs (Decidable (_ = _))

instance : Decidable m.Opens := inferInstanceAs (Decidable (_ = _))

instance : Decidable m.LineEnds := inferInstanceAs (Decidable (_ ∨ _))

instance : Decidable m.Apart :=
  decidable_of_iff (isBlank (scan fresh m.markLine m.ownLines).1 = true ∧ ¬ Touches fresh m.ownLines)
    ⟨fun h => ⟨h.1, h.2⟩, fun h => ⟨h.line, h.sign⟩⟩

theorem Marked.region_eq (m : Marked) : m.region = m.markLine ++ m.ownLines :=
  (List.takeWhile_append_dropWhile).symm

theorem Marked.ownLines_cases (m : Marked) : m.ownLines = [] ∨ ∃ t, m.ownLines = '\n' :: t := by
  cases hown : m.ownLines with
  | nil => exact Or.inl rfl
  | cons c t =>
    have hfails := List.head?_dropWhile_not (· ≠ '\n') m.region
    have hhead : (m.region.dropWhile (· ≠ '\n')).head? = some c := congrArg List.head? hown
    rw [hhead] at hfails
    exact Or.inr ⟨t, by rw [show c = '\n' by simpa using hfails]⟩

theorem scan_mark {mode : Mode} (h : mode.closed = true) : (scan mode beginMark t).2 = .line := by
  cases mode with
  | code inWord => simp [beginMark, scan_cons, step, codeStep]
  | line => simp [beginMark, scan_cons, step]
  | _ => cases h

theorem quiet_endMark : Quiet (endMark ++ t) := by
  constructor
  · intro c hc
    have hdash : c = '-' := by simpa [endMark] using hc.symm
    rw [hdash]
    decide
  · simp [endMark]

theorem head_endMark : (endMark ++ t).head? = some '-' := by simp [endMark]

/-- Inside the file the mark's line is comment, and the region's code that of its own lines. -/
theorem Marked.fileCode_eq (hopens : m.Opens) : m.fileCode = (scan fresh m.ownLines (endMark ++ m.after)).1 := by
  have hmode : (scan fresh (m.before ++ beginMark) (m.region ++ (endMark ++ m.after))).2 = .line := by
    rw [scan_append]
    exact scan_mark hopens
  have hline : ∀ after, scan .line m.markLine after = ([], .line) := by
    intro after
    apply scan_line_of_not_mem
    intro hmem
    simpa using List.mem_takeWhile_imp hmem
  rw [Marked.fileCode, hmode, m.region_eq, scan_append, hline]
  cases m.ownLines_cases with
  | inl hown => simp [hown]
  | inr hown =>
    obtain ⟨t, ht⟩ := hown
    rw [ht, scan_newline rfl]
    rfl

theorem Marked.uncomment_region (hends : m.LineEnds) :
    uncomment m.region = (scan fresh m.markLine m.ownLines).1 ++ uncomment m.ownLines := by
  rw [uncomment, m.region_eq, scan_append, List.append_nil]
  cases m.ownLines_cases with
  | inl hown => simp [hown, uncomment]
  | inr hown =>
    obtain ⟨t, ht⟩ := hown
    have hclosed : (scan fresh m.markLine m.ownLines).2.closed = true := by
      cases hends with
      | inl hnil => exact absurd (hnil.symm.trans ht) (by simp)
      | inr hclosed => exact hclosed
    rw [ht] at hclosed ⊢
    rw [scan_newline hclosed]
    rfl

theorem quiet_of_blank (h : isBlank t = true) : Quiet t := by
  rw [isBlank_iff] at h
  constructor
  · intro c hc
    have hspace := h c (List.mem_of_mem_head? hc)
    refine ⟨?_, ?_, ?_, ?_, ?_⟩
    all_goals
      intro he
      rw [he] at hspace
      exact absurd hspace (by decide)
  · intro hq
    exact absurd (h '\'' (List.mem_of_getElem? hq)) (by decide)

theorem head_of_blank (h : isBlank t = true) : t.head? ≠ some '-' := by
  intro hd
  exact absurd (isBlank_iff.mp h '-' (List.mem_of_mem_head? hd)) (by decide)

theorem uncomment_append_blank (h : isBlank u = true) : strip (uncomment (t ++ u)) = strip (uncomment t) := by
  have hquiet : scan fresh t u = scan fresh t [] := by
    have hscan := scan_quiet (quiet_of_blank h) fresh t [] fun _ => head_of_blank h
    rwa [List.nil_append] at hscan
  have hblank : isBlank (scan (scan fresh t u).2 u []).1 = true := by
    rw [isBlank_iff] at h ⊢
    exact fun c hc => h c ((scan_sublist _ u []).subset hc)
  rw [uncomment, scan_append, List.append_nil, strip_append_blank hblank, hquiet]
  rfl

theorem uncomment_newlines (h : ∀ c ∈ u, c = '\n') : uncomment (u ++ t) = u ++ uncomment t := by
  induction u with
  | nil => rfl
  | cons c u ih =>
    rw [List.forall_mem_cons] at h
    have hfresh : ∀ rest, step fresh '\n' rest = (true, fresh) := fun rest => step_newline rfl
    rw [uncomment, h.1, List.cons_append, scan_cons, hfresh]
    exact congrArg ('\n' :: ·) (ih h.2)

theorem exists_stripChar (c : Char) (t : Text) :
    ∃ a b, (∀ d ∈ a, d = c) ∧ (∀ d ∈ b, d = c) ∧ t = a ++ (stripChar c t ++ b) := by
  refine ⟨t.takeWhile (· == c), ((t.dropWhile (· == c)).reverse.takeWhile (· == c)).reverse, ?_, ?_, ?_⟩
  · intro d hd
    simpa using List.mem_takeWhile_imp hd
  · intro d hd
    simpa using List.mem_takeWhile_imp (List.mem_reverse.mp hd)
  · rw [stripChar, ← List.reverse_append, List.takeWhile_append_dropWhile, List.reverse_reverse,
      List.takeWhile_append_dropWhile]

theorem strip_uncomment_bodyOf (region : Text) :
    strip (uncomment (bodyOf region)) = strip (uncomment region) := by
  have hnewline : ∀ a : Text, (∀ d ∈ a, d = '\n') → isBlank a = true := by
    intro a ha
    rw [isBlank_iff]
    intro d hd
    rw [ha d hd]
    decide
  obtain ⟨a, b, ha, hb, hregion⟩ := exists_stripChar '\n' region
  obtain ⟨g, hg, hbody⟩ := exists_rstrip (stripChar '\n' region)
  have hgap : isBlank (g ++ b) = true := by rw [isBlank_append, hg, hnewline b hb]; rfl
  conv_rhs => rw [hregion, hbody]
  rw [uncomment_newlines ha, strip_blank_append (hnewline a ha), List.append_assoc, uncomment_append_blank hgap]
  rfl

theorem ink_length_of_strip (h : strip t = strip u) : (ink t).length = (ink u).length := by
  rw [← ink_strip, h, ink_strip]

theorem Marked.strip_fileCode_iff (hopens : m.Opens) (hends : m.LineEnds) :
    strip m.fileCode = strip (uncomment m.region) ↔ m.Apart := by
  rw [Marked.fileCode_eq hopens, Marked.uncomment_region hends]
  have hquiet : Quiet (endMark ++ m.after) := quiet_endMark
  constructor
  · intro hsame
    have hlength := ink_length_of_strip hsame
    rw [ink_append, List.length_append] at hlength
    by_cases htouch : Touches fresh m.ownLines
    · obtain ⟨c, hc, hlost⟩ := scan_touched hquiet head_endMark htouch
      rw [uncomment, hlost, ink_append, List.length_append] at hlength
      have hone : (ink [c]).length = 1 := by simp [ink, hc]
      omega
    · rw [scan_untouched hquiet htouch, ← uncomment] at hlength
      have hnone : (ink (scan fresh m.markLine m.ownLines).1).length = 0 := by omega
      exact ⟨ink_eq_nil.mp (List.length_eq_zero_iff.mp hnone), htouch⟩
  · intro hapart
    rw [strip_blank_append hapart.line, scan_untouched hquiet hapart.sign, uncomment]

/-- The body is the region's code inside the file where the begin mark is a comment of its
own, its line is blank and no sign touches the end mark; and, where that line stays by
itself, nowhere else. -/
theorem body_is_file_code
    (h : splitSource sha256 repr text preamble root namePrefix = .ok envelope) :
    ∃ m, findMarks (strip preamble) text = .ok m ∧ text = m.text ∧
      (m.Opens ∧ m.LineEnds ∧ m.Apart → SameCode preamble text envelope) ∧
      (m.Opens → m.LineEnds → SameCode preamble text envelope → m.Apart) := by
  obtain ⟨m, hm, hbody⟩ := splitSource_body h
  have hsame : SameCode preamble text envelope ↔ strip m.fileCode = strip (uncomment m.region) := by
    rw [SameCode, hm, hbody, strip_uncomment_bodyOf]
    exact Option.some_inj
  refine ⟨m, hm, findMarks_text hm, ?_, ?_⟩
  · intro hreads
    exact hsame.mpr ((Marked.strip_fileCode_iff hreads.1 hreads.2.1).mpr hreads.2.2)
  · intro hopens hends hcode
    exact (Marked.strip_fileCode_iff hopens hends).mp (hsame.mp hcode)

def commentedFile : Text :=
  "import A\n\n-- EDIT-REGION-BEGIN\ntheorem a : P := by -- - /\n  sorry\n-- EDIT-REGION-END\n".toList

def commentedMarks : Marked where
  before := "import A\n\n".toList
  region := "\ntheorem a : P := by -- - /\n  sorry\n".toList
  after := ['\n']

theorem body_is_file_code_commented : ∃ envelope,
    splitSource id id commentedFile "import A".toList ['a'] = .ok envelope ∧
      SameCode "import A".toList commentedFile envelope := by
  have hread : findMarks (strip "import A".toList) commentedFile = .ok commentedMarks := by decide +kernel
  cases hsplit : splitSource id id commentedFile "import A".toList ['a'] with
  | error fault =>
    have hok : (splitSource id id commentedFile "import A".toList ['a']).toBool = true := by decide +kernel
    rw [hsplit] at hok
    cases hok
  | ok envelope =>
    obtain ⟨m, hm, -, hsame, -⟩ := body_is_file_code hsplit
    rw [hread] at hm
    injection hm with hm
    refine ⟨envelope, rfl, hsame ?_⟩
    rw [← hm]
    exact ⟨by decide, by decide, by decide⟩

def markLineFile : Text := "-- EDIT-REGION-BEGIN theorem a : True := trivial\n-- EDIT-REGION-END".toList

theorem markLine_is_comment : ¬ ∀ (sha256 repr : Text → Text) (text preamble root namePrefix : Text)
    (envelope : SourceEnvelope), splitSource sha256 repr text preamble root namePrefix = .ok envelope →
      SameCode preamble text envelope := by
  intro hclaim
  have hsame := hclaim id id markLineFile [] ['a'] []
  cases hsplit : splitSource id id markLineFile [] ['a'] with
  | error fault =>
    have hok : (splitSource id id markLineFile [] ['a']).toBool = true := by decide +kernel
    rw [hsplit] at hok
    cases hok
  | ok envelope =>
    have hbody : (splitSource id id markLineFile [] ['a']).toOption.map SourceEnvelope.body =
        some " theorem a : True := trivial".toList := by decide +kernel
    have hfile : (findMarks (strip []) markLineFile).toOption.map (strip ·.fileCode) = some [] := by decide +kernel
    rw [hsplit] at hbody
    have hcode := hsame envelope hsplit
    rw [SameCode, hfile, show envelope.body = _ from Option.some.inj hbody] at hcode
    exact absurd hcode (by decide)

end EvoHarness.Proof.Envelope
