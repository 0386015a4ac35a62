import EvoHarness.Library.Finditer
import EvoHarness.Library.Brackets
import EvoHarness.Library.Weave

/-! The patch engine: ORIGINAL/UPDATED blocks out of a model's answer, applied one after
the other inside the editable regions of a program. -/
namespace EvoHarness.Core
open PyText Brackets Weave

def beginWord : Text := "EDIT-REGION-BEGIN".toList
def endWord : Text := "EDIT-REGION-END".toList
def openers : List Text := ["#".toList, "//".toList, "!".toList, "<!--".toList, "(*".toList]
def closers : List Text := ["-->".toList, "*)".toList]

def isBlankInLine (c : Char) : Bool := isSpace c && c ≠ '\r' && c ≠ '\n'

def dropMark (marks : List Text) (t : Text) : Text :=
  match marks.find? (·.isPrefixOf t) with
  | some m => t.drop m.length
  | none => t

/-- `EDIT_BEGIN` and `EDIT_END`. What it gives is how much text there is from the marker's
start, and from its end. -/
def markerAt (word : Text) : Matcher (ℕ × ℕ) := fun t =>
  let body := (dropMark openers t).dropWhile isBlankInLine
  if word.isPrefixOf body then
    let rest := dropMark closers ((body.drop word.length).dropWhile isBlankInLine)
    some ((t.length, rest.length), rest)
  else none

def markers (word text : Text) : List (ℕ × ℕ) :=
  (finditer (markerAt word) text).map fun p => (text.length - p.1, text.length - p.2)

/-- Tuples in order: by position, and `"begin"` before `"end"`. -/
def eventBefore (a b : ℕ × Bool) : Prop := a.1 < b.1 ∨ (a.1 = b.1 ∧ (a.2 = false ∨ b.2 = true))

instance : DecidableRel eventBefore := fun a b => by
  unfold eventBefore
  infer_instance

def events (text : Text) : List (ℕ × Bool) :=
  ((markers beginWord text).map fun m => (m.2, false)) ++ (markers endWord text).map fun m => (m.1, true)

def editableRanges (text : Text) : List (ℕ × ℕ) := pair [] ((events text).insertionSort eventBefore)

def validateEditMarkers (text : Text) : Option Text :=
  let nBegin := (finditer (markerAt beginWord) text).length
  let nEnd := (finditer (markerAt endWord) text).length
  if nBegin = 0 ∨ nEnd = 0 then
    some ("missing EDIT-REGION markers: the code must contain matching EDIT-REGION-BEGIN and " ++
      "EDIT-REGION-END comment lines").toList
  else if nBegin ≠ nEnd then
    some ("unbalanced EDIT-REGION markers: ".toList ++ (toString nBegin).toList ++ " BEGIN vs ".toList ++
      (toString nEnd).toList ++ " END".toList)
  else none

/-- `\s*\n`: what stands behind each line end of the leading white space, the last first. -/
def lineEnds : Text → List Text
  | [] => []
  | c :: t => if c = '\n' then lineEnds t ++ [t] else if isSpace c then lineEnds t else []

def upTo {α : Type} (m : Matcher α) : Text → Option ((Text × α) × Text)
  | [] => (m []).map fun p => (([], p.1), p.2)
  | c :: t =>
    match m (c :: t) with
    | some (a, rest) => some (([], a), rest)
    | none => (upTo m t).map fun p => ((c :: p.1.1, p.1.2), p.2)

def onNewLine (mark : Text) (t : Text) : Option Text :=
  match t with
  | '\n' :: t =>
    if mark.isPrefixOf (t.dropWhile isSpace) then some ((t.dropWhile isSpace).drop mark.length) else none
  | _ => none

def closingAt : Matcher Unit := fun t =>
  (onNewLine ">>>>>>>".toList t).bind fun rest =>
    if "UPDATED".toList.isPrefixOf (rest.dropWhile isSpace) then
      some ((), ((rest.dropWhile isSpace).drop 7).dropWhile isSpace)
    else none

def dividerAt : Matcher Text := fun t =>
  (onNewLine "=======".toList t).bind fun rest =>
    ((lineEnds rest).findSome? (upTo closingAt)).map fun p => (p.1.1, p.2)

/-- `PATCH_PATTERN`: what is to be found, and what is to stand there. -/
def patchBlockAt : Matcher (Text × Text) := fun t =>
  if "<<<<<<<".toList.isPrefixOf t then
    let t := (t.drop 7).dropWhile isSpace
    if "ORIGINAL".toList.isPrefixOf t then (lineEnds (t.drop 8)).findSome? (upTo dividerAt) else none
  else none

def patchBlocks (answer : Text) : List (Text × Text) := finditer patchBlockAt answer

def stripMarkerLines (block : Text) : Text :=
  join ['\n'] ((block.splitOn '\n').filter fun ln => !contains beginWord ln && !contains endWord ln)

def indentOf (ln : Text) : ℕ := (ln.takeWhile (· == ' ')).length

def reindent (block : Text) (delta : ℤ) : Text :=
  join ['\n'] ((block.splitOn '\n').map fun ln =>
    if strip ln = [] then ln
    else if 0 ≤ delta then List.replicate delta.toNat ' ' ++ ln
    else ln.drop (min (-delta).toNat (indentOf ln)))

def find (text search : Text) : Option ℕ := (cut search text).map fun p => p.1.length

/-- One exact place for a shifted search block, given a line that reads like its first. -/
def shiftedMatch (text search replace first line : Text) : Option (ℕ × Text × Text) :=
  let delta : ℤ := indentOf line - indentOf first
  if strip line = strip first ∧ delta ≠ 0 then
    (find text (reindent search delta)).map fun idx => (idx, reindent search delta, reindent replace delta)
  else none

def findIndentedMatch (text search replace : Text) : Option (ℕ × Text × Text) :=
  match find text search with
  | some idx => some (idx, search, replace)
  | none =>
    match (search.splitOn '\n').find? fun ln => strip ln ≠ [] with
    | none => none
    | some first => (text.splitOn '\n').findSome? (shiftedMatch text search replace first)

structure PatchOutcome where
  newCode : Option Text
  error : Option Text
  nApplied : ℕ := 0

inductive Located where
  | empty
  | notFound (search : Text)
  | outside
  | edit (start stop : ℕ) (replace : Text)

/-- Whether the engine takes an edit from `start` to `stop`. -/
def inEditable (text : Text) (start stop : ℕ) : Bool :=
  (editableRanges text).any fun r => r.1 ≤ start && stop ≤ r.2

def locate (text : Text) (block : Text × Text) : Located :=
  let search := stripMarkerLines block.1
  if strip search = [] then .empty
  else match findIndentedMatch text search (stripMarkerLines block.2) with
    | none => .notFound search
    | some (idx, search, replace) =>
      if inEditable text idx (idx + search.length) then .edit idx (idx + search.length) replace
      else .outside

/-- `hint` is `_closest_block`, which only the message shows. -/
def notFoundMessage (hint : Option Text) : Text :=
  ("ORIGINAL block not found in the current code. It must be an exact copy (including indentation) " ++
    "of existing lines.").toList ++
  match hint with
  | none => []
  | some diff => "\nClosest match differs as follows:\n".toList ++ diff ++
      ("\nFix the ORIGINAL block to match the file exactly, or use a smaller block.").toList

def applyFrom (hint : Text → Text → Option Text) : Text → ℕ → List (Text × Text) → PatchOutcome
  | text, applied, [] =>
    match validateEditMarkers text with
    | some err => { newCode := none, error := some ("patch corrupted markers: ".toList ++ err), nApplied := applied }
    | none => { newCode := some text, error := none, nApplied := applied }
  | text, applied, block :: blocks =>
    match locate text block with
    | .empty => { newCode := none, error := some "empty ORIGINAL block: it must quote existing code".toList }
    | .notFound search =>
      { newCode := none, error := some (notFoundMessage (hint text search)), nApplied := applied }
    | .outside =>
      { newCode := none, nApplied := applied
        error := some ("the ORIGINAL block touches code outside the editable region: only code between " ++
          "EDIT-REGION-BEGIN and EDIT-REGION-END may be modified").toList }
    | .edit start stop replace => applyFrom hint (splice text start stop replace) (applied + 1) blocks

def apply (hint : Text → Text → Option Text) (original answer : Text) : PatchOutcome :=
  if patchBlocks answer = [] then
    { newCode := none
      error := some ("no patch blocks found: expected one or more " ++
        "<<<<<<< ORIGINAL / ======= / >>>>>>> UPDATED blocks").toList }
  else applyFrom hint original 0 (patchBlocks answer)

end EvoHarness.Core
