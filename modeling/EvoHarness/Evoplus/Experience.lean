import EvoHarness.Library.FirstSeen
import EvoHarness.Library.JsonAscii
import EvoHarness.Library.Lines

/-! The evidence buffer: its entries, the rows it appends for them, and what a file of rows is loaded as. -/
namespace EvoHarness.Evoplus.Experience
open PyText Json

inductive Kind where
  | evaluated
  | rejectedNovelty
  | proposalFailed
deriving DecidableEq

def Kind.text : Kind → Text
  | .evaluated => "evaluated".toList
  | .rejectedNovelty => "rejected_novelty".toList
  | .proposalFailed => "proposal_failed".toList

/-- What `MutationReflector._normalize` keeps of a lesson. -/
structure Lesson where
  verdict : Text
  why : Text
  advice : Text
  tags : List Text
deriving DecidableEq

def zero : Numeral := ⟨"0.0".toList, by decide⟩

structure ExperienceEntry where
  operator : Text := []
  changeTitle : Text := []
  changeSummary : Text := []
  fitnessDelta : Numeral := zero
  success : Bool := false
  generation : ℤ := 0
  kind : Kind := .evaluated
  islandIdx : ℤ := 0
  parentId : Text := []
  childId : Text := []
  redeemedBy : Option Text := none
  maxSimilarity : Numeral := zero
  mostSimilarId : Text := []
  lesson : Option Lesson := none
  evidence : Text := []

inductive Update where
  | entry (e : ExperienceEntry)
  | redemption (childId redeemedBy : Text)
  | lesson (childId : Text) (lesson : Lesson)

def optional {α : Type} (write : α → Value) : Option α → Value
  | none => .null
  | some a => write a

def Lesson.toJson (l : Lesson) : Value :=
  .object [("verdict".toList, .string l.verdict), ("why".toList, .string l.why), ("advice".toList, .string l.advice),
    ("tags".toList, .array (l.tags.map .string))]

def ExperienceEntry.toJson (e : ExperienceEntry) : Value :=
  .object [("operator".toList, .string e.operator), ("change_title".toList, .string e.changeTitle),
    ("change_summary".toList, .string e.changeSummary), ("fitness_delta".toList, .number e.fitnessDelta),
    ("success".toList, .bool e.success), ("generation".toList, .number (.ofInt e.generation)),
    ("kind".toList, .string e.kind.text), ("island_idx".toList, .number (.ofInt e.islandIdx)),
    ("parent_id".toList, .string e.parentId), ("child_id".toList, .string e.childId),
    ("redeemed_by".toList, optional .string e.redeemedBy), ("max_similarity".toList, .number e.maxSimilarity),
    ("most_similar_id".toList, .string e.mostSimilarId), ("lesson".toList, optional Lesson.toJson e.lesson),
    ("evidence".toList, .string e.evidence)]

def Update.row : Update → Value
  | .entry e => e.toJson
  | .redemption childId redeemedBy =>
    .object [("kind".toList, .string "redemption".toList), ("child_id".toList, .string childId),
      ("redeemed_by".toList, .string redeemedBy)]
  | .lesson childId l =>
    .object [("kind".toList, .string "lesson".toList), ("child_id".toList, .string childId), ("lesson".toList, l.toJson)]

def text? : Value → Option Text
  | .string s => some s
  | _ => none

def bool? : Value → Option Bool
  | .bool b => some b
  | _ => none

def number? : Value → Option Numeral
  | .number n => some n
  | _ => none

def int? (x : Value) : Option ℤ := (number? x).bind Numeral.toInt?

def kind? : Value → Option Kind
  | .string s =>
    if s = Kind.evaluated.text then some .evaluated
    else if s = Kind.rejectedNovelty.text then some .rejectedNovelty
    else if s = Kind.proposalFailed.text then some .proposalFailed
    else none
  | _ => none

def texts? : List Value → Option (List Text)
  | [] => some []
  | x :: xs => (text? x).bind fun s => (texts? xs).map (s :: ·)

def list? : Value → Option (List Text)
  | .array xs => texts? xs
  | _ => none

def optional? {α : Type} (read : Value → Option α) : Value → Option (Option α)
  | .null => some none
  | x => (read x).map some

/-- A field with its default. A row of the store has no other types than its own. -/
def field {α : Type} (ps : List (Text × Value)) (key : Text) (read : Value → Option α) (default : α) : Option α :=
  match ps.lookup key with
  | none => some default
  | some x => read x

def lesson? : Value → Option Lesson
  | .object ps => do
    let verdict ← (ps.lookup "verdict".toList).bind text?
    let why ← (ps.lookup "why".toList).bind text?
    let advice ← (ps.lookup "advice".toList).bind text?
    let tags ← (ps.lookup "tags".toList).bind list?
    return ⟨verdict, why, advice, tags⟩
  | _ => none

def fromJson (ps : List (Text × Value)) : Option ExperienceEntry := do
  let operator ← field ps "operator".toList text? []
  let changeTitle ← field ps "change_title".toList text? []
  let changeSummary ← field ps "change_summary".toList text? []
  let fitnessDelta ← field ps "fitness_delta".toList number? zero
  let success ← field ps "success".toList bool? false
  let generation ← field ps "generation".toList int? 0
  let kind ← field ps "kind".toList kind? .evaluated
  let islandIdx ← field ps "island_idx".toList int? 0
  let parentId ← field ps "parent_id".toList text? []
  let childId ← field ps "child_id".toList text? []
  let redeemedBy ← field ps "redeemed_by".toList (optional? text?) none
  let maxSimilarity ← field ps "max_similarity".toList number? zero
  let mostSimilarId ← field ps "most_similar_id".toList text? []
  let lesson ← field ps "lesson".toList (optional? lesson?) none
  let evidence ← field ps "evidence".toList text? []
  return ⟨operator, changeTitle, changeSummary, fitnessDelta, success, generation, kind, islandIdx, parentId, childId,
    redeemedBy, maxSimilarity, mostSimilarId, lesson, evidence⟩

def readRow : Value → Option Update
  | .object ps =>
    let kind := (ps.lookup "kind".toList).bind text?
    if kind = some "redemption".toList then do
      let childId ← (ps.lookup "child_id".toList).bind text?
      let redeemedBy ← (ps.lookup "redeemed_by".toList).bind text?
      return .redemption childId redeemedBy
    else if kind = some "lesson".toList then do
      let childId ← (ps.lookup "child_id".toList).bind text?
      let lesson ← (ps.lookup "lesson".toList).bind lesson?
      return .lesson childId lesson
    else (fromJson ps).map .entry
  | _ => none

def line (u : Update) : Text := dumpsAscii u.row ++ ['\n']

def redeemable (childId : Text) (e : ExperienceEntry) : Bool :=
  e.kind = .evaluated && e.childId = childId && !e.success && e.redeemedBy.isNone

def taught (childId : Text) (e : ExperienceEntry) : Bool := e.kind = .evaluated && e.childId = childId

def applyRedemption (childId redeemerId : Text) (entries : List ExperienceEntry) : List ExperienceEntry :=
  entries.map fun e => if redeemable childId e then { e with redeemedBy := some redeemerId } else e

def applyLesson (childId : Text) (lesson : Lesson) (entries : List ExperienceEntry) : List ExperienceEntry :=
  entries.map fun e => if taught childId e then { e with lesson := some lesson } else e

def apply (entries : List ExperienceEntry) : Update → List ExperienceEntry
  | .entry e => entries ++ [e]
  | .redemption childId redeemedBy => applyRedemption childId redeemedBy entries
  | .lesson childId lesson => applyLesson childId lesson entries

structure ExperienceStore where
  entries : List ExperienceEntry := []
  file : Option Text := none

def ExperienceStore.append (s : ExperienceStore) (u : Update) : ExperienceStore where
  entries := apply s.entries u
  file := some (s.file.getD [] ++ line u)

def loadLines : List Text → List ExperienceEntry → Option (List ExperienceEntry)
  | [], entries => some entries
  | l :: ls, entries =>
    if strip l = [] then loadLines ls entries
    else
      match (loads l).bind readRow with
      | none => none
      | some u => loadLines ls (apply entries u)

/-- `ExperienceStore(path)` for what the file has, or `none` where it raises. -/
def load : Option Text → Option (List ExperienceEntry)
  | none => some []
  | some t => loadLines (splitlines (universalNewlines t)) []

section
variable {γ ρ ω : Type}

structure Report (ρ : Type) where
  fitness : Numeral
  details : ρ

structure Candidate (γ ρ : Type) where
  id : Text
  parentId : Option Text
  operator : Text
  changeTitle : Text
  changeSummary : Text
  generation : ℤ
  islandIdx : ℤ
  report : Option (Report ρ)
  passed : Bool
  workspace : γ

/-- `novelty` is `event.kind == "novelty"`; `proposal` is the proposed workspace and code. -/
structure RejectionEvent (γ ρ ω : Type) where
  novelty : Bool
  generation : ℤ
  operator : Text
  parent : Candidate γ ρ
  proposal : ω
  changeTitle : Text := []
  failureReason : Text := []
  maxSimilarity : Numeral := zero
  mostSimilarId : Option Text := none

/-- The texts that are made of genomes and reports, and what Python does with floats and letters. -/
structure Describing (γ ρ ω : Type) where
  describeChange : Candidate γ ρ → Candidate γ ρ → Text
  reportEvidence : Report ρ → Report ρ → Text
  describeProposal : Candidate γ ρ → ω → Text
  minus : Numeral → Numeral → Numeral
  positive : Numeral → Bool
  lower : Text → Text

variable (D : Describing γ ρ ω)

def infraFailureMarks : List Text :=
  ["backend-error".toList, "backend_error".toList, "protocol_error".toList, "llm query failed".toList, "http error".toList,
    "connection".toList, "timeout".toList, "insufficient_balance".toList, "forbidden".toList, "overload".toList]

def isInfraFailure (reason : Text) : Bool := infraFailureMarks.any fun m => contains m (D.lower reason)

/-- `on_candidate_graded`, with the parent the population has. -/
def onCandidateGraded (cand : Candidate γ ρ) (stored : Option (Candidate γ ρ)) (entries : List ExperienceEntry) : List Update :=
  match stored, cand.report with
  | some parent, some report =>
    match parent.report with
    | none => []
    | some parentReport =>
      if cand.parentId.getD [] = [] then []
      else
        let delta := D.minus report.fitness parentReport.fitness
        let described := D.describeChange parent cand
        let entry : ExperienceEntry := {
          kind := .evaluated
          operator := cand.operator
          changeTitle := cand.changeTitle
          changeSummary := if described = [] then cand.changeSummary else described
          fitnessDelta := delta
          success := cand.passed && D.positive delta
          generation := cand.generation
          islandIdx := cand.islandIdx
          parentId := parent.id
          childId := cand.id
          evidence := D.reportEvidence parentReport report }
        if entry.success = true ∧ (entries ++ [entry]).any (redeemable parent.id) = true then
          [.entry entry, .redemption parent.id cand.id]
        else [.entry entry]
  | _, _ => []

def onProposalRejected (event : RejectionEvent γ ρ ω) : List Update :=
  let common : ExperienceEntry := {
    operator := event.operator
    generation := event.generation
    islandIdx := event.parent.islandIdx
    parentId := event.parent.id }
  if event.novelty then
    [.entry { common with
      kind := .rejectedNovelty
      changeTitle := event.changeTitle
      changeSummary := D.describeProposal event.parent event.proposal
      maxSimilarity := event.maxSimilarity
      mostSimilarId := event.mostSimilarId.getD [] }]
  else if isInfraFailure D event.failureReason then []
  else [.entry { common with kind := .proposalFailed, changeSummary := event.failureReason.take 240 }]

def attachLesson (childId : Text) (lesson : Lesson) (entries : List ExperienceEntry) : List Update :=
  if entries.any (taught childId) then [.lesson childId lesson] else []

def canonical (tagMap : List (Text × Text)) (tags : List Text) : List Text :=
  FirstSeen.addAll [] ((tags.map fun t => (tagMap.lookup t).getD t).filter (· ≠ []))

/-- The loop of `_consolidate` over the places of `pool`. -/
def consolidateFrom (tagMap rewrites : List (Text × Text)) : List ℕ → List ExperienceEntry → List Update
  | [], _ => []
  | i :: pool, entries =>
    match entries[i]? with
    | none => consolidateFrom tagMap rewrites pool entries
    | some e =>
      match e.lesson with
      | none => consolidateFrom tagMap rewrites pool entries
      | some lesson =>
        let tags := canonical tagMap lesson.tags
        let rewritten := rewrites.lookup e.childId
        if tags ≠ lesson.tags ∨ rewritten.isSome then
          let updates := attachLesson e.childId { lesson with advice := rewritten.getD lesson.advice, tags } entries
          updates ++ consolidateFrom tagMap rewrites pool (updates.foldl apply entries)
        else consolidateFrom tagMap rewrites pool entries

def lessonEntries (entries : List ExperienceEntry) : List ℕ :=
  (List.range entries.length).filter fun i =>
    entries[i]?.any fun e => e.kind = .evaluated && e.lesson.any (·.verdict ≠ "noise".toList)

def consolidate (tagMap rewrites : List (Text × Text)) (entries : List ExperienceEntry) : List Update :=
  consolidateFrom tagMap rewrites (lessonEntries entries) entries

inductive Event (γ ρ ω : Type) where
  | graded (cand : Candidate γ ρ) (stored : Option (Candidate γ ρ))
  | rejected (event : RejectionEvent γ ρ ω)
  | lesson (childId : Text) (lesson : Lesson)
  | consolidated (tagMap rewrites : List (Text × Text))

def updates (entries : List ExperienceEntry) : Event γ ρ ω → List Update
  | .graded cand stored => onCandidateGraded D cand stored entries
  | .rejected event => onProposalRejected D event
  | .lesson childId lesson => attachLesson childId lesson entries
  | .consolidated tagMap rewrites => consolidate tagMap rewrites entries

def partly (s : ExperienceStore) (e : Event γ ρ ω) (j : ℕ) : ExperienceStore :=
  ((updates D s.entries e).take j).foldl .append s

def step (s : ExperienceStore) (e : Event γ ρ ω) : ExperienceStore := (updates D s.entries e).foldl .append s

def live (es : List (Event γ ρ ω)) : ExperienceStore := es.foldl (step D) {}

/-- The file of a store, cut off `k` characters behind what it had before the event. A character is one byte. -/
def crashed (s : ExperienceStore) (e : Event γ ρ ω) (k : ℕ) : Text :=
  ((step D s e).file.getD []).take ((s.file.getD []).length + k)

/-- The file is loaded as the live entries after the appends that are complete, the last perhaps but for its newline. -/
def Survives (s : ExperienceStore) (e : Event γ ρ ω) (k : ℕ) : Prop :=
  let complete := ((crashed D s e k).drop (s.file.getD []).length).count '\n'
  ∃ j, (j = complete ∨ j = complete + 1) ∧ load (some (crashed D s e k)) = some (partly D s e j).entries

def BetweenRows (s : ExperienceStore) (e : Event γ ρ ω) (k : ℕ) : Prop :=
  ∃ j, crashed D s e k = (partly D s e j).file.getD [] ∨ crashed D s e k ++ ['\n'] = (partly D s e j).file.getD []

end

theorem texts?_map (ts : List Text) : texts? (ts.map .string) = some ts := by
  induction ts with
  | nil => rfl
  | cons t ts ih =>
    rw [List.map_cons, texts?, ih]
    rfl

theorem int?_ofInt (z : ℤ) : int? (.number (.ofInt z)) = some z := toInt?_ofInt z

theorem kind?_text (k : Kind) : kind? (.string k.text) = some k := by
  cases k with
  | evaluated => rfl
  | rejectedNovelty => rfl
  | proposalFailed => rfl

theorem optional?_string (o : Option Text) : optional? text? (optional .string o) = some o := by
  cases o with
  | none => rfl
  | some s => rfl

theorem lesson?_toJson (l : Lesson) : lesson? l.toJson = some l := by
  have htags : list? (.array (l.tags.map .string)) = some l.tags := texts?_map l.tags
  change ((list? (.array (l.tags.map .string))).bind fun tags => some (Lesson.mk l.verdict l.why l.advice tags)) = some l
  rw [htags]
  rfl

theorem optional?_lesson (o : Option Lesson) : optional? lesson? (optional Lesson.toJson o) = some o := by
  cases o with
  | none => rfl
  | some l => exact congrArg (Option.map some) (lesson?_toJson l)

theorem fromJson_toJson (e : ExperienceEntry) : ∃ ps, e.toJson = .object ps ∧ fromJson ps = some e ∧
    (ps.lookup "kind".toList).bind text? = some e.kind.text := by
  refine ⟨_, rfl, ?_, rfl⟩
  change ((int? (.number (.ofInt e.generation))).bind fun generation => (kind? (.string e.kind.text)).bind fun kind =>
    (int? (.number (.ofInt e.islandIdx))).bind fun islandIdx =>
      (optional? text? (optional .string e.redeemedBy)).bind fun redeemedBy =>
        (optional? lesson? (optional Lesson.toJson e.lesson)).bind fun lesson => some (ExperienceEntry.mk e.operator e.changeTitle
          e.changeSummary e.fitnessDelta e.success generation kind islandIdx e.parentId e.childId redeemedBy e.maxSimilarity
          e.mostSimilarId lesson e.evidence)) = some e
  rw [int?_ofInt, int?_ofInt, kind?_text, optional?_string, optional?_lesson]
  rfl

theorem kind_text_ne (k : Kind) : some k.text ≠ some "redemption".toList ∧ some k.text ≠ some "lesson".toList := by
  cases k with
  | evaluated => decide
  | rejectedNovelty => decide
  | proposalFailed => decide

theorem readRow_row (u : Update) : readRow u.row = some u := by
  cases u with
  | entry e =>
    obtain ⟨ps, hps, hread, hkind⟩ := fromJson_toJson e
    rw [Update.row, hps, readRow, hkind, if_neg (kind_text_ne e.kind).1, if_neg (kind_text_ne e.kind).2, hread]
    rfl
  | redemption childId redeemedBy => rfl
  | lesson childId l =>
    change ((lesson? l.toJson).bind fun l => some (Update.lesson childId l)) = some (.lesson childId l)
    rw [lesson?_toJson]
    rfl

theorem isObject_row (u : Update) : IsObject u.row := by
  cases u with
  | entry e => exact ⟨_, rfl⟩
  | redemption childId redeemedBy => exact ⟨_, rfl⟩
  | lesson childId l => exact ⟨_, rfl⟩

theorem distinct_string (t : Text) : Distinct (.string t) := trivial

theorem distinct_lesson (l : Lesson) : Distinct l.toJson :=
  ⟨by simp, trivial, trivial, trivial, distinctItems_strings l.tags, trivial⟩

theorem distinct_optional {α : Type} {write : α → Value} (h : ∀ a, Distinct (write a)) (o : Option α) :
    Distinct (optional write o) := by
  cases o with
  | none => trivial
  | some a => exact h a

theorem distinct_row (u : Update) : Distinct u.row := by
  cases u with
  | entry e =>
    exact ⟨by simp, trivial, trivial, trivial, trivial, trivial, trivial, trivial, trivial, trivial, trivial,
      distinct_optional distinct_string _, trivial, trivial, distinct_optional distinct_lesson _, trivial, trivial⟩
  | redemption childId redeemedBy => exact ⟨by simp, trivial, trivial, trivial, trivial⟩
  | lesson childId l => exact ⟨by simp, trivial, trivial, distinct_lesson l, trivial⟩

theorem loads_row (u : Update) : loads (dumpsAscii u.row) = some u.row := loads_dumpsAscii (distinct_row u) (isObject_row u)

theorem strip_open (t : Text) : strip ('\x7b' :: t) ≠ [] := by
  have hspace : isSpace '\x7b' = false := by decide
  have hleft : lstrip ('\x7b' :: t) = '\x7b' :: t := by simp [lstrip, hspace]
  unfold strip rstrip
  rw [hleft]
  intro h
  have hall := List.dropWhile_eq_nil_iff.mp (List.reverse_eq_nil_iff.mp h)
  exact absurd (hall '\x7b' (by simp)) (by simp [hspace])

theorem isLineBreak_visible {c : Char} (h : 32 ≤ c.toNat ∧ c.toNat < 127) : isLineBreak c = false := by
  simp only [isLineBreak, Bool.or_eq_false_iff, Bool.and_eq_false_iff, decide_eq_false_iff_not, beq_eq_false_iff_ne]
  omega

theorem row_unbroken (u : Update) : ∀ c ∈ dumpsAscii u.row, isLineBreak c = false :=
  fun c hc => isLineBreak_visible (dumpsAscii_visible u.row c hc)

/-- The lines of `t`, for entries that were loaded before. -/
def loadFrom (entries : List ExperienceEntry) (t : Text) : Option (List ExperienceEntry) := loadLines (splitlines t) entries

theorem loadFrom_line (entries : List ExperienceEntry) (u : Update) (t : Text) :
    loadFrom entries (line u ++ t) = loadFrom (apply entries u) t := by
  obtain ⟨v, hv⟩ := dumpsAscii_head (isObject_row u)
  have hstrip : strip (dumpsAscii u.row) ≠ [] := hv ▸ strip_open v
  have hlines : splitlines (line u ++ t) = dumpsAscii u.row :: splitlines t := by
    rw [line, List.append_assoc]
    exact splitlines_append t (row_unbroken u) (by decide) (by decide)
  rw [loadFrom, hlines, loadLines, if_neg hstrip, loads_row, Option.bind_some, readRow_row]
  rfl

theorem loadFrom_row (entries : List ExperienceEntry) (u : Update) :
    loadFrom entries (dumpsAscii u.row) = some (apply entries u) := by
  obtain ⟨v, hv⟩ := dumpsAscii_head (isObject_row u)
  have hstrip : strip (dumpsAscii u.row) ≠ [] := hv ▸ strip_open v
  have hne : dumpsAscii u.row ≠ [] := hv ▸ List.cons_ne_nil _ _
  rw [loadFrom, splitlines_single (row_unbroken u) hne, loadLines, if_neg hstrip, loads_row, Option.bind_some,
    readRow_row]
  rfl

theorem loadFrom_torn (entries : List ExperienceEntry) {u : Update} {t v : Text} (htv : t ++ v = dumpsAscii u.row)
    (ht : t ≠ []) (hv : v ≠ []) : loadFrom entries t = none := by
  obtain ⟨w, hw⟩ := dumpsAscii_head (isObject_row u)
  have hunbroken : ∀ c ∈ t, isLineBreak c = false :=
    fun c hc => row_unbroken u c (htv ▸ List.mem_append_left v hc)
  have hstrip : strip t ≠ [] := by
    cases t with
    | nil => exact absurd rfl ht
    | cons c t =>
      rw [hw, List.cons_append] at htv
      rw [(List.cons.inj htv).1]
      exact strip_open t
  rw [loadFrom, splitlines_single hunbroken ht, loadLines, if_neg hstrip,
    loads_dumpsAscii_start (distinct_row u) (isObject_row u) htv hv]
  rfl

theorem loadFrom_lines (entries : List ExperienceEntry) (us : List Update) (t : Text) :
    loadFrom entries (us.flatMap line ++ t) = loadFrom (us.foldl apply entries) t := by
  induction us generalizing entries with
  | nil => rfl
  | cons u us ih => rw [List.flatMap_cons, List.append_assoc, loadFrom_line, ih, List.foldl_cons]

theorem loadFrom_cut (entries : List ExperienceEntry) (us : List Update) (k : ℕ) :
    (∃ j ≤ us.length, ((us.flatMap line).take k = (us.take j).flatMap line ∨
        (us.flatMap line).take k ++ ['\n'] = (us.take j).flatMap line) ∧
      loadFrom entries ((us.flatMap line).take k) = some ((us.take j).foldl apply entries)) ∨
    loadFrom entries ((us.flatMap line).take k) = none := by
  induction us generalizing entries k with
  | nil => exact .inl ⟨0, le_refl 0, .inl (List.take_nil), by rw [List.flatMap_nil, List.take_nil]; rfl⟩
  | cons u us ih =>
    rw [List.flatMap_cons]
    by_cases hwhole : (line u).length ≤ k
    · have htake : (line u ++ us.flatMap line).take k = line u ++ (us.flatMap line).take (k - (line u).length) := by
        rw [List.take_append, List.take_of_length_le hwhole]
      rw [htake, loadFrom_line]
      rcases ih (apply entries u) (k - (line u).length) with ⟨j, hj, hcut, hload⟩ | hnone
      · refine .inl ⟨j + 1, Nat.succ_le_succ hj, ?_, hload⟩
        rw [List.take_succ_cons, List.flatMap_cons]
        rcases hcut with hcut | hcut
        · exact .inl (by rw [hcut])
        · exact .inr (by rw [List.append_assoc, hcut])
      · exact .inr hnone
    · have hlength : (line u).length = (dumpsAscii u.row).length + 1 := by
        rw [line, List.length_append]
        rfl
      have htake : (line u ++ us.flatMap line).take k = (dumpsAscii u.row).take k := by
        rw [List.take_append_of_le_length (by omega), line, List.take_append_of_le_length (by omega)]
      rw [htake]
      rcases Nat.eq_zero_or_pos k with rfl | hpos
      · exact .inl ⟨0, Nat.zero_le _, .inl rfl, rfl⟩
      · by_cases hrow : k = (dumpsAscii u.row).length
        · refine .inl ⟨1, Nat.succ_le_succ (Nat.zero_le _), .inr ?_, ?_⟩
          · rw [hrow, List.take_length]
            simp [line]
          · rw [hrow, List.take_length, loadFrom_row]
            rfl
        · refine .inr (loadFrom_torn entries (List.take_append_drop k (dumpsAscii u.row)) ?_ ?_)
          · rw [Ne, List.take_eq_nil_iff]
            obtain ⟨w, hw⟩ := dumpsAscii_head (isObject_row u)
            rw [hw]
            simp
            omega
          · rw [Ne, List.drop_eq_nil_iff]
            omega

theorem loadFrom_between (entries : List ExperienceEntry) {us : List Update} {t : Text}
    (h : t = us.flatMap line ∨ t ++ ['\n'] = us.flatMap line) : loadFrom entries t ≠ none := by
  rcases h with rfl | h
  · rw [← List.append_nil (us.flatMap line), loadFrom_lines]
    exact Option.some_ne_none _
  · rcases List.eq_nil_or_concat us with rfl | ⟨init, u, rfl⟩
    · exact absurd h (List.append_ne_nil_of_right_ne_nil _ (List.cons_ne_nil _ _))
    · rw [List.concat_eq_append, List.flatMap_append, List.flatMap_singleton, line, ← List.append_assoc] at h
      rw [List.append_cancel_right h, loadFrom_lines, loadFrom_row]
      exact Option.some_ne_none _

theorem count_line (u : Update) : (line u).count '\n' = 1 := by
  rw [line, List.count_append, List.count_eq_zero_of_not_mem]
  · rfl
  · intro h
    exact absurd (row_unbroken u '\n' h) (by decide)

theorem count_lines (us : List Update) : (us.flatMap line).count '\n' = us.length := by
  induction us with
  | nil => rfl
  | cons u us ih => rw [List.flatMap_cons, List.count_append, count_line, ih, List.length_cons, Nat.add_comm]

theorem no_return_lines (us : List Update) : '\r' ∉ us.flatMap line := by
  intro h
  obtain ⟨u, -, hu⟩ := List.mem_flatMap.mp h
  rcases List.mem_append.mp hu with hu | hu
  · exact absurd (row_unbroken u '\r' hu) (by decide)
  · exact absurd (List.mem_singleton.mp hu) (by decide)

theorem load_getD (file : Option Text) : load file = load (some (file.getD [])) := by
  cases file with
  | none => rfl
  | some t => rfl

theorem load_of_no_return {t : Text} (h : '\r' ∉ t) : load (some t) = loadFrom [] t := by
  rw [load, universalNewlines_of_no_return h]
  rfl

theorem foldl_append (us : List Update) (s : ExperienceStore) :
    (us.foldl .append s).entries = us.foldl apply s.entries ∧
      (us.foldl .append s).file.getD [] = s.file.getD [] ++ us.flatMap line := by
  induction us generalizing s with
  | nil => exact ⟨rfl, (List.append_nil _).symm⟩
  | cons u us ih =>
    obtain ⟨hentries, hfile⟩ := ih (s.append u)
    refine ⟨hentries, hfile.trans ?_⟩
    rw [List.flatMap_cons, ← List.append_assoc]
    rfl

def Logged (s : ExperienceStore) (us : List Update) : Prop :=
  s.entries = us.foldl apply [] ∧ s.file.getD [] = us.flatMap line

theorem Logged.append {s : ExperienceStore} {us : List Update} (h : Logged s us) (new : List Update) :
    Logged (new.foldl .append s) (us ++ new) := by
  obtain ⟨hentries, hfile⟩ := foldl_append new s
  rw [Logged, hentries, hfile, h.1, h.2, List.foldl_append, List.flatMap_append]
  exact ⟨rfl, rfl⟩

theorem Logged.load {s : ExperienceStore} {us : List Update} (h : Logged s us) : load s.file = some s.entries := by
  rw [load_getD, h.2, load_of_no_return (no_return_lines us), ← List.append_nil (us.flatMap line), loadFrom_lines, h.1]
  rfl

section
variable {γ ρ ω : Type} {D : Describing γ ρ ω} {s : ExperienceStore} {e : Event γ ρ ω} {us : List Update}

theorem exists_logged (D : Describing γ ρ ω) (es : List (Event γ ρ ω)) : ∃ us, Logged (live D es) us := by
  have hfold : ∀ (s : ExperienceStore) (us : List Update), Logged s us → ∃ us, Logged (es.foldl (step D) s) us := by
    induction es with
    | nil => exact fun s us h => ⟨us, h⟩
    | cons e es ih => exact fun s us h => ih _ _ (h.append (updates D s.entries e))
  exact hfold {} [] ⟨rfl, rfl⟩

theorem crashed_eq (k : ℕ) : crashed D s e k = s.file.getD [] ++ ((updates D s.entries e).flatMap line).take k := by
  rw [crashed, step, (foldl_append _ s).2, List.take_length_add_append]

theorem partly_file (j : ℕ) :
    (partly D s e j).file.getD [] = s.file.getD [] ++ ((updates D s.entries e).take j).flatMap line :=
  (foldl_append _ s).2

theorem betweenRows_iff (k : ℕ) : BetweenRows D s e k ↔ ∃ j,
    ((updates D s.entries e).flatMap line).take k = ((updates D s.entries e).take j).flatMap line ∨
      ((updates D s.entries e).flatMap line).take k ++ ['\n'] = ((updates D s.entries e).take j).flatMap line := by
  simp only [BetweenRows, crashed_eq, partly_file, List.append_assoc, List.append_cancel_left_eq]

theorem load_crashed (h : Logged s us) (k : ℕ) :
    load (some (crashed D s e k)) = loadFrom s.entries (((updates D s.entries e).flatMap line).take k) := by
  have hreturn : '\r' ∉ us.flatMap line ++ ((updates D s.entries e).flatMap line).take k := by
    rw [List.mem_append, not_or]
    exact ⟨no_return_lines us, fun hmem => no_return_lines _ (List.mem_of_mem_take hmem)⟩
  rw [crashed_eq, h.2, load_of_no_return hreturn, loadFrom_lines, ← h.1]

theorem survives_iff_between (h : Logged s us) (k : ℕ) : Survives D s e k ↔ BetweenRows D s e k := by
  have hdrop : (crashed D s e k).drop (s.file.getD []).length = ((updates D s.entries e).flatMap line).take k := by
    rw [crashed_eq, List.drop_left]
  rw [betweenRows_iff]
  simp only [Survives, hdrop, load_crashed h]
  rcases loadFrom_cut s.entries (updates D s.entries e) k with ⟨j, hj, hcut, hload⟩ | hnone
  · refine iff_of_true ⟨j, ?_, ?_⟩ ⟨j, hcut⟩
    · have hcount : (((updates D s.entries e).take j).flatMap line).count '\n' = j := by
        rw [count_lines, List.length_take, Nat.min_eq_left hj]
      rcases hcut with hcut | hcut
      · exact .inl (by rw [hcut, hcount])
      · refine .inr ?_
        rw [← hcut, List.count_append] at hcount
        exact hcount.symm
    · rw [hload, partly, (foldl_append _ s).1]
  · refine iff_of_false ?_ ?_
    · rintro ⟨j, -, hload⟩
      rw [hnone] at hload
      exact nomatch hload
    · rintro ⟨j, hcut⟩
      exact loadFrom_between s.entries hcut hnone

/-- The file of every sequence of events is loaded as the live entries, and what a death leaves of it is loaded exactly
when it has no part of a row. -/
theorem log_replays (D : Describing γ ρ ω) (es : List (Event γ ρ ω)) :
    load (live D es).file = some (live D es).entries ∧
      ∀ (e : Event γ ρ ω) (k : ℕ), Survives D (live D es) e k ↔ BetweenRows D (live D es) e k := by
  obtain ⟨us, hlogged⟩ := exists_logged D es
  exact ⟨hlogged.load, fun e k => survives_iff_between hlogged k⟩

end

def terse : Describing Unit Unit Unit where
  describeChange _ _ := []
  reportEvidence _ _ := []
  describeProposal _ _ := []
  minus a _ := a
  positive _ := true
  lower t := t

def duplicate : Event Unit Unit Unit := .rejected {
  novelty := true
  generation := 1
  operator := "edit".toList
  parent := ⟨"p".toList, none, [], [], [], 0, 0, none, true, ()⟩
  proposal := () }

def duplicateEntry : ExperienceEntry :=
  { kind := .rejectedNovelty, operator := "edit".toList, generation := 1, parentId := "p".toList }

theorem torn_row_not_loaded : ¬ ∀ (γ ρ ω : Type) (D : Describing γ ρ ω) (es : List (Event γ ρ ω)) (e : Event γ ρ ω) (k : ℕ),
    load (live D es).file = some (live D es).entries ∧ Survives D (live D es) e k := by
  intro h
  obtain ⟨-, j, -, hload⟩ := h Unit Unit Unit terse [] duplicate 1
  have hlogged : Logged (live terse []) [] := ⟨rfl, rfl⟩
  have hupdates : updates terse (live terse []).entries duplicate = [.entry duplicateEntry] := rfl
  obtain ⟨v, hv⟩ := dumpsAscii_head (isObject_row (.entry duplicateEntry))
  have htake : ([Update.entry duplicateEntry].flatMap line).take 1 = ['\x7b'] := by
    rw [List.flatMap_singleton, line, hv]
    rfl
  have hne : v ≠ [] := by
    intro hnil
    have hread := loads_row (.entry duplicateEntry)
    rw [hv, hnil] at hread
    exact nomatch hread
  rw [load_crashed hlogged, hupdates, htake,
    loadFrom_torn _ (show ['\x7b'] ++ v = dumpsAscii (Update.entry duplicateEntry).row from hv.symm) (List.cons_ne_nil _ _) hne]
    at hload
  exact nomatch hload

end EvoHarness.Evoplus.Experience
