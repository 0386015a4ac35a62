import EvoHarness.Library.Lines
import EvoHarness.Propose

/-! Where the declarations of a rendered sketch stand: the line recorded for each, and
the line of the file its signature begins on. -/
namespace EvoHarness.Proof
open PyText

structure Emitted where
  name : Text
  signature : Text
  body : Text
  deriving DecidableEq

namespace Emitted

def lines (d : Emitted) : List Text := declarationText d.signature d.body

/-- The first line up to the `:=`, what follows the colon on it, and the lines after it. -/
theorem lines_eq (d : Emitted) :
    ∃ rest more, d.lines = (d.signature ++ ' ' :: ':' :: rest) :: (more ++ [[]]) := by
  unfold lines declarationText
  split
  · exact ⟨['='], splitlines d.body, rfl⟩
  · exact ⟨"= ".toList ++ d.body, [], by simp⟩

theorem innerBreaks_lines (d : Emitted) : innerBreaks d.lines = d.signature.count '\n' := by
  unfold lines declarationText
  split
  · have hbody : innerBreaks (splitlines d.body) = 0 := innerBreaks_eq_zero.mpr splitlines_unbroken
    simp [innerBreaks_append, hbody]
  · next h => simp [List.count_eq_zero_of_not_mem h]

theorem innerBreaks_flatMap (ds : List Emitted) :
    innerBreaks (ds.flatMap lines) = innerBreaks (ds.map (·.signature)) := by
  induction ds with
  | nil => rfl
  | cons d ds ih =>
    rw [List.flatMap_cons, innerBreaks_append, innerBreaks_lines, ih, List.map_cons, innerBreaks_cons]

end Emitted

def SubgoalSpec.block (bodies : Dict Text) (spec : SubgoalSpec) : Emitted :=
  ⟨spec.name, spec.signature, (bodies.get spec.name).getD "sorry".toList⟩

namespace Sketch

def parent (k : Sketch) : Emitted := ⟨k.parentName, k.parentSignature, k.parentBody⟩

def lemmas (k : Sketch) (bodies : Dict Text) (omitted : List Text) : List Emitted :=
  (k.subgoals.filter (·.name ∉ omitted)).map (·.block bodies)

def blocks (k : Sketch) (bodies : Dict Text) (omitted : List Text) : List Emitted :=
  k.lemmas bodies omitted ++ [k.parent]

def head (k : Sketch) (preamble : Bool) : List Text :=
  if preamble = true ∧ k.preamble ≠ [] then splitlines k.preamble ++ [[]] else []

def before (k : Sketch) (preamble : Bool) (earlier : List Emitted) : Text :=
  unlines (k.head preamble ++ earlier.flatMap Emitted.lines)

/-- Each recorded line is the line of the file that the declaration's signature begins on. -/
def PositionsTrue (k : Sketch) (bodies : Dict Text) (preamble : Bool) (omitted : List Text) : Prop :=
  ∀ name line, (render k bodies preamble omitted).declarationLines.get name = some line →
    ∃ earlier d later after, k.blocks bodies omitted = earlier ++ d :: later ∧ d.name = name ∧
      (render k bodies preamble omitted).text = k.before preamble earlier ++ d.signature ++ after ∧
      line = lineNumber (k.before preamble earlier)

end Sketch

def emitAll (l : Layout) (ds : List Emitted) : Layout :=
  ds.foldl (fun l d => emit l d.name d.signature d.body) l

theorem emitAll_lines (l : Layout) (ds : List Emitted) :
    (emitAll l ds).lines = l.lines ++ ds.flatMap Emitted.lines := by
  induction ds generalizing l with
  | nil => simp [emitAll]
  | cons d ds ih =>
    have hrest := ih (emit l d.name d.signature d.body)
    rw [List.flatMap_cons, ← List.append_assoc]
    exact hrest

theorem emitAll_get_of_notMem (l : Layout) {ds : List Emitted} {name : Text}
    (h : name ∉ ds.map (·.name)) : (emitAll l ds).declarationLines.get name = l.declarationLines.get name := by
  induction ds generalizing l with
  | nil => rfl
  | cons d ds ih =>
    rw [List.map_cons, List.mem_cons, not_or] at h
    have hrest := ih (emit l d.name d.signature d.body) h.2
    exact hrest.trans (Dict.get_set_of_ne _ _ h.1)

theorem emitAll_get (l : Layout) {earlier later : List Emitted} {d : Emitted}
    (h : d.name ∉ later.map (·.name)) :
    (emitAll l (earlier ++ d :: later)).declarationLines.get d.name =
      some ((l.lines ++ earlier.flatMap Emitted.lines).length + 1) := by
  have hsplit : emitAll l (earlier ++ d :: later) =
      emitAll (emit (emitAll l earlier) d.name d.signature d.body) later := by
    simp [emitAll]
  rw [hsplit, emitAll_get_of_notMem _ h, ← emitAll_lines]
  exact Dict.get_set_self ..

theorem renderSubgoals_eq (bodies : Dict Text) (omitted : List Text) (l : Layout) (specs : List SubgoalSpec) :
    renderSubgoals bodies omitted l specs =
      emitAll l ((specs.filter (·.name ∉ omitted)).map (·.block bodies)) := by
  induction specs generalizing l with
  | nil => rfl
  | cons spec specs ih =>
    unfold renderSubgoals
    by_cases h : spec.name ∈ omitted
    · rw [if_pos h, ih, List.filter_cons_of_neg (by simp [h])]
    · rw [if_neg h, ih, List.filter_cons_of_pos (by simp [h])]
      rfl

section
variable (k : Sketch) (bodies : Dict Text) (preamble : Bool) (omitted : List Text)

theorem render_eq : render k bodies preamble omitted =
    { text := rstrip (join ['\n'] (k.head preamble ++ (k.blocks bodies omitted).flatMap Emitted.lines)) ++ ['\n']
      declarationLines :=
        (emitAll { lines := k.head preamble } (k.blocks bodies omitted)).declarationLines } := by
  have hstart : (if preamble = true ∧ k.preamble ≠ [] then ({ lines := splitlines k.preamble ++ [[]] } : Layout)
      else {}) = { lines := k.head preamble } := by
    unfold Sketch.head
    split <;> rfl
  have hall : emit (renderSubgoals bodies omitted { lines := k.head preamble } k.subgoals) k.parentName
      k.parentSignature k.parentBody = emitAll { lines := k.head preamble } (k.blocks bodies omitted) := by
    rw [renderSubgoals_eq]
    simp [Sketch.blocks, Sketch.lemmas, Sketch.parent, emitAll]
  unfold render
  simp only [hstart, hall, emitAll_lines]

variable {k bodies preamble omitted}

theorem render_text (preamble : Bool) {earlier later : List Emitted} {d : Emitted}
    (h : k.blocks bodies omitted = earlier ++ d :: later) :
    ∃ after, (render k bodies preamble omitted).text = k.before preamble earlier ++ d.signature ++ after := by
  obtain ⟨rest, more, hlines⟩ := d.lines_eq
  have hblank : ∃ lines, (d :: later).flatMap Emitted.lines = (d.signature ++ ' ' :: ':' :: rest) :: lines ++ [[]] := by
    cases later using List.reverseRecOn with
    | nil => exact ⟨more, by simp [hlines]⟩
    | append_singleton later e =>
      obtain ⟨rest', more', hlast⟩ := e.lines_eq
      exact ⟨more ++ [[]] ++ later.flatMap Emitted.lines ++ (e.signature ++ ' ' :: ':' :: rest') :: more',
        by simp [hlines, hlast]⟩
  obtain ⟨lines, hblank⟩ := hblank
  have hfile : join ['\n'] (k.head preamble ++ (k.blocks bodies omitted).flatMap Emitted.lines) =
      (k.before preamble earlier ++ d.signature ++ [' ']) ++ ':' :: (rest ++ '\n' :: unlines lines) := by
    calc
      _ = join ['\n'] ((k.head preamble ++ earlier.flatMap Emitted.lines) ++
            ((d.signature ++ ' ' :: ':' :: rest) :: lines) ++ [[]]) := by
          rw [h, List.flatMap_append, hblank]
          simp
      _ = _ := by
          rw [join_append_blank, unlines_append, unlines_cons]
          simp [Sketch.before]
  obtain ⟨after, hkept⟩ := rstrip_keeps (k.before preamble earlier ++ d.signature ++ [' '])
    (rest ++ '\n' :: unlines lines) (show isSpace ':' = false by decide)
  refine ⟨' ' :: ':' :: after ++ ['\n'], ?_⟩
  rw [render_eq, hfile, hkept]
  simp

theorem render_get (preamble : Bool) {earlier later : List Emitted} {d : Emitted}
    (h : k.blocks bodies omitted = earlier ++ d :: later) (hlast : d.name ∉ later.map (·.name)) :
    (render k bodies preamble omitted).declarationLines.get d.name =
      some ((k.head preamble ++ earlier.flatMap Emitted.lines).length + 1) := by
  rw [render_eq, h]
  exact emitAll_get _ hlast

theorem Sketch.head_unbroken : innerBreaks (k.head preamble) = 0 := by
  unfold Sketch.head
  split
  · rw [innerBreaks_append, innerBreaks_eq_zero.mpr splitlines_unbroken]
    rfl
  · rfl

theorem Sketch.lineNumber_before (earlier : List Emitted) :
    lineNumber (k.before preamble earlier) =
      (k.head preamble ++ earlier.flatMap Emitted.lines).length + innerBreaks (earlier.map (·.signature)) + 1 := by
  rw [Sketch.before, lineNumber_unlines, innerBreaks_append, Sketch.head_unbroken, Emitted.innerBreaks_flatMap]
  omega

theorem render_get_mem {name : Text} {line : ℕ}
    (h : (render k bodies preamble omitted).declarationLines.get name = some line) :
    ∃ earlier d later, k.blocks bodies omitted = earlier ++ d :: later ∧ d.name = name ∧
      name ∉ later.map (·.name) := by
  rw [render_eq] at h
  generalize k.blocks bodies omitted = ds at h ⊢
  induction ds using List.reverseRecOn with
  | nil => simp [emitAll, Dict.get] at h
  | append_singleton ds d ih =>
    by_cases hd : d.name = name
    · exact ⟨ds, d, [], rfl, hd, by simp⟩
    · have hprevious : (emitAll { lines := k.head preamble } ds).declarationLines.get name = some line := by
        rw [← h]
        simp only [emitAll, List.foldl_append, List.foldl_cons, List.foldl_nil]
        exact (Dict.get_set_of_ne _ _ (Ne.symm hd)).symm
      obtain ⟨earlier, e, later, hds, he, hlater⟩ := ih hprevious
      refine ⟨earlier, e, later ++ [d], by simp [hds], he, ?_⟩
      rw [List.map_append, List.mem_append]
      intro hmem
      cases hmem with
      | inl h => exact hlater h
      | inr h => exact hd (List.mem_singleton.mp h).symm

end

theorem Sketch.blocks_cases {k : Sketch} {bodies : Dict Text} {omitted : List Text}
    {earlier later : List Emitted} {d : Emitted} (h : k.blocks bodies omitted = earlier ++ d :: later) :
    (d = k.parent ∧ earlier = k.lemmas bodies omitted ∧ later = []) ∨
      ∃ middle, later = middle ++ [k.parent] ∧ k.lemmas bodies omitted = earlier ++ d :: middle := by
  cases later using List.reverseRecOn with
  | nil =>
    obtain ⟨hlemmas, hd⟩ := List.append_inj' h rfl
    exact Or.inl ⟨(List.cons.inj hd).1.symm, hlemmas.symm, rfl⟩
  | append_singleton middle e =>
    have hlast : k.lemmas bodies omitted ++ [k.parent] = (earlier ++ d :: middle) ++ [e] := by
      rw [List.append_assoc, List.cons_append]
      exact h
    obtain ⟨hlemmas, he⟩ := List.append_inj' hlast rfl
    rw [(List.cons.inj he).1]
    exact Or.inr ⟨middle, rfl, hlemmas⟩

theorem Sketch.blocks_nodup {k : Sketch} (bodies : Dict Text) (omitted : List Text) (h : k.names.Nodup) :
    ((k.blocks bodies omitted).map (·.name)).Nodup := by
  have hnames : (k.blocks bodies omitted).map (·.name) =
      (k.subgoals.filter (·.name ∉ omitted)).map (·.name) ++ [k.parentName] := by
    simp only [Sketch.blocks, Sketch.lemmas, List.map_append, List.map_map]
    rfl
  rw [hnames]
  exact List.Nodup.sublist ((List.filter_sublist.map _).append_right _) h

/-- In a sketch whose names differ, every recorded line is true just when no signature
but the last has a line end. -/
theorem Sketch.positionsTrue_iff {k : Sketch} (bodies : Dict Text) (preamble : Bool) (omitted : List Text)
    (hnames : k.names.Nodup) :
    k.PositionsTrue bodies preamble omitted ↔ ∀ spec ∈ k.subgoals, spec.name ∉ omitted → '\n' ∉ spec.signature := by
  have hnodup := Sketch.blocks_nodup bodies omitted hnames
  have hbreaks : innerBreaks ((k.lemmas bodies omitted).map (·.signature)) = 0 ↔
      ∀ spec ∈ k.subgoals, spec.name ∉ omitted → '\n' ∉ spec.signature := by
    have hsignatures : (k.lemmas bodies omitted).map (·.signature) =
        (k.subgoals.filter (·.name ∉ omitted)).map (·.signature) := by
      simp only [lemmas, List.map_map]
      rfl
    rw [hsignatures, innerBreaks_eq_zero]
    constructor
    · intro h spec hmem hkept
      exact h _ (List.mem_map_of_mem (List.mem_filter.mpr ⟨hmem, by simpa using hkept⟩))
    · intro h line hline
      obtain ⟨spec, hspec, rfl⟩ := List.mem_map.mp hline
      obtain ⟨hmem, hkept⟩ := List.mem_filter.mp hspec
      exact h spec hmem (by simpa using hkept)
  rw [← hbreaks]
  constructor
  · -- the parent comes last: every line end that was not counted is above it
    intro htrue
    have hall : k.blocks bodies omitted = k.lemmas bodies omitted ++ k.parent :: [] := rfl
    have hlast := render_get preamble hall (by simp)
    obtain ⟨earlier, d, later, after, hds, hd, _, hline⟩ := htrue _ _ hlast
    cases blocks_cases hds with
    | inl hend =>
      rw [hend.2.1, lineNumber_before] at hline
      omega
    | inr hmid =>
      -- no other declaration has the parent's name
      obtain ⟨middle, _, hlemmas⟩ := hmid
      have hmem : d ∈ k.lemmas bodies omitted := by simp [hlemmas]
      rw [blocks, List.map_append, List.nodup_append] at hnodup
      exact absurd hd (hnodup.2.2 _ (List.mem_map_of_mem hmem) _ (List.mem_singleton.mpr rfl))
  · intro hzero name line hget
    obtain ⟨earlier, d, later, hds, hd, hlater⟩ := render_get_mem hget
    obtain ⟨after, htext⟩ := render_text preamble hds
    refine ⟨earlier, d, later, after, hds, hd, htext, ?_⟩
    rw [← hd] at hget hlater
    rw [render_get preamble hds hlater] at hget
    have hearlier : innerBreaks (earlier.map (·.signature)) = 0 := by
      cases blocks_cases hds with
      | inl hend =>
        rw [hend.2.1]
        exact hzero
      | inr hmid =>
        obtain ⟨middle, _, hlemmas⟩ := hmid
        rw [hlemmas, List.map_append, innerBreaks_append] at hzero
        omega
    rw [lineNumber_before, ← Option.some.inj hget]
    omega

/-- The recorded lines of a parsed sketch are true just when no rendered lemma's
signature goes over several lines. -/
theorem render_records_positions {loads : Text → Except Text Json} {text parentName header : Text} {goal : Goal}
    {k : Sketch} (h : parseProposal loads text goal parentName header = .ok k) (bodies : Dict Text)
    (preamble : Bool) (omitted : List Text) :
    k.PositionsTrue bodies preamble omitted ↔ ∀ spec ∈ k.subgoals, spec.name ∉ omitted → '\n' ∉ spec.signature :=
  Sketch.positionsTrue_iff bodies preamble omitted (parseProposal_names h)

def lemmaJson (name signature : String) : Json :=
  .object [] [("name".toList, .string name.toList), ("signature".toList, .string signature.toList)]

def twoLineReply : Text :=
  ("\x7b\"lemmas\": [\x7b\"name\": \"a\", \"signature\": \"theorem a :\\n  True\"\x7d, " ++
    "\x7b\"name\": \"b\", \"signature\": \"theorem b : True\"\x7d], \"parent_body\": \"a\"\x7d").toList

def loadsTwoLine (t : Text) : Except Text Json :=
  if t = twoLineReply then
    .ok (.object [] [("lemmas".toList, .array [] [lemmaJson "a" "theorem a :\n  True", lemmaJson "b" "theorem b : True"]),
      ("parent_body".toList, .string "a".toList)])
  else .error "Expecting value".toList

def twoLineGoal : Goal := { id := 0, identity := "theorem t : True".toList, statement := "theorem t : True".toList }

def twoLineSketch : Sketch where
  parentName := "t".toList
  parentSignature := "theorem t : True".toList
  parentBody := "a".toList
  subgoals := [⟨"a".toList, [], "theorem a :\n  True".toList⟩, ⟨"b".toList, [], "theorem b : True".toList⟩]

theorem twoLine_parsed : parseProposal loadsTwoLine twoLineReply twoLineGoal "t".toList = .ok twoLineSketch := by
  decide +kernel

theorem render_records_positions_twoLine : twoLineSketch.PositionsTrue [] true ["a".toList] :=
  (render_records_positions twoLine_parsed [] true ["a".toList]).mpr (by decide)

theorem twoLine_misplaced :
    ¬ ∀ (loads : Text → Except Text Json) (text parentName header : Text) (goal : Goal) (k : Sketch),
      parseProposal loads text goal parentName header = .ok k → ∀ bodies preamble omitted,
        k.PositionsTrue bodies preamble omitted := by
  intro h
  have htrue := h _ _ _ _ _ _ twoLine_parsed [] true []
  rw [Sketch.positionsTrue_iff [] true [] (parseProposal_names twoLine_parsed)] at htrue
  exact absurd htrue (by decide)

end EvoHarness.Proof
