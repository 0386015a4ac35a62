import EvoHarness.Rendering
import EvoHarness.Grade

/-! What earns a sketch its acceptance: it compiles, and Lean tells of `sorry` only where
the proposed lemmas stand. -/
namespace EvoHarness.Proof
open PyText

def sorryWarning : Text := "warning: declaration uses".toList

/-- `_SORRY_RE` tried at the start of a text: the digits of the line. -/
def sorryHere : Matcher Text
  | ':' :: t =>
    match t.dropWhile isDecimal with
    | ':' :: u =>
      match u.dropWhile isDecimal with
      | ':' :: v =>
        if t.takeWhile isDecimal ≠ [] ∧ u.takeWhile isDecimal ≠ [] ∧ sorryWarning.isPrefixOf (lstrip v) then
          some (t.takeWhile isDecimal, (lstrip v).drop sorryWarning.length)
        else none
      | _ => none
    | _ => none
  | _ => none

def RenderedSketch.nameAt (r : RenderedSketch) (line : ℕ) : Option Text :=
  (r.declarationLines.find? (·.2 = line)).map Prod.fst

def placeholder (digits : Text) : Text := "<line ".toList ++ digits ++ ['>']

def RenderedSketch.withSorry (r : RenderedSketch) (output : Text) : Finset Text :=
  ((finditer sorryHere output).map fun digits => (r.nameAt (intOf digits)).getD (placeholder digits)).toFinset

def Sketch.expected (k : Sketch) : Finset Text := (k.subgoals.map (·.name)).toFinset

/-- The validator's answer on a sketch that compiled. `reprs` shows a set of texts as a sorted list. -/
def sorryVerdict (reprs : Finset Text → Text) (k : Sketch) (withSorry : Finset Text) : Validation :=
  if k.parentName ∈ withSorry then
    { ok := false
      reason := ("the parent body still contains `sorry`: this sketch moves " ++
        "the goal rather than reducing it").toList }
  else if withSorry \ k.expected ≠ ∅ then
    { ok := false
      reason := "`sorry` outside the proposed lemmas: ".toList ++
        reprs (withSorry \ k.expected) }
  else { ok := true, reason := (toString k.expected.card).toList ++ " lemmas, parent closed".toList }

/-- `LeanSketchValidator.__call__`; an error is `SketchUnavailable`. -/
def validate (reprs : Finset Text → Text) (runner : LeanRunner) (goal : Goal) (k : Sketch) : Except Text Validation :=
  if strip k.parentSignature ≠ strip goal.statement then
    .ok { ok := false, reason := "the sketch closes a different proposition than the goal".toList }
  else
    let rendered := render k
    match runner rendered.text with
    | .error message => .error message
    | .ok (returncode, output) =>
      if returncode ≠ 0 then
        let errors := join ['\n'] (errorLines output)
        .ok
          { ok := false
            reason := ("the sketch does not compile:\n".toList ++ (if errors = [] then output else errors)).take 2000 }
      else .ok (sorryVerdict reprs k (rendered.withSorry output))

def warnedLines (output : Text) : List ℕ := (finditer sorryHere output).map intOf

/-- Lean warns of each declaration with `sorry` in it, by the line it starts on. `sorries`
are those lines of a file. -/
def Reports (runner : LeanRunner) (sorries : Text → List ℕ) : Prop :=
  ∀ text output, runner text = .ok (0, output) → ∀ line, line ∈ warnedLines output ↔ line ∈ sorries text

namespace Sketch

def StartsLemma (k : Sketch) (line : ℕ) : Prop :=
  ∃ earlier spec later, k.subgoals = earlier ++ spec :: later ∧
    line = lineNumber (k.before true (earlier.map (·.block [])))

def parentLine (k : Sketch) : ℕ := lineNumber (k.before true (k.lemmas [] []))

/-- What acceptance is to mean: the goal's proposition, a file that compiled, and `sorry`
in the lemmas alone. -/
structure Reduces (k : Sketch) (goal : Goal) (runner : LeanRunner) (sorries : Text → List ℕ) : Prop where
  same : strip k.parentSignature = strip goal.statement
  compiled : ∃ output, runner (render k).text = .ok (0, output)
  parent : ∀ line ∈ sorries (render k).text, line < k.parentLine
  lemmas : ∀ line ∈ sorries (render k).text, k.StartsLemma line

def countedLine (k : Sketch) (i : ℕ) : ℕ := (k.head true).length + 2 * i + 1

def Keeps (k : Sketch) (earlier : List SubgoalSpec) (spec : SubgoalSpec) (later : List SubgoalSpec) : Prop :=
  k.subgoals = earlier ++ spec :: later ∧ spec.name ∉ later.map (·.name) ∧ spec.name ≠ k.parentName

def Counted (k : Sketch) (line : ℕ) : Prop :=
  line = k.countedLine k.subgoals.length ∨ ∃ earlier spec later, k.Keeps earlier spec later ∧
    line = k.countedLine earlier.length

/-- Wherever a line is counted for a lemma, a lemma's block begins there, whatever line ends
the signatures above it have; and no lemma is called what an unknown line is called. -/
structure LinesHold (k : Sketch) : Prop where
  aligned : ∀ earlier spec later, k.Keeps earlier spec later → ∃ above s below, k.subgoals = above ++ s :: below ∧
    2 * above.length + innerBreaks (above.map (·.signature)) = 2 * earlier.length
  named : ∀ spec ∈ k.subgoals, ∀ digits, spec.name = placeholder digits → digits ≠ [] →
    (∀ c ∈ digits, isDecimal c = true) → spec.name ≠ k.parentName →
      k.Counted (intOf digits) ∨ k.StartsLemma (intOf digits)

end Sketch

section
variable {k : Sketch} {line : ℕ}

theorem lemmas_plain (k : Sketch) : k.lemmas [] [] = k.subgoals.map (·.block []) := by
  simp [Sketch.lemmas]

theorem length_plain (specs : List SubgoalSpec) :
    ((specs.map (·.block [])).flatMap Emitted.lines).length = 2 * specs.length := by
  induction specs with
  | nil => rfl
  | cons spec specs ih =>
    have hone : (spec.block []).lines.length = 2 := rfl
    rw [List.map_cons, List.flatMap_cons, List.length_append, hone, ih, List.length_cons]
    omega

theorem signatures_plain (specs : List SubgoalSpec) :
    (specs.map (·.block [])).map (·.signature) = specs.map (·.signature) := by
  rw [List.map_map]
  rfl

theorem lineNumber_plain (specs : List SubgoalSpec) :
    lineNumber (k.before true (specs.map (·.block []))) =
      k.countedLine specs.length + innerBreaks (specs.map (·.signature)) := by
  rw [Sketch.lineNumber_before, signatures_plain, List.length_append, length_plain, Sketch.countedLine]
  omega

theorem startsLemma_iff : k.StartsLemma line ↔ ∃ above s below, k.subgoals = above ++ s :: below ∧
    line = k.countedLine above.length + innerBreaks (above.map (·.signature)) := by
  unfold Sketch.StartsLemma
  simp only [lineNumber_plain]

theorem parentLine_eq :
    k.parentLine = k.countedLine k.subgoals.length + innerBreaks (k.subgoals.map (·.signature)) := by
  rw [Sketch.parentLine, lemmas_plain, lineNumber_plain]

theorem Sketch.StartsLemma.lt (h : k.StartsLemma line) : line < k.parentLine := by
  obtain ⟨above, s, below, hk, hline⟩ := startsLemma_iff.mp h
  rw [parentLine_eq, hline, hk]
  simp only [Sketch.countedLine, List.length_append, List.length_cons, List.map_append, innerBreaks_append]
  omega

theorem Dict.mem_of_get {d : Dict ℕ} {name : Text} (h : d.get name = some line) : (name, line) ∈ d := by
  unfold Dict.get at h
  cases hfind : d.find? (·.1 = name) with
  | none => simp [hfind] at h
  | some p =>
    have hname : p.1 = name := by simpa using List.find?_some hfind
    have hline : p.2 = line := by simpa [hfind] using h
    rw [← hname, ← hline]
    exact List.mem_of_find?_eq_some hfind

theorem Dict.get_of_mem {d : Dict ℕ} {name : Text} (hd : (d.map (·.1)).Nodup) (h : (name, line) ∈ d) :
    d.get name = some line := by
  induction d with
  | nil => cases h
  | cons p d ih =>
    rw [List.map_cons, List.nodup_cons] at hd
    cases List.mem_cons.mp h with
    | inl h => simp [Dict.get, ← h]
    | inr h =>
      have hne : p.1 ≠ name := by
        intro hp
        exact hd.1 (hp ▸ List.mem_map_of_mem (f := (·.1)) h)
      have hrest := ih hd.2 h
      simpa [Dict.get, List.find?_cons, hne] using hrest

theorem emitAll_keys (l : Layout) (ds : List Emitted) (hl : (l.declarationLines.map (·.1)).Nodup) :
    ((emitAll l ds).declarationLines.map (·.1)).Nodup := by
  induction ds generalizing l with
  | nil => exact hl
  | cons d ds ih =>
    apply ih
    have hout : d.name ∉ (l.declarationLines.filter (·.1 ≠ d.name)).map (·.1) := by
      intro h
      obtain ⟨p, hp, hname⟩ := List.mem_map.mp h
      have hne := (List.mem_filter.mp hp).2
      simp [hname] at hne
    have hrest : ((l.declarationLines.filter (·.1 ≠ d.name)).map (·.1)).Nodup :=
      hl.sublist (List.filter_sublist.map _)
    exact List.nodup_cons.mpr ⟨hout, hrest⟩

theorem render_keys : ((render k).declarationLines.map (·.1)).Nodup := by
  rw [render_eq]
  exact emitAll_keys _ _ List.nodup_nil

theorem recorded_iff {name : Text} : (render k).declarationLines.get name = some line ↔
    (name = k.parentName ∧ line = k.countedLine k.subgoals.length) ∨
      ∃ earlier spec later, k.Keeps earlier spec later ∧ spec.name = name ∧ line = k.countedLine earlier.length := by
  have hlength (specs : List SubgoalSpec) :
      (k.head true ++ (specs.map (·.block [])).flatMap Emitted.lines).length + 1 =
        k.countedLine specs.length := by
    rw [List.length_append, length_plain, Sketch.countedLine]
  have hparent : (render k).declarationLines.get k.parentName = some (k.countedLine k.subgoals.length) := by
    have hall : k.blocks [] [] = k.lemmas [] [] ++ k.parent :: [] := rfl
    rw [← hlength, ← lemmas_plain]
    exact render_get true hall (by simp)
  have hlemma {earlier spec later} (h : k.Keeps earlier spec later) :
      (render k).declarationLines.get spec.name = some (k.countedLine earlier.length) := by
    have hds : k.blocks [] [] = earlier.map (·.block []) ++ spec.block [] ::
        (later.map (·.block []) ++ [k.parent]) := by
      simp [Sketch.blocks, lemmas_plain, h.1]
    have hlast : (spec.block []).name ∉ (later.map (·.block []) ++ [k.parent]).map (·.name) := by
      rw [List.map_append, List.map_map, List.mem_append]
      intro hmem
      cases hmem with
      | inl hmem => exact h.2.1 hmem
      | inr hmem => exact h.2.2 (List.mem_singleton.mp hmem)
    rw [← hlength]
    exact render_get true hds hlast
  constructor
  · intro h
    obtain ⟨earlier, d, later, hds, hd, hlater⟩ := render_get_mem h
    cases Sketch.blocks_cases hds with
    | inl hend =>
      have hname : name = k.parentName := by rw [← hd, hend.1]; rfl
      rw [hname, hparent] at h
      exact Or.inl ⟨hname, (Option.some.inj h).symm⟩
    | inr hmid =>
      obtain ⟨middle, hlatereq, hlemmas⟩ := hmid
      rw [lemmas_plain, List.map_eq_append_iff] at hlemmas
      obtain ⟨above, below, hk, _, hbelow⟩ := hlemmas
      obtain ⟨spec, rest, hbelow, hspec, hrest⟩ := List.map_eq_cons_iff.mp hbelow
      have hkeeps : k.Keeps above spec rest := by
        rw [hlatereq, List.map_append, List.mem_append, not_or] at hlater
        rw [← hd, ← hspec, ← hrest, List.map_map] at hlater
        exact ⟨by rw [hk, hbelow], hlater.1, fun hp => hlater.2 (List.mem_singleton.mpr hp)⟩
      have hname : spec.name = name := by rw [← hd, ← hspec]; rfl
      rw [← hname, hlemma hkeeps] at h
      exact Or.inr ⟨above, spec, rest, hkeeps, hname, (Option.some.inj h).symm⟩
  · intro h
    cases h with
    | inl h => rw [h.1, h.2, hparent]
    | inr h =>
      obtain ⟨earlier, spec, later, hkeeps, hname, hline⟩ := h
      rw [← hname, hline, hlemma hkeeps]

theorem countedLine_inj {i j : ℕ} (h : k.countedLine i = k.countedLine j) : i = j := by
  simp only [Sketch.countedLine] at h
  omega

theorem nameAt_eq_none : (render k).nameAt line = none ↔ ¬ k.Counted line := by
  have hmem : (render k).nameAt line = none ↔ ∀ name, (render k).declarationLines.get name ≠ some line := by
    unfold RenderedSketch.nameAt
    rw [Option.map_eq_none_iff, List.find?_eq_none]
    constructor
    · intro h name hget
      exact h _ (Dict.mem_of_get hget) (by simp)
    · intro h p hp hline
      have hline : p.2 = line := by simpa using hline
      exact h p.1 (Dict.get_of_mem render_keys (hline ▸ hp))
  rw [hmem, Sketch.Counted]
  constructor
  · intro h hcounted
    cases hcounted with
    | inl hparent => exact h k.parentName (recorded_iff.mpr (Or.inl ⟨rfl, hparent⟩))
    | inr hlemma =>
      obtain ⟨earlier, spec, later, hkeeps, hline⟩ := hlemma
      exact h spec.name (recorded_iff.mpr (Or.inr ⟨earlier, spec, later, hkeeps, rfl, hline⟩))
  · intro h name hget
    cases recorded_iff.mp hget with
    | inl hparent => exact h (Or.inl hparent.2)
    | inr hlemma =>
      obtain ⟨earlier, spec, later, hkeeps, _, hline⟩ := hlemma
      exact h (Or.inr ⟨earlier, spec, later, hkeeps, hline⟩)

theorem get_of_nameAt {name : Text} (h : (render k).nameAt line = some name) :
    (render k).declarationLines.get name = some line := by
  unfold RenderedSketch.nameAt at h
  obtain ⟨p, hfind, hname⟩ := Option.map_eq_some_iff.mp h
  have hline : p.2 = line := by simpa using List.find?_some hfind
  rw [← hname, ← hline]
  exact Dict.get_of_mem render_keys (List.mem_of_find?_eq_some hfind)

theorem nameAt_keeps {earlier later : List SubgoalSpec} {spec : SubgoalSpec} (h : k.Keeps earlier spec later) :
    (render k).nameAt (k.countedLine earlier.length) = some spec.name := by
  cases hat : (render k).nameAt (k.countedLine earlier.length) with
  | none => exact absurd (Or.inr ⟨earlier, spec, later, h, rfl⟩) (nameAt_eq_none.mp hat)
  | some name =>
    have hk := h.1
    cases recorded_iff.mp (get_of_nameAt hat) with
    | inl hparent =>
      have hlength := countedLine_inj hparent.2
      rw [hk, List.length_append, List.length_cons] at hlength
      omega
    | inr hlemma =>
      obtain ⟨above, s, below, hkeeps, hname, hline⟩ := hlemma
      have hlength := countedLine_inj hline
      have hsplit := hk.symm.trans hkeeps.1
      obtain ⟨_, htail⟩ := List.append_inj hsplit hlength
      rw [← hname, (List.cons.inj htail).1]

theorem sorryHere_digits {t digits rest : Text} (h : sorryHere t = some (digits, rest)) :
    digits ≠ [] ∧ ∀ c ∈ digits, isDecimal c = true := by
  unfold sorryHere at h
  split at h
  · next t =>
    split at h
    · split at h
      · split at h
        · next hfound =>
          rw [← (Prod.mk.inj (Option.some.inj h)).1]
          exact ⟨hfound.1, fun c hc => List.mem_takeWhile_imp hc⟩
        · cases h
      · cases h
    · cases h
  · cases h

theorem sorryHere_progress : PyText.Progress sorryHere := by
  intro c t digits rest h
  unfold sorryHere at h
  split at h
  · next u heq =>
    obtain rfl := (List.cons.inj heq).2
    split at h
    · next v hv =>
      split at h
      · next w hw =>
        split at h
        · rw [← (Prod.mk.inj (Option.some.inj h)).2]
          have hline : ':' :: v <:+ t := hv ▸ List.dropWhile_suffix _
          have hcolumn : ':' :: w <:+ v := hw ▸ List.dropWhile_suffix _
          have hinner := (List.drop_suffix sorryWarning.length (lstrip w)).trans (List.dropWhile_suffix isSpace)
          exact hinner.trans ((List.suffix_cons ':' w).trans (hcolumn.trans ((List.suffix_cons ':' v).trans hline)))
        · cases h
      · cases h
    · cases h
  · cases h

theorem warned_digits {output digits : Text} (h : digits ∈ finditer sorryHere output) :
    digits ≠ [] ∧ ∀ c ∈ digits, isDecimal c = true := by
  obtain ⟨t, rest, ht⟩ := mem_finditer h
  exact sorryHere_digits ht

def warning (digits : Text) : Text := ':' :: digits ++ ":0: ".toList ++ sorryWarning

theorem sorryHere_warning {digits : Text} (hne : digits ≠ []) (hdigits : ∀ c ∈ digits, isDecimal c = true) :
    sorryHere (warning digits) = some (digits, []) := by
  have hcolon : isDecimal ':' = false := by decide
  have hline : (digits ++ ":0: ".toList ++ sorryWarning).takeWhile isDecimal = digits := by
    rw [List.append_assoc, List.takeWhile_append_of_pos hdigits]
    simp [hcolon]
  have hrest : (digits ++ ":0: ".toList ++ sorryWarning).dropWhile isDecimal = ":0: ".toList ++ sorryWarning := by
    rw [List.append_assoc, List.dropWhile_append_of_pos hdigits]
    simp [hcolon]
  have hcolumn : ("0: ".toList ++ sorryWarning).dropWhile isDecimal = ": ".toList ++ sorryWarning := by decide
  calc
    sorryHere (warning digits) =
        if digits ≠ [] ∧ ("0: ".toList ++ sorryWarning).takeWhile isDecimal ≠ [] ∧
          sorryWarning.isPrefixOf (lstrip (" ".toList ++ sorryWarning)) then
          some (digits, (lstrip (" ".toList ++ sorryWarning)).drop sorryWarning.length) else none := by
      unfold warning sorryHere
      simp only [List.cons_append, hline, hrest]
      simp only [String.reduceToList, List.cons_append, List.nil_append] at hcolumn ⊢
      simp only [hcolumn]
    _ = some (digits, []) := by
      have hnothing : (lstrip (" ".toList ++ sorryWarning)).drop sorryWarning.length = [] := by decide
      rw [if_pos ⟨hne, by decide, by decide⟩, hnothing]

theorem finditer_warning {digits : Text} (hne : digits ≠ []) (hdigits : ∀ c ∈ digits, isDecimal c = true) :
    finditer sorryHere (warning digits) = [digits] := by
  have hmatch : sorryHere (':' :: (digits ++ ":0: ".toList ++ sorryWarning)) = some (digits, []) :=
    sorryHere_warning hne hdigits
  calc
    finditer sorryHere (warning digits) = digits :: finditer sorryHere [] := by
      refine (congrArg (finditer sorryHere) ?_).trans (finditer_match sorryHere_progress hmatch)
      rfl
    _ = [digits] := rfl

theorem sorryVerdict_ok {reprs : Finset Text → Text} {names : Finset Text} :
    (sorryVerdict reprs k names).ok = true ↔ k.parentName ∉ names ∧ names ⊆ k.expected := by
  unfold sorryVerdict
  rw [← Finset.sdiff_eq_empty_iff_subset]
  by_cases hparent : k.parentName ∈ names
  · simp [hparent]
  · by_cases hrest : names \ k.expected = ∅
    · simp [hparent, hrest]
    · simp [hparent, hrest]

theorem validate_ok {reprs : Finset Text → Text} {runner : LeanRunner} {goal : Goal} {v : Validation}
    (h : validate reprs runner goal k = .ok v) (hv : v.ok = true) :
    strip k.parentSignature = strip goal.statement ∧ ∃ output, runner (render k).text = .ok (0, output) ∧
      k.parentName ∉ (render k).withSorry output ∧ (render k).withSorry output ⊆ k.expected := by
  unfold validate at h
  split at h
  · rw [← Except.ok.inj h] at hv
    cases hv
  · next hsame =>
    dsimp only at h
    split at h
    · cases h
    · next returncode output hrun =>
      split at h
      · rw [← Except.ok.inj h] at hv
        cases hv
      · next hcode =>
        rw [not_not.mp hcode] at hrun
        rw [← Except.ok.inj h, sorryVerdict_ok] at hv
        exact ⟨not_not.mp hsame, output, hrun, hv⟩

theorem mem_withSorry {r : RenderedSketch} {output name : Text} : name ∈ r.withSorry output ↔
    ∃ digits ∈ finditer sorryHere output, (r.nameAt (intOf digits)).getD (placeholder digits) = name := by
  simp [RenderedSketch.withSorry]

theorem mem_expected {name : Text} : name ∈ k.expected ↔ ∃ spec ∈ k.subgoals, spec.name = name := by
  simp [Sketch.expected]

theorem Sketch.LinesHold.starts (h : k.LinesHold) {output digits : Text} (hdigits : digits ∈ finditer sorryHere output)
    (hparent : k.parentName ∉ (render k).withSorry output) (hexpected : (render k).withSorry output ⊆ k.expected) :
    k.StartsLemma (intOf digits) := by
  have hname : ((render k).nameAt (intOf digits)).getD (placeholder digits) ∈ (render k).withSorry output :=
    mem_withSorry.mpr ⟨digits, hdigits, rfl⟩
  cases hat : (render k).nameAt (intOf digits) with
  | some name =>
    rw [hat, Option.getD_some] at hname
    cases recorded_iff.mp (get_of_nameAt hat) with
    | inl hlast => exact absurd (hlast.1 ▸ hname) hparent
    | inr hlemma =>
      obtain ⟨earlier, spec, later, hkeeps, _, hline⟩ := hlemma
      obtain ⟨above, s, below, hk, hlines⟩ := h.aligned earlier spec later hkeeps
      refine startsLemma_iff.mpr ⟨above, s, below, hk, ?_⟩
      rw [hline]
      simp only [Sketch.countedLine]
      omega
  | none =>
    rw [hat, Option.getD_none] at hname
    obtain ⟨spec, hspec, hspecname⟩ := mem_expected.mp (hexpected hname)
    obtain ⟨hne, hdecimal⟩ := warned_digits hdigits
    have hnot : spec.name ≠ k.parentName := fun hp => hparent (hp ▸ hspecname ▸ hname)
    cases h.named spec hspec digits hspecname hne hdecimal hnot with
    | inl hcounted => exact absurd hcounted (nameAt_eq_none.mp hat)
    | inr hstarts => exact hstarts

theorem validate_reduces {reprs : Finset Text → Text} {runner : LeanRunner} {sorries : Text → List ℕ} {goal : Goal}
    {v : Validation} (hk : k.LinesHold) (hreports : Reports runner sorries)
    (h : validate reprs runner goal k = .ok v) (hv : v.ok = true) : k.Reduces goal runner sorries := by
  obtain ⟨hsame, output, hrun, hparent, hexpected⟩ := validate_ok h hv
  have hstarts : ∀ line ∈ sorries (render k).text, k.StartsLemma line := by
    intro line hline
    obtain ⟨digits, hdigits, rfl⟩ := List.mem_map.mp ((hreports _ _ hrun line).mpr hline)
    exact hk.starts hdigits hparent hexpected
  exact ⟨hsame, ⟨output, hrun⟩, fun line hline => (hstarts line hline).lt, hstarts⟩

/-- A Lean that warns of one line, with a lemma's name recorded for it, has the sketch accepted. -/
theorem validate_warning (reprs : Finset Text → Text) {digits : Text} (hne : digits ≠ [])
    (hdigits : ∀ c ∈ digits, isDecimal c = true) {spec : SubgoalSpec} (hspec : spec ∈ k.subgoals)
    (hparent : spec.name ≠ k.parentName)
    (hat : ((render k).nameAt (intOf digits)).getD (placeholder digits) = spec.name)
    (h : ∀ goal runner sorries v, Reports runner sorries → validate reprs runner goal k = .ok v → v.ok = true →
      k.Reduces goal runner sorries) : k.StartsLemma (intOf digits) := by
  let goal : Goal := { id := 0, identity := [], statement := k.parentSignature }
  let runner : LeanRunner := fun _ => .ok (0, warning digits)
  let sorries : Text → List ℕ := fun _ => [intOf digits]
  have hreports : Reports runner sorries := by
    intro text output hrun line
    rw [← (Prod.mk.inj (Except.ok.inj hrun)).2, warnedLines, finditer_warning hne hdigits]
    rfl
  have hwith : (render k).withSorry (warning digits) = {spec.name} := by
    rw [RenderedSketch.withSorry, finditer_warning hne hdigits, ← hat]
    rfl
  have hv : validate reprs runner goal k = .ok (sorryVerdict reprs k {spec.name}) := by
    rw [← hwith]
    unfold validate
    rw [if_neg (not_not.mpr rfl)]
    rfl
  have hok : (sorryVerdict reprs k {spec.name}).ok = true := by
    rw [sorryVerdict_ok, Finset.mem_singleton, Finset.singleton_subset_iff]
    exact ⟨hparent.symm, mem_expected.mpr ⟨spec, hspec, rfl⟩⟩
  exact (h goal runner sorries _ hreports hv hok).lemmas _ (List.mem_singleton.mpr rfl)

/-- Acceptance reduces the goal, whatever Lean finds, just for the sketches whose counted
lines are lines where lemmas begin. -/
theorem validation_sound_iff (reprs : Finset Text → Text) (k : Sketch) :
    (∀ goal runner sorries v, Reports runner sorries → validate reprs runner goal k = .ok v → v.ok = true →
      k.Reduces goal runner sorries) ↔ k.LinesHold := by
  constructor
  · intro h
    constructor
    · intro earlier spec later hkeeps
      have hmem : spec ∈ k.subgoals := by simp [hkeeps.1]
      have hat : ((render k).nameAt (intOf (Nat.toDigits 10 (k.countedLine earlier.length)))).getD
          (placeholder (Nat.toDigits 10 (k.countedLine earlier.length))) = spec.name := by
        rw [intOf_toDigits, nameAt_keeps hkeeps, Option.getD_some]
      have hstarts := validate_warning reprs Nat.toDigits_ne_nil (isDecimal_toDigits _) hmem hkeeps.2.2 hat h
      rw [intOf_toDigits] at hstarts
      obtain ⟨above, s, below, hk, hline⟩ := startsLemma_iff.mp hstarts
      refine ⟨above, s, below, hk, ?_⟩
      simp only [Sketch.countedLine] at hline
      omega
    · intro spec hspec digits hname hne hdigits hparent
      by_cases hcounted : k.Counted (intOf digits)
      · exact Or.inl hcounted
      · apply Or.inr
        apply validate_warning reprs hne hdigits hspec hparent _ h
        rw [nameAt_eq_none.mpr hcounted, Option.getD_none, hname]
  · intro hk goal runner sorries v hreports h hv
    exact validate_reduces hk hreports h hv

/-- Two lemmas: the first has a second theorem in its signature, the second is a comment. -/
def hiddenSketch : Sketch where
  parentName := "goal".toList
  parentSignature := "theorem goal : False".toList
  parentBody := "hidden 0".toList
  subgoals :=
    [⟨"a".toList, [], ("theorem a : ∀ _ : Nat, True | _ => trivial\n\n" ++
        "theorem hidden : ∀ _ : Nat, False | _ => sorry\n--").toList⟩,
      ⟨"b".toList, [], "-- b".toList⟩]

def hiddenFile : Text :=
  ("theorem a : ∀ _ : Nat, True | _ => trivial\n\ntheorem hidden : ∀ _ : Nat, False | _ => sorry\n" ++
    "-- := sorry\n\n-- b := sorry\n\ntheorem goal : False := hidden 0\n").toList

/-- What Lean says of the file: one declaration has `sorry`, and it starts on line 3. -/
def hiddenRunner : LeanRunner := fun text =>
  if text = hiddenFile then .ok (0, "/tmp/sketch.lean:3:8: warning: declaration uses `sorry`\n".toList)
  else .error "lean exceeded 120s".toList

def hiddenSorries (text : Text) : List ℕ := if text = hiddenFile then [3] else []

def hiddenGoal : Goal :=
  { id := 0, identity := "theorem goal : False".toList, statement := "theorem goal : False".toList }

theorem hidden_reported : Reports hiddenRunner hiddenSorries := by
  intro text output hrun line
  unfold hiddenRunner at hrun
  split at hrun
  · next htext =>
    have hwarned : warnedLines output = [3] := by
      rw [← (Prod.mk.inj (Except.ok.inj hrun)).2]
      decide
    rw [hwarned, hiddenSorries, if_pos htext]
  · cases hrun

/-- `False` is accepted as reduced to `a` and `b`; its one `sorry` belongs to neither. -/
theorem hidden_accepted : ¬ ∀ (reprs : Finset Text → Text) (k : Sketch) (goal : Goal) (runner : LeanRunner)
    (sorries : Text → List ℕ) (v : Validation), Reports runner sorries → validate reprs runner goal k = .ok v →
      v.ok = true → k.Reduces goal runner sorries := by
  intro h
  have hvalid : validate (sortedNames ", ".toList) hiddenRunner hiddenGoal hiddenSketch =
      .ok { ok := true, reason := "2 lemmas, parent closed".toList } := by decide +kernel
  have hreduces := h _ _ _ _ _ _ hidden_reported hvalid rfl
  have hline : 3 ∈ hiddenSorries (render hiddenSketch).text := by decide +kernel
  obtain ⟨above, s, below, hk, hstart⟩ := startsLemma_iff.mp (hreduces.lemmas 3 hline)
  cases above with
  | nil => exact absurd hstart (by decide)
  | cons p above =>
    obtain ⟨hp, htail⟩ := List.cons.inj hk
    cases above with
    | nil =>
      rw [← hp] at hstart
      exact absurd hstart (by decide)
    | cons q above =>
      have hlength := congrArg List.length (List.cons.inj htail).2
      simp at hlength

theorem placeholder_unusable (digits : Text) : usableName (placeholder digits) = false := rfl

theorem keeps_of_nodup (hnames : k.names.Nodup) {earlier later : List SubgoalSpec} {spec : SubgoalSpec}
    (h : k.subgoals = earlier ++ spec :: later) : k.Keeps earlier spec later := by
  rw [Sketch.names, h, List.map_append, List.map_cons, List.append_assoc, List.cons_append] at hnames
  have hnotMem := (List.nodup_cons.mp (List.nodup_append.mp hnames).2.1).1
  rw [List.mem_append, not_or] at hnotMem
  exact ⟨h, hnotMem.1, fun hp => hnotMem.2 (List.mem_singleton.mpr hp)⟩

theorem linesHold_iff_of_names (hnames : k.names.Nodup) (husable : ∀ spec ∈ k.subgoals, usableName spec.name = true) :
    k.LinesHold ↔ ∀ earlier spec later, k.subgoals = earlier ++ spec :: later →
      innerBreaks (earlier.map (·.signature)) = 0 := by
  constructor
  · intro h earlier
    induction hn : earlier.length using Nat.strong_induction_on generalizing earlier with
    | _ n ih =>
      intro spec later hk
      obtain ⟨above, s, below, habove, hlines⟩ := h.aligned earlier spec later (keeps_of_nodup hnames hk)
      by_cases hshort : above.length < n
      · -- a lemma higher up stands where it is counted, so it is not the one found here
        have hzero := ih above.length hshort above rfl s below habove
        omega
      · have hlength : above.length = earlier.length := by omega
        obtain ⟨hsame, _⟩ := List.append_inj (habove.symm.trans hk) hlength
        rw [hsame] at hlines
        omega
  · intro h
    constructor
    · intro earlier spec later hkeeps
      exact ⟨earlier, spec, later, hkeeps.1, by rw [h earlier spec later hkeeps.1]; rfl⟩
    · intro spec hspec digits hname
      have husable := husable spec hspec
      rw [hname, placeholder_unusable] at husable
      cases husable

/-- Where Lean warns of the last lemma too, nothing accepted has drifted: the last lemma
would be below every line counted for a lemma. -/
theorem validate_reduces_of_last {reprs : Finset Text → Text} {runner : LeanRunner} {sorries : Text → List ℕ}
    {goal : Goal} {v : Validation} {earlier : List SubgoalSpec} {spec : SubgoalSpec} (hnames : k.names.Nodup)
    (husable : ∀ spec ∈ k.subgoals, usableName spec.name = true) (hk : k.subgoals = earlier ++ [spec])
    (hlast : lineNumber (k.before true (earlier.map (·.block []))) ∈ sorries (render k).text)
    (hreports : Reports runner sorries) (h : validate reprs runner goal k = .ok v) (hv : v.ok = true) :
    k.Reduces goal runner sorries := by
  have hzero : innerBreaks (earlier.map (·.signature)) = 0 := by
    obtain ⟨_, output, hrun, hparent, hexpected⟩ := validate_ok h hv
    obtain ⟨digits, hdigits, hline⟩ := List.mem_map.mp ((hreports _ _ hrun _).mpr hlast)
    have hname : ((render k).nameAt (intOf digits)).getD (placeholder digits) ∈ (render k).withSorry output :=
      mem_withSorry.mpr ⟨digits, hdigits, rfl⟩
    cases hat : (render k).nameAt (intOf digits) with
    | some name =>
      rw [hat, Option.getD_some] at hname
      cases recorded_iff.mp (get_of_nameAt hat) with
      | inl hlast => exact absurd (hlast.1 ▸ hname) hparent
      | inr hlemma =>
        obtain ⟨above, s, below, hkeeps, _, hcounted⟩ := hlemma
        have hlength := congrArg List.length (hk.symm.trans hkeeps.1)
        rw [hline, lineNumber_plain] at hcounted
        simp only [Sketch.countedLine, List.length_append, List.length_cons, List.length_nil] at hcounted hlength
        omega
    | none =>
      rw [hat, Option.getD_none] at hname
      obtain ⟨s, hs, hsname⟩ := mem_expected.mp (hexpected hname)
      have husable := husable s hs
      rw [hsname, placeholder_unusable] at husable
      cases husable
  apply validate_reduces _ hreports h hv
  apply (linesHold_iff_of_names hnames husable).mpr
  intro above s below habove
  have hlength := congrArg List.length (habove.symm.trans hk)
  simp only [List.length_append, List.length_cons, List.length_nil] at hlength
  have hprefix : above <+: earlier :=
    List.prefix_of_prefix_length_le ⟨_, habove.symm⟩ ⟨_, hk.symm⟩ (by omega)
  obtain ⟨more, hmore⟩ := hprefix
  rw [← hmore, List.map_append, innerBreaks_append] at hzero
  omega

end

end EvoHarness.Proof
