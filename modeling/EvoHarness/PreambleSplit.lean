import EvoHarness.Envelope
import EvoHarness.Library.Splitlines

/-! The preamble read twice: by Lean, whose comments may stand anywhere among the imports,
and line by line, by the split. -/
namespace EvoHarness.Proof.Envelope
open PyText LeanComments

def Silent (s : Text) : Prop := isBlank (uncomment s) = true ∧ (scan fresh s []).2 = fresh

def IsImport (i : Text) : Prop := ∃ gap name, i = "import".toList ++ (gap ++ name) ∧
  gap ≠ [] ∧ Silent gap ∧ name ≠ [] ∧ NoSpace name ∧ uncomment name = name

inductive Header : Text → Prop
  | start {s : Text} (hs : Silent s) : Header s
  | next {before i s : Text} (hbefore : Header before) (hi : IsImport i) (hs : Silent s) (hne : s ≠ []) :
      Header (before ++ i ++ s)

def Declares (t before rest : Text) : Prop :=
  t = before ++ rest ∧ Header before ∧ ∃ i behind, rest = i ++ behind ∧ IsImport i

def EndsIn (t : Text) : Prop := (split (uncomment t)).getLast? = some "in".toList

def ownLine (before rest : Text) : Text := ownStart before ++ firstLine rest

def LiesIn (c : PreambleContext) (before rest : Text) : Prop :=
  ∃ raw ∈ c.ctx.getD [], strip (join ['\n'] (splitlines (ownStart before ++ rest))) <:+ raw

/-- A preamble that ends with `in` is refused. Of any other, each import it declares is in
`imports`, and the context holds none. -/
structure Separates (preamble : Text) : Prop where
  refused : EndsIn (strip preamble) → ∃ fault, preambleContext preamble = .error fault
  imports : ¬ EndsIn (strip preamble) → ∃ c, preambleContext preamble = .ok c ∧
    ∀ before rest, Declares (strip preamble) before rest →
      strip (ownLine before rest) ∈ c.imports ∧ ¬ LiesIn c before rest

/-- Some line is no header line, and the last that is neither blank nor begins with `--` ends
in the word `in`. -/
def Refused (t : Text) : Prop :=
  danglingIn (lastCommand t) = true ∧ ∃ line ∈ splitlines t, isHeaderLine line = false

def LineByLine (t : Text) : Prop := ∀ before rest, Declares t before rest →
  (∀ line ∈ splitlines (linesBefore before), isHeaderLine line = true) ∧
    "import ".toList <+: strip (ownLine before rest)

variable {t before rest x y : Text} {lines : List Text}

theorem Declares.prefix_import (h : Declares t before rest) : "import".toList <+: rest := by
  obtain ⟨_, _, i, behind, hrest, gap, name, hi, _⟩ := h
  rw [hrest, hi, List.append_assoc]
  exact List.prefix_append _ _

theorem firstLine_import (h : "import".toList <+: rest) : "import".toList <+: firstLine rest := by
  obtain ⟨behind, rfl⟩ := h
  refine ⟨firstLine behind, ?_⟩
  rw [firstLine, firstLine, List.takeWhile_append_of_pos]
  have hword : "import".toList.all (!isLineBreak ·) = true := by decide
  exact fun c hc => List.all_eq_true.mp hword c hc

theorem splitlines_place (h : Declares t before rest) :
    splitlines t = splitlines (linesBefore before) ++ splitlines (ownStart before ++ rest) ∧
      splitlines (ownStart before ++ rest) = ownLine before rest :: splitlines (nextLines (ownStart before ++ rest)) := by
  obtain ⟨behind, hbehind⟩ := h.prefix_import
  have hne : ownStart before ++ rest ≠ [] := by
    rw [← hbehind]
    simp
  constructor
  · have hhead : (ownStart before ++ rest).head? ≠ some '\n' := by
      intro hnewline
      cases hown : ownStart before with
      | nil =>
        rw [hown, ← hbehind] at hnewline
        exact absurd hnewline (by simp)
      | cons c own =>
        rw [hown] at hnewline
        have hc : c = '\n' := by simpa using hnewline
        have hbreak := unbroken_ownStart before c (by simp [hown])
        rw [hc] at hbreak
        exact absurd hbreak (by decide)
    rw [h.1, ← splitlines_endsLine (endsLine_linesBefore before) fun hboth => hhead hboth.2, ← List.append_assoc, linesBefore_append]
  · rw [splitlines_step hne]
    congr 1
    rw [firstLine, List.takeWhile_append_of_pos fun c hc => by simp [unbroken_ownStart before c hc]]
    rfl

theorem strip_ownLine_ne_nil (h : Declares t before rest) : strip (ownLine before rest) ≠ [] := by
  obtain ⟨behind, hbehind⟩ := firstLine_import h.prefix_import
  intro hnil
  have hblank := isBlank_iff.mp (strip_eq_nil.mp hnil) 'i' (by simp [ownLine, ← hbehind])
  exact absurd hblank (by decide)

theorem lastCommand_eq (t : Text) :
    lastCommand t = ((inkLines t).reverse.find? fun line => !"--".toList.isPrefixOf line).getD [] := by
  rw [lastCommand, inkLines, ← List.filter_reverse, List.find?_filter, List.map_reverse]
  congr 2
  funext line
  cases line with
  | nil => rfl
  | cons c line => simp [bne]

def restOf (t : Text) : Text := strip (join ['\n'] ((splitlines t).dropWhile isHeaderLine))

theorem unbroken_dropWhile (t : Text) :
    ∀ line ∈ (splitlines t).dropWhile isHeaderLine, ∀ c ∈ line, isLineBreak c = false :=
  fun line hline => unbroken_of_mem_splitlines line ((List.dropWhile_suffix _).subset hline)

theorem command_of_not_header {line : Text} (h : isHeaderLine line = false) :
    strip line ≠ [] ∧ "--".toList.isPrefixOf (strip line) = false := by
  simp only [isHeaderLine, Bool.or_eq_false_iff] at h
  exact ⟨by simpa using h.1.2, h.2⟩

theorem lastCommand_restOf (h : ∃ line ∈ splitlines t, isHeaderLine line = false) :
    lastCommand (restOf t) = lastCommand t := by
  rw [lastCommand_eq, restOf, inkLines_strip, inkLines_join (unbroken_dropWhile t), lastCommand_eq, inkLines]
  cases hdrop : (splitlines t).dropWhile isHeaderLine with
  | nil =>
    obtain ⟨line, hline, hheader⟩ := h
    have hall := List.dropWhile_eq_nil_iff.mp hdrop line hline
    rw [hheader] at hall
    cases hall
  | cons first behind =>
    have hfirst : isHeaderLine first = false := by
      have hfails := List.head?_dropWhile_not isHeaderLine (splitlines t)
      rw [hdrop] at hfails
      simpa using hfails
    have hcommand := command_of_not_header hfirst
    have hsplit := List.takeWhile_append_dropWhile (p := isHeaderLine) (l := splitlines t)
    rw [hdrop] at hsplit
    have hfound : ((((first :: behind).map strip).filter (· ≠ [])).reverse.find?
        fun line => !"--".toList.isPrefixOf line).isSome = true := by
      rw [List.find?_isSome]
      refine ⟨strip first, ?_, by rw [hcommand.2]; rfl⟩
      rw [List.mem_reverse, List.mem_filter]
      exact ⟨by simp, by simpa using hcommand.1⟩
    rw [← hsplit, List.map_append, List.filter_append, List.reverse_append, List.find?_append]
    obtain ⟨line, hline⟩ := Option.isSome_iff_exists.mp hfound
    rw [hline]
    rfl

theorem danglingIn_restOf (t : Text) : danglingIn (lastCommand (restOf t)) = true ↔ Refused t := by
  by_cases h : ∃ line ∈ splitlines t, isHeaderLine line = false
  · rw [lastCommand_restOf h]
    exact ⟨fun hdangling => ⟨hdangling, h⟩, fun hrefused => hrefused.1⟩
  · have hall : ∀ line ∈ splitlines t, isHeaderLine line = true := by simpa using h
    have hnil : restOf t = [] := by
      rw [restOf, List.dropWhile_eq_nil_iff.mpr hall]
      rfl
    rw [hnil]
    exact ⟨fun hdangling => absurd hdangling (by decide), fun hrefused => absurd hrefused.2 h⟩

theorem error_iff (preamble : Text) :
    (∃ fault, preambleContext preamble = .error fault) ↔ Refused (strip preamble) := by
  rw [← danglingIn_restOf, preambleContext]
  change (∃ fault, (if danglingIn (lastCommand (restOf (strip preamble))) = true then _ else _) = _) ↔ _
  split
  · rename_i hdangling
    exact ⟨fun _ => hdangling, fun _ => ⟨_, rfl⟩⟩
  · rename_i hdangling
    exact ⟨fun herror => absurd herror (by simp), fun h => absurd h hdangling⟩

theorem ok_of_not_refused {preamble : Text} (h : ¬ Refused (strip preamble)) : preambleContext preamble = .ok
    { imports := (((splitlines (strip preamble)).takeWhile isHeaderLine).map strip).filter ("import ".toList.isPrefixOf ·)
      ctx := if restOf (strip preamble) = [] then none else some [restOf (strip preamble)] } :=
  if_neg fun hdangling => h ((danglingIn_restOf _).mp hdangling)

theorem strip_suffix (h : isBlank y = false) : strip y <:+ strip (x ++ y) := by
  have hleft : isBlank (lstrip y) = false := by
    rw [← Bool.not_eq_true, ← ink_eq_nil, ink_lstrip, ink_eq_nil, h]
    decide
  cases hx : isBlank x with
  | true => rw [strip_blank_append hx]
  | false =>
    obtain ⟨g, _, hy⟩ := exists_lstrip y
    rw [strip, strip, lstrip_append hx, hy, ← List.append_assoc, rstrip_append_ink hleft,
      lstrip_append_of_blank (by assumption), show lstrip (lstrip y) = lstrip y from ?_]
    · exact List.suffix_append _ _
    · exact lstrip_of_head fun c hc => head_lstrip hc

theorem length_ink_suffix {u v : Text} (h : u <:+ v) : (ink u).length ≤ (ink v).length := by
  obtain ⟨front, rfl⟩ := h
  rw [ink_append, List.length_append]
  omega

theorem isHeaderLine_of_import {line : Text} (h : "import ".toList <+: strip line) : isHeaderLine line = true := by
  rw [isHeaderLine, List.isPrefixOf_iff_prefix.mpr h]
  rfl

def importsOf (t : Text) : List Text :=
  (((splitlines t).takeWhile isHeaderLine).map strip).filter ("import ".toList.isPrefixOf ·)

def OnFrom (t before rest : Text) : Prop :=
  strip (join ['\n'] (splitlines (ownStart before ++ rest))) <:+ restOf t

theorem isBlank_ownLine (h : Declares t before rest) (lines : List Text) :
    isBlank (join ['\n'] (ownLine before rest :: lines)) = false := by
  have hink : ink (ownLine before rest) ≠ [] := by
    intro hnil
    exact strip_ownLine_ne_nil h (strip_eq_nil.mpr (ink_eq_nil.mp hnil))
  rw [← Bool.not_eq_true, ← ink_eq_nil, ink_join, List.flatMap_cons]
  intro hnil
  exact hink (List.append_eq_nil_iff.mp hnil).1

theorem onFrom_of_not_header (h : Declares t before rest)
    (hline : ∃ line ∈ splitlines (linesBefore before), isHeaderLine line = false) : OnFrom t before rest := by
  obtain ⟨hlines, hown⟩ := splitlines_place h
  have hdrop : (splitlines t).dropWhile isHeaderLine =
      (splitlines (linesBefore before)).dropWhile isHeaderLine ++ splitlines (ownStart before ++ rest) := by
    rw [hlines, List.dropWhile_append]
    split
    · rename_i hempty
      obtain ⟨line, hmem, hheader⟩ := hline
      have hall := List.dropWhile_eq_nil_iff.mp (List.isEmpty_iff.mp hempty) line hmem
      rw [hheader] at hall
      cases hall
    · rfl
  have hne : (splitlines (linesBefore before)).dropWhile isHeaderLine ≠ [] := by
    intro hnil
    obtain ⟨line, hmem, hheader⟩ := hline
    have hall := List.dropWhile_eq_nil_iff.mp hnil line hmem
    rw [hheader] at hall
    cases hall
  have hink : isBlank (join ['\n'] (splitlines (ownStart before ++ rest))) = false := by
    rw [hown]
    exact isBlank_ownLine h _
  have hsuffix := strip_suffix
    (x := join ['\n'] ((splitlines (linesBefore before)).dropWhile isHeaderLine) ++ ['\n']) hink
  rw [List.append_assoc, List.singleton_append] at hsuffix
  rw [OnFrom, restOf, hdrop, join_append_lines hne (by rw [hown]; simp)]
  exact hsuffix

theorem not_onFrom (h : Declares t before rest)
    (hheader : ∀ line ∈ splitlines (linesBefore before), isHeaderLine line = true)
    (himport : "import ".toList <+: strip (ownLine before rest)) : ¬ OnFrom t before rest := by
  obtain ⟨hlines, hown⟩ := splitlines_place h
  have hdrop : (splitlines t).dropWhile isHeaderLine =
      (splitlines (nextLines (ownStart before ++ rest))).dropWhile isHeaderLine := by
    rw [hlines, List.dropWhile_append_of_pos hheader, hown,
      List.dropWhile_cons_of_pos (isHeaderLine_of_import himport)]
  intro hfrom
  have hlength := length_ink_suffix hfrom
  rw [restOf, hdrop, hown, ink_strip, ink_strip, ink_join, ink_join, List.flatMap_cons, List.length_append] at hlength
  have hbehind : (((splitlines (nextLines (ownStart before ++ rest))).dropWhile isHeaderLine).flatMap ink).length ≤
      ((splitlines (nextLines (ownStart before ++ rest))).flatMap ink).length := by
    rw [List.length_flatMap, List.length_flatMap]
    exact ((List.dropWhile_sublist _).map _).sum_le_sum fun _ _ => Nat.zero_le _
  have hink : (ink (ownLine before rest)).length ≠ 0 := by
    intro hzero
    exact strip_ownLine_ne_nil h (strip_eq_nil.mpr (ink_eq_nil.mp (List.length_eq_zero_iff.mp hzero)))
  omega

theorem separated_iff (h : Declares t before rest) :
    strip (ownLine before rest) ∈ importsOf t ∧ ¬ OnFrom t before rest ↔
      (∀ line ∈ splitlines (linesBefore before), isHeaderLine line = true) ∧
        "import ".toList <+: strip (ownLine before rest) := by
  obtain ⟨hlines, hown⟩ := splitlines_place h
  constructor
  · intro hseparated
    have himport := (List.mem_filter.mp hseparated.1).2
    refine ⟨?_, List.isPrefixOf_iff_prefix.mp himport⟩
    intro line hline
    by_contra hheader
    exact hseparated.2 (onFrom_of_not_header h ⟨line, hline, by simpa using hheader⟩)
  · intro hplace
    refine ⟨?_, not_onFrom h hplace.1 hplace.2⟩
    rw [importsOf, List.mem_filter]
    refine ⟨?_, List.isPrefixOf_iff_prefix.mpr hplace.2⟩
    rw [hlines, List.takeWhile_append_of_pos hplace.1, hown,
      List.takeWhile_cons_of_pos (isHeaderLine_of_import hplace.2)]
    simp

theorem liesIn_iff {c : PreambleContext} (h : Declares t before rest)
    (hctx : c.ctx = if restOf t = [] then none else some [restOf t]) : LiesIn c before rest ↔ OnFrom t before rest := by
  rw [LiesIn, OnFrom, hctx]
  split
  · rename_i hnil
    have hink : strip (join ['\n'] (splitlines (ownStart before ++ rest))) ≠ [] := by
      rw [Ne, strip_eq_nil, (splitlines_place h).2, isBlank_ownLine h]
      decide
    rw [hnil, List.suffix_nil]
    exact ⟨fun hraw => absurd hraw.choose_spec.1 (by simp), fun hsuffix => absurd hsuffix hink⟩
  · simp

/-- The split separates every import of the preambles whose lines read as Lean reads them,
and of no others. -/
theorem separates_iff (preamble : Text) : Separates preamble ↔
    EndsIn (strip preamble) ∧ Refused (strip preamble) ∨
      ¬ EndsIn (strip preamble) ∧ ¬ Refused (strip preamble) ∧ LineByLine (strip preamble) := by
  by_cases hends : EndsIn (strip preamble)
  · have hiff : Separates preamble ↔ Refused (strip preamble) := by
      rw [← error_iff]
      exact ⟨fun h => h.refused hends, fun h => ⟨fun _ => h, fun hnot => absurd hends hnot⟩⟩
    simp [hiff, hends]
  · have hiff : Separates preamble ↔ ¬ Refused (strip preamble) ∧ LineByLine (strip preamble) := by
      constructor
      · intro h
        obtain ⟨c, hc, himports⟩ := h.imports hends
        have hnot : ¬ Refused (strip preamble) := by
          intro hrefused
          obtain ⟨fault, hfault⟩ := (error_iff preamble).mpr hrefused
          rw [hc] at hfault
          cases hfault
        refine ⟨hnot, ?_⟩
        rw [ok_of_not_refused hnot] at hc
        injection hc with hc
        intro before rest hplace
        obtain ⟨hmem, hlies⟩ := himports before rest hplace
        rw [liesIn_iff hplace (by rw [← hc])] at hlies
        rw [← hc] at hmem
        exact (separated_iff hplace).mp ⟨hmem, hlies⟩
      · intro h
        refine ⟨fun hin => absurd hin hends, fun _ => ⟨_, ok_of_not_refused h.1, ?_⟩⟩
        intro before rest hplace
        rw [liesIn_iff hplace rfl]
        exact (separated_iff hplace).mpr (h.2 before rest hplace)
    rw [hiff]
    simp [hends]

def licensed : Text := "/- licence -/\nimport A".toList

theorem declares_licensed : Declares licensed "/- licence -/\n".toList "import A".toList := by
  refine ⟨by decide, Header.start ⟨by decide, by decide⟩, "import A".toList, [], by decide, ?_⟩
  exact ⟨[' '], ['A'], by decide, by decide, ⟨by decide, by decide⟩, by decide, by decide, by decide⟩

theorem licence_hides_import : ¬ Separates licensed := by
  intro h
  have hstrip : strip licensed = licensed := by decide
  have hends : ¬ EndsIn (strip licensed) := by
    rw [hstrip, EndsIn]
    decide
  obtain ⟨c, hc, himports⟩ := h.imports hends
  rw [hstrip] at himports
  have hnone : (preambleContext licensed).toOption.map PreambleContext.imports = some [] := by decide
  rw [hc] at hnone
  have hmem := (himports _ _ declares_licensed).1
  rw [Option.some.inj hnone] at hmem
  cases hmem

end EvoHarness.Proof.Envelope
