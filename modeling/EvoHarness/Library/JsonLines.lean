import EvoHarness.Library.JsonAscii
import EvoHarness.Library.Lines

/-! Files of one ASCII JSON object a line. -/
namespace EvoHarness.JsonLines
open PyText Json

def line (x : Value) : Text := dumpsAscii x ++ ['\n']

def file (xs : List Value) : Text := xs.flatMap line

def readLines {α : Type} (read : Value → Option α) : List Text → Option (List α)
  | [] => some []
  | l :: ls => if strip l = [] then readLines read ls else do return (← (loads l).bind read) :: (← readLines read ls)

def readFile {α : Type} (read : Value → Option α) (t : Text) : Option (List α) :=
  readLines read (splitlines (universalNewlines t))

theorem file_append (xs ys : List Value) : file (xs ++ ys) = file xs ++ file ys := List.flatMap_append

theorem strip_brace (t : Text) : strip ('\x7b' :: t) ≠ [] := by
  have hspace : isSpace '\x7b' = false := by decide
  have hleft : lstrip ('\x7b' :: t) = '\x7b' :: t := by simp [lstrip, hspace]
  rw [strip, rstrip, hleft]
  intro h
  have hall := List.dropWhile_eq_nil_iff.mp (List.reverse_eq_nil_iff.mp h)
  exact absurd (hall '\x7b' (by simp)) (by simp [hspace])

theorem unbroken_dumpsAscii (x : Value) : ∀ c ∈ dumpsAscii x, isLineBreak c = false := by
  intro c hc
  have hvisible := dumpsAscii_visible x c hc
  simp only [isLineBreak, Bool.or_eq_false_iff, Bool.and_eq_false_iff, decide_eq_false_iff_not, beq_eq_false_iff_ne]
  omega

theorem no_return_file (xs : List Value) : '\r' ∉ file xs := by
  intro h
  obtain ⟨x, -, hx⟩ := List.mem_flatMap.mp h
  rcases List.mem_append.mp hx with hx | hx
  · exact absurd (unbroken_dumpsAscii x '\r' hx) (by decide)
  · exact absurd (List.mem_singleton.mp hx) (by decide)

theorem splitlines_file (xs : List Value) : splitlines (file xs) = xs.map dumpsAscii := by
  induction xs with
  | nil => rfl
  | cons x xs ih =>
    have hline : file (x :: xs) = dumpsAscii x ++ '\n' :: file xs := by
      rw [file, List.flatMap_cons, line, List.append_assoc]
      rfl
    rw [hline, splitlines_append _ (unbroken_dumpsAscii x) (by decide) (by decide), ih, List.map_cons]

variable {α : Type} {read : Value → Option α}

theorem readFile_file {xs : List Value} (h : ∀ x ∈ xs, Distinct x ∧ IsObject x) : readFile read (file xs) = xs.mapM read := by
  rw [readFile, universalNewlines_of_no_return (no_return_file xs), splitlines_file]
  induction xs with
  | nil => rfl
  | cons x xs ih =>
    obtain ⟨hdistinct, hobject⟩ := h x List.mem_cons_self
    obtain ⟨v, hv⟩ := dumpsAscii_head hobject
    have hstrip : strip (dumpsAscii x) ≠ [] := hv ▸ strip_brace v
    rw [List.map_cons, readLines, if_neg hstrip, loads_dumpsAscii hdistinct hobject,
      ih fun y hy => h y (List.mem_cons_of_mem _ hy), List.mapM_cons]
    rfl

end EvoHarness.JsonLines
