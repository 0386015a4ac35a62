import EvoHarness.Library.LeanComments
import EvoHarness.Library.Spacing

/-! The names that a Lean text declares, as its code gives them: what stands in comments and strings is passed
over. Namespaces are not followed. -/
namespace EvoHarness.LeanDeclarations
open PyText LeanComments

inductive Mark where
  | word (c : Char)
  | sign (c : Char)
  | blank
  deriving DecidableEq

/-- What a character is to a reader of words. A string or a character literal begins with a sign. -/
def mark (m : Mode) (c : Char) (rest : Text) : Mark :=
  match m with
  | .code _ =>
    if isSpace c || !(step m c rest).1 then .blank
    else if c = '.' || (step m c rest).2 = .code true || (step m c rest).2 = .quoted then .word c
    else .sign c
  | .quoted => .word c
  | _ => .blank

/-- The marks of `t` read from a mode, when `after` follows it. -/
def marks : Mode → Text → Text → List Mark
  | _, [], _ => []
  | m, c :: t, after => mark m c (t ++ after) :: marks (step m c (t ++ after)).2 t after

def flush (w : Text) : List Text := if w = [] then [] else [w]

def group : Text → List Mark → List Text
  | w, [] => flush w
  | w, .word c :: ms => group (w ++ [c]) ms
  | w, .sign c :: ms => flush w ++ [c] :: group [] ms
  | w, .blank :: ms => flush w ++ group [] ms

def tokens (t : Text) : List Text := group [] (marks fresh t [])

def declaring : List Text :=
  ["theorem".toList, "lemma".toList, "def".toList, "abbrev".toList, "axiom".toList, "opaque".toList,
    "inductive".toList, "structure".toList, "class".toList]

def isName (w : Text) : Bool :=
  w ∉ declaring && (w.head?.any fun c => c.isAlpha || c = '_' || c = '«' || isLetterLike c)

/-- `foo` of `foo.{u}`. -/
def nameOf (w : Text) : Text := w.rdropWhile (· == '.')

def namesAfter : List Text → List Text
  | [] => []
  | [_] => []
  | k :: w :: ws => (if k ∈ declaring ∧ isName w = true then [nameOf w] else []) ++ namesAfter (w :: ws)

def declaredIn (t : Text) : List Text := namesAfter (tokens t)

/-- The text ends outside of comments and strings, and not where a name has still to come. -/
structure Complete (t : Text) : Prop where
  closed : (scan fresh t []).2.closed = true
  named : ∀ w ∈ (tokens t).getLast?, w ∉ declaring

def isComplete (t : Text) : Bool := (scan fresh t []).2.closed && (tokens t).getLast?.all (· ∉ declaring)

theorem isComplete_iff {t : Text} : isComplete t = true ↔ Complete t := by
  rw [isComplete, Bool.and_eq_true, Option.all_eq_true]
  simp only [decide_eq_true_eq]
  exact ⟨fun h => ⟨h.1, h.2⟩, fun h => ⟨h.closed, h.named⟩⟩

instance (t : Text) : Decidable (Complete t) := decidable_of_iff (isComplete t = true) isComplete_iff

variable {m : Mode} {t u v after : Text} {a b : List Text}

theorem marks_append (m : Mode) (t u after : Text) :
    marks m (t ++ u) after = marks m t (u ++ after) ++ marks (scan m t (u ++ after)).2 u after := by
  induction t generalizing m with
  | nil => rfl
  | cons c t ih =>
    rw [List.cons_append, marks, marks, scan_cons, List.append_assoc, ih]
    rfl

theorem marks_quiet (h : Quiet after) (hdash : after.head? ≠ some '-') (m : Mode) (t : Text) :
    marks m t after = marks m t [] := by
  induction t generalizing m with
  | nil => rfl
  | cons c t ih =>
    have hstep : step m c (t ++ after) = step m c t := step_quiet h fun _ => hdash
    have hmark : mark m c (t ++ after) = mark m c t := by
      unfold mark
      rw [hstep]
    rw [marks, marks, List.append_nil, hstep, hmark, ih]

theorem group_blank (w : Text) (as bs : List Mark) : group w (as ++ .blank :: bs) = group w as ++ group [] bs := by
  induction as generalizing w with
  | nil => rfl
  | cons a as ih =>
    cases a with
    | word c => exact ih (w ++ [c])
    | sign c => rw [List.cons_append, group, group, ih, List.append_assoc, List.cons_append]
    | blank => rw [List.cons_append, group, group, ih, List.append_assoc]

theorem quiet_newline (h : v.head? ≠ some '\'') : Quiet ('\n' :: v) where
  head c hc := by
    obtain rfl := Option.some.inj hc
    decide
  second := by simpa [List.head?_eq_getElem?] using h

theorem marks_newline (h : m.closed = true) (v : Text) : marks m ('\n' :: v) [] = .blank :: marks fresh v [] := by
  have hmark : mark m '\n' v = .blank := by
    cases m with
    | code inWord => rfl
    | line => rfl
    | _ => cases h
  rw [marks, List.append_nil, step_newline h, hmark]

theorem tokens_newline (v : Text) : tokens ('\n' :: v) = tokens v := by
  unfold tokens
  rw [marks_newline rfl]
  rfl

/-- What stands behind a complete text on a line of its own is read as if nothing stood before it. -/
theorem tokens_append (ht : (scan fresh t []).2.closed = true) (hv : v.head? ≠ some '\'') :
    tokens (t ++ '\n' :: v) = tokens t ++ tokens v := by
  have hdash : ('\n' :: v).head? ≠ some '-' := by simp
  have hscan : scan fresh t ('\n' :: v) = scan fresh t [] := scan_quiet (quiet_newline hv) fresh t [] fun _ => hdash
  unfold tokens
  rw [marks_append, List.append_nil, hscan, marks_newline ht, marks_quiet (quiet_newline hv) hdash, group_blank]

theorem namesAfter_append (ha : ∀ w ∈ a.getLast?, w ∉ declaring) : namesAfter (a ++ b) = namesAfter a ++ namesAfter b := by
  induction a with
  | nil => rfl
  | cons k a ih =>
    cases a with
    | nil =>
      have hk : k ∉ declaring := ha k rfl
      cases b with
      | nil => rfl
      | cons w b =>
        simp only [List.singleton_append, namesAfter, hk, false_and, if_false]
    | cons w a =>
      have hrest := ih (by simpa using ha)
      rw [List.cons_append] at hrest ⊢
      rw [List.cons_append, namesAfter, namesAfter, hrest, List.append_assoc]

theorem scan_append_newline (ht : (scan fresh t []).2.closed = true) (hv : v.head? ≠ some '\'') :
    (scan fresh (t ++ '\n' :: v) []).2 = (scan fresh v []).2 := by
  have hscan : scan fresh t ('\n' :: v) = scan fresh t [] := by
    refine scan_quiet (quiet_newline hv) fresh t [] fun _ => ?_
    simp
  rw [scan_append, List.append_nil, hscan, scan_newline ht, scan_cons, step_newline rfl]

theorem complete_nil : Complete [] where
  closed := rfl
  named w hw := by cases hw

theorem Complete.append (ht : Complete t) (hv : Complete v) (hquote : v.head? ≠ some '\'') :
    Complete (t ++ '\n' :: v) where
  closed := by
    rw [scan_append_newline ht.closed hquote]
    exact hv.closed
  named w hw := by
    rw [tokens_append ht.closed hquote, List.getLast?_append] at hw
    cases hlast : (tokens v).getLast? with
    | none =>
      rw [hlast] at hw
      exact ht.named w hw
    | some u =>
      rw [hlast] at hw
      exact hv.named w (hlast ▸ hw)

theorem Complete.newline (hv : Complete v) : Complete ('\n' :: v) where
  closed := by
    rw [scan_cons, step_newline rfl]
    exact hv.closed
  named w hw := hv.named w (tokens_newline v ▸ hw)

theorem declaredIn_newline (v : Text) : declaredIn ('\n' :: v) = declaredIn v := by
  rw [declaredIn, tokens_newline, declaredIn]

theorem declaredIn_append (ht : Complete t) (hv : v.head? ≠ some '\'') :
    declaredIn (t ++ '\n' :: v) = declaredIn t ++ declaredIn v := by
  rw [declaredIn, tokens_append ht.closed hv, namesAfter_append ht.named, declaredIn, declaredIn]

theorem declaredIn_line (ht : Complete t) : declaredIn (t ++ ['\n']) = declaredIn t := by
  rw [declaredIn_append ht (by simp)]
  exact List.append_nil _

theorem Complete.line (ht : Complete t) : Complete (t ++ ['\n']) := ht.append complete_nil (by simp)

theorem declaredIn_paragraph (ht : Complete t) (v : Text) :
    declaredIn (t ++ '\n' :: '\n' :: v) = declaredIn t ++ declaredIn v := by
  rw [declaredIn_append ht (by simp), declaredIn_newline]

/-- Complete texts with a blank line between them declare what each of them does. -/
theorem declaredIn_paragraphs {ts : List Text} (h : ∀ t ∈ ts, Complete t) :
    declaredIn (join ['\n', '\n'] ts) = ts.flatMap declaredIn := by
  induction ts with
  | nil => rfl
  | cons t ts ih =>
    rw [List.forall_mem_cons] at h
    cases ts with
    | nil => rw [join, List.flatMap_singleton]
    | cons u ts =>
      rw [join_cons (List.cons_ne_nil u ts), List.append_assoc, List.flatMap_cons, ← ih h.2]
      exact declaredIn_paragraph h.1 _

theorem complete_paragraphs {ts : List Text} (h : ∀ t ∈ ts, Complete t) : Complete (join ['\n', '\n'] ts) := by
  induction ts with
  | nil => exact complete_nil
  | cons t ts ih =>
    rw [List.forall_mem_cons] at h
    cases ts with
    | nil => exact h.1
    | cons u ts =>
      rw [join_cons (List.cons_ne_nil u ts), List.append_assoc]
      exact h.1.append (ih h.2).newline (by simp)

example : declaredIn "@[simp] theorem a.{u} : A := by\n  -- theorem b\n  exact f \"def c\"\n\nlemma «d e» : D".toList =
    ["a".toList, "«d e»".toList] := by decide +kernel

end EvoHarness.LeanDeclarations
