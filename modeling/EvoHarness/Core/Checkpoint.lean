import EvoHarness.Library.Bytes
import EvoHarness.Library.Json
import EvoHarness.Library.Spacing

/-! `append_jsonl` and `read_jsonl`: a log with one JSON object a line, appended byte by byte
and read as lines of text. -/
namespace EvoHarness.Core
open PyText Json

structure Payload where
  value : Value
  object : IsObject value
  distinct : Distinct value

def Payload.saved (p : Payload) : Value := sorted p.value

def Payload.line (p : Payload) : Text := dumps p.value ++ ['\n']

def utf8 (t : Text) : ByteArray := (String.ofList t).toByteArray

/-- The content of the file after `append_jsonl`, if there was one before. -/
def appendJsonl (file : Option ByteArray) (p : Payload) : Option ByteArray :=
  some (file.getD .empty ++ utf8 p.line)

/-- The content if the process dies when `k` bytes of the line are written. -/
def tornAppend (file : Option ByteArray) (p : Payload) (k : ℕ) : Option ByteArray :=
  some (file.getD .empty ++ (utf8 p.line).extract 0 k)

def loadLines (t : Text) : Option (List Value) := ((splitlines t).filter fun line => strip line ≠ []).mapM loads

/-- What `read_jsonl` returns, or `none` where it raises. -/
def readJsonl : Option ByteArray → Option (List Value)
  | none => some []
  | some file => file.utf8Decode?.bind fun text => loadLines (universalNewlines text.toList)

def logOf (ps : List Payload) : Option ByteArray := ps.foldl appendJsonl none

/-- What the log promises when the append of `last` stops after `k` bytes and `new` is appended later. -/
structure Survives (earlier : List Payload) (last new : Payload) (k : ℕ) : Prop where
  reads : readJsonl (logOf earlier) = some (earlier.map Payload.saved)
  torn : ∃ kept, (kept = earlier ∨ kept = earlier ++ [last]) ∧
    readJsonl (tornAppend (logOf earlier) last k) = some (kept.map Payload.saved) ∧
    readJsonl (appendJsonl (tornAppend (logOf earlier) last k) new) = some ((kept ++ [new]).map Payload.saved)

/-- No string of the payload, and no key, has a line boundary that the writer does not escape. -/
def Plain (p : Payload) : Prop := ∀ s ∈ strings p.value, ∀ c ∈ s, ¬ (c.toNat = 133 ∨ c.toNat = 8232 ∨ c.toNat = 8233)

theorem dumps_head (p : Payload) : ∃ t, dumps p.value = '\x7b' :: t := render_object (sorted_object p.object)

theorem strip_brace (t : Text) : strip ('\x7b' :: t) ≠ [] := by
  have hspace : isSpace '\x7b' = false := by decide
  have hleft : lstrip ('\x7b' :: t) = '\x7b' :: t := by simp [lstrip, hspace]
  unfold strip rstrip
  rw [hleft]
  intro h
  have hall := List.dropWhile_eq_nil_iff.mp (List.reverse_eq_nil_iff.mp h)
  exact absurd (hall '\x7b' (by simp)) (by simp [hspace])

theorem dumps_break {p : Payload} {c : Char} (hc : c ∈ dumps p.value) (hbreak : isLineBreak c = true) :
    c.toNat = 133 ∨ c.toNat = 8232 ∨ c.toNat = 8233 := by
  have hvisible := render_visible (sorted p.value) c hc
  simp only [isLineBreak, Bool.or_eq_true, Bool.and_eq_true, decide_eq_true_eq, beq_iff_eq] at hbreak
  omega

theorem plain_iff (p : Payload) : Plain p ↔ ∀ c ∈ dumps p.value, isLineBreak c = false := by
  constructor
  · intro h c hc
    by_contra hbreak
    have hnat := dumps_break hc (by simpa using hbreak)
    obtain ⟨s, hs, hcs⟩ := (mem_strings_sorted p.value).mp ((mem_render (by omega) (sorted p.value)).mp hc)
    exact h s hs c hcs hnat
  · intro h s hs c hc hnat
    have hmem := (mem_render (by omega) (sorted p.value)).mpr ((mem_strings_sorted p.value).mpr ⟨s, hs, hc⟩)
    have hbreak : isLineBreak c = true := by
      simp only [isLineBreak, Bool.or_eq_true, Bool.and_eq_true, decide_eq_true_eq, beq_iff_eq]
      omega
    rw [h c hmem] at hbreak
    cases hbreak

theorem exists_line {t : Text} (h : ¬ ∀ c ∈ t, isLineBreak c = false) :
    ∃ a c b, t = a ++ c :: b ∧ (∀ d ∈ a, isLineBreak d = false) ∧ isLineBreak c = true := by
  induction t with
  | nil => simp at h
  | cons d t ih =>
    cases hd : isLineBreak d with
    | true => exact ⟨[], d, t, rfl, by simp, hd⟩
    | false =>
      have hrest : ¬ ∀ c ∈ t, isLineBreak c = false := by
        intro hall
        exact h (List.forall_mem_cons.mpr ⟨hd, hall⟩)
      obtain ⟨a, c, b, rfl, ha, hc⟩ := ih hrest
      exact ⟨d :: a, c, b, rfl, List.forall_mem_cons.mpr ⟨hd, ha⟩, hc⟩

theorem loadLines_nil : loadLines [] = some [] := rfl

theorem loadLines_inked {t : Text} {c : Char} (u : Text) (ht : ∀ d ∈ t, isLineBreak d = false)
    (hc : isLineBreak c = true) (hreturn : c ≠ '\r') (hstrip : strip t ≠ []) :
    loadLines (t ++ c :: u) = (loads t).bind fun v => (loadLines u).map fun vs => v :: vs := by
  unfold loadLines
  rw [splitlines_append u ht hc hreturn, List.filter_cons_of_pos (by simpa using hstrip), List.mapM_cons]
  cases loads t with
  | none => rfl
  | some v => cases List.mapM loads _ <;> rfl

theorem loadLines_blank {t : Text} {c : Char} (u : Text) (ht : ∀ d ∈ t, isLineBreak d = false)
    (hc : isLineBreak c = true) (hreturn : c ≠ '\r') (hstrip : strip t = []) : loadLines (t ++ c :: u) = loadLines u := by
  unfold loadLines
  rw [splitlines_append u ht hc hreturn, List.filter_cons_of_neg (by simpa using hstrip)]

theorem strip_ne_nil_of_head {t : Text} (hbrace : t.head? = some '\x7b') : strip t ≠ [] := by
  cases t with
  | nil => cases hbrace
  | cons d t =>
    obtain rfl := Option.some.inj hbrace
    exact strip_brace t

theorem loadLines_append {t : Text} {c : Char} (u : Text) (ht : ∀ d ∈ t, isLineBreak d = false)
    (hc : isLineBreak c = true) (hreturn : c ≠ '\r') (hbrace : t.head? = some '\x7b') :
    loadLines (t ++ c :: u) = (loads t).bind fun v => (loadLines u).map fun vs => v :: vs :=
  loadLines_inked u ht hc hreturn (strip_ne_nil_of_head hbrace)

theorem loadLines_single {t : Text} (ht : ∀ d ∈ t, isLineBreak d = false) (hbrace : t.head? = some '\x7b') :
    loadLines t = (loads t).map fun v => [v] := by
  cases t with
  | nil => cases hbrace
  | cons d t =>
    obtain rfl := Option.some.inj hbrace
    unfold loadLines
    rw [splitlines_single ht (by simp), List.filter_cons_of_pos (by simpa using strip_brace t), List.mapM_cons]
    cases loads ('\x7b' :: t) <;> rfl

theorem loads_saved (p : Payload) : loads (dumps p.value) = some p.saved := loads_dumps p.distinct p.object

theorem loadLines_plain {p : Payload} (t : Text) (hp : Plain p) :
    loadLines (p.line ++ t) = (loadLines t).map fun vs => p.saved :: vs := by
  obtain ⟨u, hu⟩ := dumps_head p
  rw [Payload.line, List.append_assoc, List.singleton_append,
    loadLines_append t ((plain_iff p).mp hp) (by decide) (by decide) (by rw [hu]; rfl), loads_saved]
  rfl

/-- A text that starts with a part of the line, and a line boundary behind it, is not read. -/
theorem loadLines_cut {p : Payload} {t u : Text} {c : Char} (v : Text) (htu : t ++ u = dumps p.value) (hu : u ≠ [])
    (hne : t ≠ []) (ht : ∀ d ∈ t, isLineBreak d = false) (hc : isLineBreak c = true) (hreturn : c ≠ '\r') :
    loadLines (t ++ c :: v) = none := by
  obtain ⟨w, hw⟩ := dumps_head p
  have hbrace : t.head? = some '\x7b' := by
    rw [hw] at htu
    cases t with
    | nil => exact absurd rfl hne
    | cons d t => exact congrArg some (List.cons.inj htu).1
  rw [loadLines_append v ht hc hreturn hbrace, loads_cut p.distinct p.object htu hu]
  rfl

theorem line_break_not_return {p : Payload} {c : Char} (hc : c ∈ dumps p.value) : c ≠ '\r' := by
  intro h
  have hvisible := render_visible (sorted p.value) c hc
  rw [h] at hvisible
  exact absurd hvisible (by decide)

/-- A payload that is not plain takes more than one line, and the first of them is not read. -/
theorem loadLines_broken {p : Payload} (t : Text) (hp : ¬ Plain p) : loadLines (dumps p.value ++ t) = none := by
  obtain ⟨a, c, b, hab, ha, hc⟩ := exists_line (mt (plain_iff p).mpr hp)
  obtain ⟨w, hw⟩ := dumps_head p
  have hne : a ≠ [] := by
    intro h
    rw [hab, h, List.nil_append] at hw
    rw [(List.cons.inj hw).1] at hc
    revert hc
    decide
  have hreturn : c ≠ '\r' := line_break_not_return (p := p) (by rw [hab]; simp)
  rw [hab, List.append_assoc, List.cons_append]
  exact loadLines_cut (b ++ t) hab.symm (by simp) hne ha hc hreturn

theorem loadLines_torn {p : Payload} {t u : Text} (htu : t ++ u = dumps p.value) (hu : u ≠ []) (hne : t ≠ []) :
    loadLines t = none := by
  by_cases ht : ∀ c ∈ t, isLineBreak c = false
  · obtain ⟨w, hw⟩ := dumps_head p
    have hbrace : t.head? = some '\x7b' := by
      rw [hw] at htu
      cases t with
      | nil => exact absurd rfl hne
      | cons d t => exact congrArg some (List.cons.inj htu).1
    rw [loadLines_single ht hbrace, loads_cut p.distinct p.object htu hu]
    rfl
  · obtain ⟨a, c, b, rfl, ha, hc⟩ := exists_line ht
    obtain ⟨w, hw⟩ := dumps_head p
    have hmem : c ∈ dumps p.value := by
      rw [← htu]
      simp
    have hane : a ≠ [] := by
      intro h
      rw [← htu, h, List.nil_append, List.cons_append] at hw
      rw [(List.cons.inj hw).1] at hc
      revert hc
      decide
    exact loadLines_cut b (by rw [← htu, List.append_assoc]) (by simp) hane ha hc (line_break_not_return hmem)

theorem loadLines_joined {p q : Payload} (hp : Plain p) : loadLines (dumps p.value ++ q.line) = none := by
  obtain ⟨v, hv⟩ := dumps_head p
  obtain ⟨w, hw⟩ := dumps_head q
  have hend : ¬ ∀ c ∈ q.line, isLineBreak c = false := by
    intro h
    exact absurd (h '\n' (by simp [Payload.line])) (by decide)
  obtain ⟨a, c, b, hab, ha, hc⟩ := exists_line hend
  have hane : ∃ a', a = '\x7b' :: a' := by
    rw [Payload.line, hw] at hab
    cases a with
    | nil =>
      rw [← (List.cons.inj hab).1] at hc
      exact absurd hc (by decide)
    | cons d a => exact ⟨a, by rw [← (List.cons.inj hab).1]⟩
  obtain ⟨a', rfl⟩ := hane
  have hreturn : c ≠ '\r' := by
    have hmem : c ∈ q.line := by
      rw [hab]
      simp
    cases List.mem_append.mp hmem with
    | inl h => exact line_break_not_return h
    | inr h =>
      rw [List.mem_singleton.mp h]
      decide
  have hskip : skip ('\x7b' :: a') ≠ [] := by
    rw [skip_cons _ (by decide)]
    simp
  have hline : ∀ d ∈ dumps p.value ++ '\x7b' :: a', isLineBreak d = false :=
    List.forall_mem_append.mpr ⟨(plain_iff p).mp hp, ha⟩
  rw [hab, ← List.append_assoc, loadLines_append b hline hc hreturn (by rw [hv]; rfl),
    loads_dumps_append p.distinct p.object, if_neg hskip]
  rfl

theorem strip_append_brace {t u : Text} : strip (t ++ '\x7b' :: u) ≠ [] := by
  rw [Ne, strip_eq_nil, isBlank_iff]
  intro h
  have hspace := h '\x7b' (by simp)
  revert hspace
  decide

/-- The line up to its first boundary: all of the object if the payload is plain, and else only a part of it. -/
theorem exists_first_line (p : Payload) : ∃ a c b, p.line = '\x7b' :: a ++ c :: b ∧
    (∀ d ∈ '\x7b' :: a, isLineBreak d = false) ∧ isLineBreak c = true ∧ c ≠ '\r' ∧
    ((dumps p.value = '\x7b' :: a ∧ b = []) ∨ ∃ u, u ≠ [] ∧ '\x7b' :: a ++ u = dumps p.value) := by
  obtain ⟨w, hw⟩ := dumps_head p
  by_cases hp : Plain p
  · refine ⟨w, '\n', [], ?_, ?_, by decide, by decide, .inl ⟨hw, rfl⟩⟩
    · rw [Payload.line, hw]
    · rw [← hw]
      exact (plain_iff p).mp hp
  · obtain ⟨a, c, b, hab, ha, hc⟩ := exists_line (mt (plain_iff p).mpr hp)
    have hreturn : c ≠ '\r' := line_break_not_return (p := p) (by rw [hab]; simp)
    cases a with
    | nil =>
      rw [hab, List.nil_append] at hw
      rw [(List.cons.inj hw).1] at hc
      exact absurd hc (by decide)
    | cons d a =>
      rw [hab, List.cons_append] at hw
      obtain rfl := (List.cons.inj hw).1
      refine ⟨a, c, b ++ ['\n'], ?_, ha, hc, hreturn, .inr ⟨c :: b, by simp, hab.symm⟩⟩
      rw [Payload.line, hab]
      simp

/-- The line that an unfinished one becomes is read only if what stood there is blank. -/
theorem loadLines_last {t : Text} {p : Payload} {vs vs' : List Value} (ht : ∀ d ∈ t, isLineBreak d = false)
    (hvs : loadLines t = some vs) (hobj : ∀ v ∈ vs, IsObject v) (h : loadLines (t ++ p.line) = some vs') :
    vs' = vs ++ [p.saved] := by
  obtain ⟨a, c, b, hline, ha, hc, hreturn, hwhole⟩ := exists_first_line p
  rw [hline, ← List.append_assoc, loadLines_inked b (List.forall_mem_append.mpr ⟨ht, ha⟩) hc hreturn strip_append_brace] at h
  obtain ⟨v, hv, hrest⟩ := Option.bind_eq_some_iff.mp h
  by_cases hstrip : strip t = []
  · have hnone : vs = [] := by
      cases t with
      | nil => exact (Option.some.inj hvs).symm
      | cons d t =>
        unfold loadLines at hvs
        rw [splitlines_single ht (by simp), List.filter_cons_of_neg (by simpa using hstrip)] at hvs
        exact (Option.some.inj hvs).symm
    subst hnone
    unfold loads at hv
    obtain ⟨q, hq, hend⟩ := Option.bind_eq_some_iff.mp hv
    rw [skip_of_read (isBlank_iff.mp (strip_eq_nil.mp hstrip)) hq] at hq
    cases hwhole with
    | inl hall =>
      obtain ⟨hdumps, rfl⟩ := hall
      rw [loadLines_nil, Option.map_some] at hrest
      have hwritten : '\x7b' :: a = Json.textOf [' '] p.value ++ [] := by
        rw [← hdumps, dumps_eq_textOf, List.append_nil]
      have hlength : (Json.textOf [' '] p.value).length ≤ (t ++ '\x7b' :: a).length := by
        rw [List.length_append, hwritten, List.append_nil]
        omega
      have hfuel : 2 * (Json.textOf [' '] p.value).length + 1 ≤ 2 * (t ++ '\x7b' :: a).length + 2 := by omega
      have hread := readValue_textOf blank_pad p.distinct p.object [] hfuel
      rw [← hwritten, hq] at hread
      obtain rfl := Option.some.inj hread
      rw [show skip [] = [] from rfl, if_pos rfl] at hend
      obtain rfl := Option.some.inj hend
      exact (Option.some.inj hrest).symm
    | inr hpart =>
      obtain ⟨u, hu, hdumps⟩ := hpart
      rw [readValue_cut p.distinct p.object hdumps hu] at hq
      cases hq
  · have hread : loads t ≠ none ∧ ∀ v, loads t = some v → vs = [v] := by
      cases t with
      | nil => exact absurd rfl hstrip
      | cons d t =>
        unfold loadLines at hvs
        rw [splitlines_single ht (by simp), List.filter_cons_of_pos (by simpa using hstrip), List.mapM_cons] at hvs
        cases hl : loads (d :: t) with
        | none =>
          rw [hl] at hvs
          cases hvs
        | some v =>
          rw [hl] at hvs
          refine ⟨by simp, fun v' hv' => ?_⟩
          obtain rfl := Option.some.inj hv'
          exact (Option.some.inj hvs).symm
    obtain ⟨x, hx⟩ := Option.ne_none_iff_exists'.mp hread.1
    have hobject : IsObject x := hobj x (by rw [hread.2 x hx]; simp)
    rw [loads_append_brace a hx hobject] at hv
    cases hv

theorem loadLines_snoc {p : Payload} (n : ℕ) : ∀ {t : Text} {vs vs' : List Value}, t.length ≤ n → '\r' ∉ t →
    loadLines t = some vs → (∀ v ∈ vs, IsObject v) → loadLines (t ++ p.line) = some vs' → vs' = vs ++ [p.saved] := by
  induction n with
  | zero =>
    intro t vs vs' hn _ hvs hobj h
    obtain rfl := List.length_eq_zero_iff.mp (Nat.le_zero.mp hn)
    exact loadLines_last (by simp) hvs hobj h
  | succ n ih =>
    intro t vs vs' hn ht hvs hobj h
    by_cases hline : ∀ c ∈ t, isLineBreak c = false
    · exact loadLines_last hline hvs hobj h
    · obtain ⟨a, c, b, rfl, ha, hc⟩ := exists_line hline
      have hreturn : c ≠ '\r' := fun hc => ht (by simp [hc])
      have hb : '\r' ∉ b := fun hb => ht (by simp [hb])
      have hlength : b.length ≤ n := by
        rw [List.length_append, List.length_cons] at hn
        omega
      rw [List.append_assoc, List.cons_append] at h
      by_cases hstrip : strip a = []
      · rw [loadLines_blank _ ha hc hreturn hstrip] at hvs h
        exact ih hlength hb hvs hobj h
      · rw [loadLines_inked _ ha hc hreturn hstrip] at hvs h
        obtain ⟨v, hv, hvs⟩ := Option.bind_eq_some_iff.mp hvs
        obtain ⟨us, hus, rfl⟩ := Option.map_eq_some_iff.mp hvs
        rw [hv, Option.bind_some] at h
        obtain ⟨us', hus', rfl⟩ := Option.map_eq_some_iff.mp h
        rw [ih hlength hb hus (fun u hu => hobj u (List.mem_cons_of_mem v hu)) hus', List.cons_append]

def textOf (ps : List Payload) : Text := ps.flatMap Payload.line

theorem loadLines_textOf {ps : List Payload} (t : Text) (h : ∀ p ∈ ps, Plain p) :
    loadLines (textOf ps ++ t) = (loadLines t).map fun vs => ps.map Payload.saved ++ vs := by
  induction ps with
  | nil => simp [textOf]
  | cons p ps ih =>
    rw [List.forall_mem_cons] at h
    rw [textOf, List.flatMap_cons, List.append_assoc, loadLines_plain _ h.1]
    rw [show List.flatMap Payload.line ps = textOf ps from rfl, ih h.2, Option.map_map]
    rfl

theorem loadLines_textOf_broken {ps : List Payload} (t : Text) (h : ¬ ∀ p ∈ ps, Plain p) :
    loadLines (textOf ps ++ t) = none := by
  induction ps with
  | nil => simp at h
  | cons p ps ih =>
    rw [textOf, List.flatMap_cons, List.append_assoc]
    by_cases hp : Plain p
    · have hrest : ¬ ∀ q ∈ ps, Plain q := fun hall => h (List.forall_mem_cons.mpr ⟨hp, hall⟩)
      rw [loadLines_plain _ hp]
      rw [show List.flatMap Payload.line ps = textOf ps from rfl, ih hrest]
      rfl
    · rw [Payload.line, List.append_assoc]
      exact loadLines_broken _ hp

theorem utf8_eq (t : Text) : utf8 t = t.utf8Encode := String.toByteArray_ofList

theorem utf8_append (t u : Text) : utf8 (t ++ u) = utf8 t ++ utf8 u := by
  simp only [utf8_eq, List.utf8Encode_append]

theorem utf8_eq_empty {t : Text} : utf8 t = .empty ↔ t = [] := by rw [utf8_eq, List.utf8Encode_eq_empty]

theorem utf8_decode (t : Text) : (utf8 t).utf8Decode? = some t.toArray := by rw [utf8_eq, List.utf8Decode?_utf8Encode]

theorem utf8_of_decode {b : ByteArray} {a : Array Char} (h : b.utf8Decode? = some a) : utf8 a.toList = b := by
  have hsome : b.utf8Decode?.isSome := by rw [h]; rfl
  have hget := ByteArray.utf8Encode_get_utf8Decode? (b := b) (h := hsome)
  rw [utf8_eq]
  simpa [h] using hget

theorem prefix_of_utf8 {t : Text} : ∀ {l : Text} {b : ByteArray}, utf8 t ++ b = utf8 l → t <+: l := by
  intro l b h
  rw [utf8_eq, utf8_eq] at h
  exact PyBytes.prefix_of_utf8Encode h

theorem no_return_line (p : Payload) : '\r' ∉ p.line := by
  intro h
  cases List.mem_append.mp h with
  | inl h => exact line_break_not_return h rfl
  | inr h => exact absurd (List.mem_singleton.mp h) (by decide)

theorem no_return_textOf (ps : List Payload) : '\r' ∉ textOf ps := by
  intro h
  obtain ⟨p, _, hp⟩ := List.mem_flatMap.mp h
  exact no_return_line p hp

theorem textOf_snoc (ps : List Payload) (p : Payload) : textOf (ps ++ [p]) = textOf ps ++ p.line := by
  rw [textOf, textOf, List.flatMap_append, List.flatMap_singleton]

theorem readJsonl_utf8 {t : Text} (ht : '\r' ∉ t) : readJsonl (some (utf8 t)) = loadLines t := by
  rw [readJsonl, utf8_decode, Option.bind_some, List.toList_toArray, universalNewlines_of_no_return ht]

theorem readJsonl_textOf (ps : List Payload) : readJsonl (some (utf8 (textOf ps))) = loadLines (textOf ps) :=
  readJsonl_utf8 (no_return_textOf ps)

theorem appendJsonl_utf8 (t : Text) (p : Payload) : appendJsonl (some (utf8 t)) p = some (utf8 (t ++ p.line)) := by
  rw [utf8_append]
  rfl

theorem logOf_getD (ps : List Payload) : (logOf ps).getD .empty = utf8 (textOf ps) := by
  have hfold : ∀ (ps : List Payload) (file : Option ByteArray),
      (ps.foldl appendJsonl file).getD .empty = file.getD .empty ++ utf8 (textOf ps) := by
    intro ps
    induction ps with
    | nil =>
      intro file
      rw [show utf8 (textOf []) = .empty from utf8_eq_empty.mpr rfl, ByteArray.append_empty]
      rfl
    | cons p ps ih =>
      intro file
      have htext : textOf (p :: ps) = p.line ++ textOf ps := List.flatMap_cons
      rw [List.foldl_cons, ih, htext, utf8_append, ← ByteArray.append_assoc]
      rfl
  have h := hfold ps none
  rw [show (none : Option ByteArray).getD .empty = .empty from rfl, ByteArray.empty_append] at h
  exact h

theorem readJsonl_logOf (ps : List Payload) : readJsonl (logOf ps) = loadLines (textOf ps) := by
  cases hlog : logOf ps with
  | none =>
    have h := logOf_getD ps
    rw [hlog] at h
    rw [utf8_eq_empty.mp h.symm]
    rfl
  | some file =>
    have h := logOf_getD ps
    rw [hlog] at h
    rw [show file = utf8 (textOf ps) from h, readJsonl_textOf]

theorem extract_rest {b : ByteArray} {k : ℕ} (hk : k ≤ b.size) : b.extract 0 k ++ b.extract k b.size = b := by
  rw [← ByteArray.extract_eq_extract_append_extract k (Nat.zero_le k) hk, ByteArray.extract_zero_size]

theorem torn_text {earlier : List Payload} {last : Payload} {k : ℕ} {vs : List Value}
    (hk : k ≤ (utf8 last.line).size) (h : readJsonl (tornAppend (logOf earlier) last k) = some vs) :
    ∃ t u, t ++ u = last.line ∧ (utf8 t).size = k ∧
      tornAppend (logOf earlier) last k = some (utf8 (textOf earlier ++ t)) := by
  unfold tornAppend at h ⊢
  rw [logOf_getD] at h ⊢
  obtain ⟨a, ha, _⟩ := Option.bind_eq_some_iff.mp h
  have hbytes := utf8_of_decode ha
  have hwhole : utf8 a.toList ++ (utf8 last.line).extract k (utf8 last.line).size =
      utf8 (textOf earlier ++ last.line) := by
    rw [hbytes, utf8_append, ByteArray.append_assoc, extract_rest hk]
  obtain ⟨t, ht⟩ := prefix_of_utf8 hbytes.symm
  rw [← ht] at hbytes hwhole
  obtain ⟨u, hu⟩ := prefix_of_utf8 hwhole
  rw [List.append_assoc] at hu
  have hlast := List.append_cancel_left hu
  rw [utf8_append] at hbytes
  have hpart := (ByteArray.append_right_inj _).mp hbytes
  refine ⟨t, u, hlast, ?_, ?_⟩
  · rw [hpart, ByteArray.size_extract]
    omega
  · rw [utf8_append, hpart]

theorem reads_iff (ps : List Payload) : readJsonl (logOf ps) = some (ps.map Payload.saved) ↔ ∀ p ∈ ps, Plain p := by
  rw [readJsonl_logOf, ← List.append_nil (textOf ps)]
  constructor
  · intro h
    by_contra hbroken
    rw [loadLines_textOf_broken [] hbroken] at h
    cases h
  · intro h
    rw [loadLines_textOf [] h, loadLines_nil, Option.map_some, List.append_nil]

/-- Whatever the file was, an append that leaves it readable adds its own object and no more. -/
theorem readJsonl_append {file : Option ByteArray} {p : Payload} {vs vs' : List Value} (hvs : readJsonl file = some vs)
    (hobj : ∀ v ∈ vs, IsObject v) (h : readJsonl (appendJsonl file p) = some vs') : vs' = vs ++ [p.saved] := by
  cases file with
  | none =>
    obtain rfl := Option.some.inj hvs
    rw [appendJsonl, Option.getD_none, ByteArray.empty_append, readJsonl_utf8 (no_return_line p)] at h
    exact loadLines_snoc 0 (t := []) (le_refl 0) (by simp) rfl hobj h
  | some file =>
    rw [readJsonl] at hvs
    obtain ⟨chars, hchars, hvs⟩ := Option.bind_eq_some_iff.mp hvs
    rw [← utf8_of_decode hchars, appendJsonl, Option.getD_some, ← utf8_append, readJsonl, utf8_decode, Option.bind_some,
      List.toList_toArray] at h
    obtain ⟨w, hw⟩ := dumps_head p
    have hhead : p.line.head? ≠ some '\n' := by
      rw [Payload.line, hw]
      simp
    rw [universalNewlines_append (no_return_line p) hhead] at h
    exact loadLines_snoc _ (le_refl _) (no_return_universalNewlines _) hvs hobj h

theorem torn_cases {earlier : List Payload} {last : Payload} {k : ℕ} {vs : List Value}
    (hk : k ≤ (utf8 last.line).size) (hplain : ∀ p ∈ earlier, Plain p)
    (h : readJsonl (tornAppend (logOf earlier) last k) = some vs) :
    (k = 0 ∧ tornAppend (logOf earlier) last k = some (utf8 (textOf earlier))) ∨
      (k = (utf8 last.line).size ∧ Plain last ∧
        tornAppend (logOf earlier) last k = some (utf8 (textOf (earlier ++ [last])))) ∨
      (Plain last ∧ tornAppend (logOf earlier) last k = some (utf8 (textOf earlier ++ dumps last.value))) := by
  obtain ⟨t, u, htu, hsize, hfile⟩ := torn_text hk h
  rw [hfile] at h ⊢
  have hreturn : '\r' ∉ textOf earlier ++ t := by
    intro hmem
    cases List.mem_append.mp hmem with
    | inl hmem => exact no_return_textOf earlier hmem
    | inr hmem => exact no_return_line last (htu ▸ List.mem_append_left u hmem)
  rw [readJsonl_utf8 hreturn, loadLines_textOf t hplain] at h
  obtain ⟨ws, hws, _⟩ := Option.map_eq_some_iff.mp h
  by_cases hnil : t = []
  · subst hnil
    left
    rw [utf8_eq_empty.mpr rfl] at hsize
    exact ⟨hsize.symm, by rw [List.append_nil]⟩
  right
  by_cases hu : u = []
  · subst hu
    left
    rw [List.append_nil] at htu
    subst htu
    refine ⟨hsize.symm, ?_, by rw [textOf_snoc]⟩
    by_contra hbroken
    rw [Payload.line, loadLines_broken _ hbroken] at hws
    cases hws
  right
  -- the line's end is missing: how much of the object is there?
  obtain ⟨v, hv⟩ : ∃ v, t ++ v = dumps last.value ∧ u = v ++ ['\n'] := by
    have hdrop : u.dropLast ++ [u.getLast hu] = u := List.dropLast_append_getLast hu
    have hline : (t ++ u.dropLast) ++ [u.getLast hu] = dumps last.value ++ ['\n'] := by
      rw [List.append_assoc, hdrop]
      exact htu
    obtain ⟨hobject, hend⟩ := List.append_inj' hline rfl
    exact ⟨u.dropLast, hobject, by rw [← hend, hdrop]⟩
  by_cases hvnil : v = []
  · subst hvnil
    rw [List.append_nil] at hv
    rw [hv.1] at hws ⊢
    refine ⟨?_, rfl⟩
    by_contra hbroken
    have hread := loadLines_broken [] hbroken
    rw [List.append_nil, hws] at hread
    cases hread
  · rw [loadLines_torn hv.1 hvnil hnil] at hws
    cases hws

/-- The log survives exactly if no payload in it has an unescaped line boundary and the append
stopped before its first byte or after its last. -/
theorem survives_iff (earlier : List Payload) (last new : Payload) (k : ℕ) (hk : k ≤ (utf8 last.line).size) :
    Survives earlier last new k ↔
      (∀ p ∈ earlier, Plain p) ∧ Plain new ∧ (k = 0 ∨ (k = (utf8 last.line).size ∧ Plain last)) := by
  have hlater : ∀ {kept : List Payload},
      readJsonl (appendJsonl (some (utf8 (textOf kept))) new) = some ((kept ++ [new]).map Payload.saved) ↔
        ∀ p ∈ kept ++ [new], Plain p := by
    intro kept
    have hlog : readJsonl (appendJsonl (some (utf8 (textOf kept))) new) = readJsonl (logOf (kept ++ [new])) := by
      rw [appendJsonl_utf8, ← textOf_snoc, readJsonl_textOf, readJsonl_logOf]
    rw [hlog]
    exact reads_iff _
  constructor
  · intro h
    have hplain := (reads_iff earlier).mp h.reads
    obtain ⟨kept, hkept, hread, hagain⟩ := h.torn
    refine ⟨hplain, ?_⟩
    have hfile : ∀ {ps : List Payload}, tornAppend (logOf earlier) last k = some (utf8 (textOf ps)) → Plain new := by
      intro ps hps
      rw [hps, appendJsonl_utf8, ← textOf_snoc, readJsonl_textOf, ← List.append_nil (textOf _)] at hagain
      by_contra hbroken
      have hbad : ¬ ∀ p ∈ ps ++ [new], Plain p := fun hall => hbroken (hall new (by simp))
      rw [loadLines_textOf_broken [] hbad] at hagain
      cases hagain
    cases torn_cases hk hplain hread with
    | inl hnothing => exact ⟨hfile hnothing.2, Or.inl hnothing.1⟩
    | inr hsome =>
      cases hsome with
      | inl hall => exact ⟨hfile hall.2.2, Or.inr ⟨hall.1, hall.2.1⟩⟩
      | inr hobject =>
        rw [hobject.2, appendJsonl_utf8, List.append_assoc] at hagain
        have hreturn : '\r' ∉ textOf earlier ++ (dumps last.value ++ new.line) := by
          simp only [List.mem_append, not_or]
          exact ⟨no_return_textOf earlier, fun hmem => line_break_not_return hmem rfl, no_return_line new⟩
        rw [readJsonl_utf8 hreturn, loadLines_textOf _ hplain, loadLines_joined hobject.1] at hagain
        cases hagain
  · intro h
    obtain ⟨hplain, hnew, hend⟩ := h
    refine ⟨(reads_iff earlier).mpr hplain, ?_⟩
    cases hend with
    | inl hzero =>
      subst hzero
      have hfile : tornAppend (logOf earlier) last 0 = some (utf8 (textOf earlier)) := by
        unfold tornAppend
        rw [logOf_getD, ByteArray.extract_same, ByteArray.append_empty]
      refine ⟨earlier, Or.inl rfl, ?_, ?_⟩
      · rw [hfile, readJsonl_textOf, ← readJsonl_logOf]
        exact (reads_iff earlier).mpr hplain
      · rw [hfile]
        exact hlater.mpr (List.forall_mem_append.mpr ⟨hplain, by simpa using hnew⟩)
    | inr hwhole =>
      obtain ⟨hsize, hlast⟩ := hwhole
      have hfile : tornAppend (logOf earlier) last k = some (utf8 (textOf (earlier ++ [last]))) := by
        unfold tornAppend
        rw [logOf_getD, hsize, ByteArray.extract_zero_size, ← utf8_append, textOf_snoc]
      have hkept : ∀ p ∈ earlier ++ [last], Plain p := List.forall_mem_append.mpr ⟨hplain, by simpa using hlast⟩
      refine ⟨earlier ++ [last], Or.inr rfl, ?_, ?_⟩
      · rw [hfile, readJsonl_textOf, ← readJsonl_logOf]
        exact (reads_iff _).mpr hkept
      · rw [hfile]
        exact hlater.mpr (List.forall_mem_append.mpr ⟨hkept, by simpa using hnew⟩)

def note (c : Char) : Payload where
  value := .object [(['n'], .string [c])]
  object := ⟨_, rfl⟩
  distinct := by simp [Distinct, DistinctMembers]

theorem plain_note {c : Char} (h : c.toNat < 133) : Plain (note c) := by
  have hkey : 'n'.toNat < 133 := by simp
  intro s hs d hd
  have hlow : d.toNat < 133 := by
    simp only [note, strings, stringsMembers, List.append_nil, List.mem_cons, List.not_mem_nil, or_false] at hs
    cases hs with
    | inl hs =>
      rw [hs, List.mem_singleton] at hd
      exact hd ▸ hkey
    | inr hs =>
      rw [hs, List.mem_singleton] at hd
      exact hd ▸ h
  omega

theorem survives_iff_written : Survives [note 'a'] (note 'b') (note 'c') (utf8 (note 'b').line).size :=
  (survives_iff _ _ _ _ (le_refl _)).mpr
    ⟨by simpa using plain_note (c := 'a') (by simp), plain_note (by simp), Or.inr ⟨rfl, plain_note (by simp)⟩⟩

theorem separator_not_read : ¬ Survives [note '\u2028'] (note 'b') (note 'c') 0 := by
  intro h
  have hplain := (reads_iff _).mp h.reads (note '\u2028') (by simp)
  exact hplain ['\u2028'] (by simp [note, strings, stringsMembers]) '\u2028' (by simp) (Or.inr (Or.inl rfl))

end EvoHarness.Core
