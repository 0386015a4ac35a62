import EvoHarness.Library.Delimited
import EvoHarness.Library.FirstSeen

/-! Behavior signatures: what a structured feedback is kept as, and what is computed from the texts that are stored. -/
namespace EvoHarness.Evoplus
open PyText

structure BehaviorSignature where
  passVector : List Bool
  errorHistogram : List (Text × ℤ)
deriving DecidableEq

structure ItemResult where
  passed : Bool
  errorCategory : Text := []

structure StructuredFeedback where
  items : List ItemResult

def intText : ℤ → Text
  | .ofNat n => Nat.toDigits 10 n
  | .negSucc n => '-' :: Nat.toDigits 10 (n + 1)

namespace BehaviorSignature

def hamming (a b : BehaviorSignature) : ℕ :=
  (a.passVector.zip b.passVector).countP (fun p => p.1 ≠ p.2) +
    ((a.passVector.length : ℤ) - b.passVector.length).natAbs

def bit (p : Bool) : Char := if p then '1' else '0'

def entry (e : Text × ℤ) : Text := e.1 ++ ':' :: intText e.2

def encode (s : BehaviorSignature) : Text :=
  s.passVector.map bit ++ '|' :: join [','] (s.errorHistogram.map entry)

def readEntry (part : Text) : Option (Text × ℤ) :=
  let p := rpartitionAt ':' part
  (int? p.2).map fun v => (p.1, v)

def readEntries : List Text → Option (List (Text × ℤ))
  | [] => some []
  | part :: parts =>
    match readEntry part with
    | none => none
    | some e => (readEntries parts).map (e :: ·)

/-- `decode(s)`, or `none` where it raises `ValueError`. -/
def decode (s : Text) : Option BehaviorSignature :=
  let p := partitionAt '|' s
  (if p.2 = [] then some [] else readEntries (p.2.splitOn ',')).map fun histogram =>
    { passVector := p.1.map (· = '1'), errorHistogram := histogram }

end BehaviorSignature
open BehaviorSignature

namespace StructuredFeedback

def categories (f : StructuredFeedback) : List Text :=
  (f.items.filter (!·.passed)).map fun i => if i.errorCategory = [] then "uncategorized".toList else i.errorCategory

def errorHistogram (f : StructuredFeedback) : List (Text × ℤ) :=
  (FirstSeen.addAll [] f.categories).map fun c => (c, (f.categories.count c : ℤ))

def signature (f : StructuredFeedback) : BehaviorSignature where
  passVector := f.items.map (·.passed)
  errorHistogram := f.errorHistogram.mergeSort fun a b => a.1 < b.1 ∨ (a.1 = b.1 ∧ a.2 ≤ b.2)

end StructuredFeedback

def recorded (f : StructuredFeedback) : Option Text :=
  if f.items = [] then none else some f.signature.encode

/-- `BehavioralNoveltyPolicy.on_candidate_graded`: the signature against those that are stored, one after another. -/
def markedAmong (threshold : ℤ) (sig : BehaviorSignature) : List Text → Option Bool
  | [] => some false
  | encoded :: rest =>
    match decode encoded with
    | none => none
    | some existing => if (sig.hamming existing : ℤ) ≤ threshold then some true else markedAmong threshold sig rest

def behaviorDuplicate (threshold : ℤ) (stored : Text) (signatures : List Text) : Option Bool :=
  match decode stored with
  | none => none
  | some sig => markedAmong threshold sig signatures

structure Complementarity where
  bothPass : ℕ
  baseOnly : ℕ
  donorOnly : ℕ
  bothFail : ℕ
deriving DecidableEq

def complementarity (base donor : BehaviorSignature) : Option Complementarity :=
  if base.passVector.length ≠ donor.passVector.length then none
  else if base.passVector = [] then none
  else
    let pairs := base.passVector.zip donor.passVector
    some {
      bothPass := pairs.countP fun p => p.1 && p.2
      baseOnly := pairs.countP fun p => p.1 && !p.2
      donorOnly := pairs.countP fun p => !p.1 && p.2
      bothFail := pairs.countP fun p => !p.1 && !p.2 }

/-- `_signature(cand)` of the merge planner and of the inspiration picker. -/
def signatureOf (stored : Option Text) : Option BehaviorSignature :=
  match stored with
  | none => none
  | some s => if s = [] then none else decode s

def storedComplementarity (base donor : Option Text) : Option Complementarity :=
  match signatureOf base, signatureOf donor with
  | some b, some d => complementarity b d
  | _, _ => none

def distinctSignatures (signatures : List Text) : ℕ := signatures.dedup.length

variable {f g : StructuredFeedback} {s : BehaviorSignature}

theorem intText_natCast (n : ℕ) : intText (n : ℤ) = Nat.toDigits 10 n := rfl

theorem mem_histogram {e : Text × ℤ} (h : e ∈ f.signature.errorHistogram) :
    e.1 ∈ f.categories ∧ ∃ n : ℕ, e.2 = n := by
  rw [StructuredFeedback.signature, List.mem_mergeSort, StructuredFeedback.errorHistogram, List.mem_map] at h
  obtain ⟨c, hc, rfl⟩ := h
  rw [FirstSeen.mem_addAll] at hc
  exact ⟨hc.resolve_left List.not_mem_nil, _, rfl⟩

theorem exists_histogram {c : Text} (h : c ∈ f.categories) : ∃ v, (c, v) ∈ f.signature.errorHistogram := by
  refine ⟨(f.categories.count c : ℤ), ?_⟩
  rw [StructuredFeedback.signature, List.mem_mergeSort, StructuredFeedback.errorHistogram, List.mem_map]
  exact ⟨c, FirstSeen.mem_addAll.mpr (.inr h), rfl⟩

theorem not_mem_toDigits {c : Char} (hc : c.isDigit = false) (n : ℕ) : c ∉ Nat.toDigits 10 n := by
  intro h
  rw [Nat.isDigit_of_mem_toDigits (by decide) (by decide) h] at hc
  exact nomatch hc

theorem bar_notMem_bits (bits : List Bool) : '|' ∉ bits.map bit := by
  simp only [List.mem_map, not_exists, not_and]
  intro b _
  cases b <;> decide

theorem bits_read (bits : List Bool) : (bits.map bit).map (fun c => decide (c = '1')) = bits := by
  induction bits with
  | nil => rfl
  | cons b bits ih =>
    rw [List.map_cons, List.map_cons, ih]
    cases b <;> rfl

theorem readEntry_entry (c : Text) (n : ℕ) : readEntry (entry (c, n)) = some (c, (n : ℤ)) := by
  rw [readEntry, entry, intText_natCast, rpartitionAt_append c (not_mem_toDigits (by decide) n), int?_decimal]
  rfl

theorem entry_ne_nil (e : Text × ℤ) : entry e ≠ [] := by simp [entry]

theorem join_entries_ne_nil {es : List (Text × ℤ)} (h : es ≠ []) : join [','] (es.map entry) ≠ [] := by
  cases es with
  | nil => exact absurd rfl h
  | cons e es =>
    cases es with
    | nil => exact entry_ne_nil e
    | cons e' es => simp [join, entry_ne_nil e]

theorem count_comma_entry (c : Text) (n : ℕ) : (entry (c, n)).count ',' = c.count ',' := by
  rw [entry, intText_natCast, List.count_append, List.count_cons_of_ne (by decide),
    List.count_eq_zero_of_not_mem (not_mem_toDigits (by decide) n)]
  rfl

theorem readEntries_entries {es : List (Text × ℤ)} (h : ∀ e ∈ es, ∃ n : ℕ, e.2 = n) :
    readEntries (es.map entry) = some es := by
  induction es with
  | nil => rfl
  | cons e es ih =>
    rw [List.forall_mem_cons] at h
    obtain ⟨⟨n, hn⟩, hrest⟩ := h
    have he : e = (e.1, (n : ℤ)) := by rw [← hn]
    rw [List.map_cons, readEntries, ih hrest, he, readEntry_entry]
    rfl

theorem length_readEntries {parts : List Text} {es : List (Text × ℤ)} (h : readEntries parts = some es) :
    es.length = parts.length := by
  induction parts generalizing es with
  | nil =>
    cases h
    rfl
  | cons part parts ih =>
    rw [readEntries] at h
    cases hpart : readEntry part with
    | none => rw [hpart] at h; exact nomatch h
    | some e =>
      rw [hpart] at h
      obtain ⟨rest, hrest, rfl⟩ := Option.map_eq_some_iff.mp h
      rw [List.length_cons, List.length_cons, ih hrest]

theorem decode_encode_eq (s : BehaviorSignature) :
    decode s.encode = (if s.errorHistogram = [] then some []
      else readEntries ((join [','] (s.errorHistogram.map entry)).splitOn ',')).map fun histogram =>
        { passVector := s.passVector, errorHistogram := histogram } := by
  rw [decode, encode, partitionAt_append _ (bar_notMem_bits _), bits_read]
  dsimp only
  by_cases hempty : s.errorHistogram = []
  · rw [hempty]
    rfl
  · rw [if_neg hempty, if_neg (join_entries_ne_nil hempty)]

def CommaFree (f : StructuredFeedback) : Prop := ∀ i ∈ f.items, i.passed = false → ',' ∉ i.errorCategory

theorem commaFree_iff : CommaFree f ↔ ∀ c ∈ f.categories, ',' ∉ c := by
  constructor
  · intro h c hc
    obtain ⟨i, hi, rfl⟩ := List.mem_map.mp hc
    rw [List.mem_filter, Bool.not_eq_true'] at hi
    split
    · decide
    · exact h i hi.1 hi.2
  · intro h i hi hfailed hcomma
    have hne : i.errorCategory ≠ [] := List.ne_nil_of_mem hcomma
    have hmem : i.errorCategory ∈ f.categories :=
      List.mem_map.mpr ⟨i, List.mem_filter.mpr ⟨hi, by rw [hfailed]; rfl⟩, if_neg hne⟩
    exact h _ hmem hcomma

theorem decode_encode_iff (f : StructuredFeedback) : decode f.signature.encode = some f.signature ↔ CommaFree f := by
  rw [commaFree_iff, decode_encode_eq]
  have hcounts : ∀ e ∈ f.signature.errorHistogram, ∃ n : ℕ, e.2 = n := fun e he => (mem_histogram he).2
  by_cases hempty : f.signature.errorHistogram = []
  · refine iff_of_true ?_ fun c hc => ?_
    · rw [if_pos hempty, Option.map_some, ← hempty]
    · obtain ⟨v, hv⟩ := exists_histogram hc
      rw [hempty] at hv
      exact absurd hv List.not_mem_nil
  · rw [if_neg hempty]
    constructor
    · intro h c hc hcomma
      obtain ⟨histogram, hread, hsame⟩ := Option.map_eq_some_iff.mp h
      have hhistogram : histogram = f.signature.errorHistogram := congrArg BehaviorSignature.errorHistogram hsame
      have hlength := length_readEntries hread
      rw [hhistogram, length_splitOn_join _ (by simpa using hempty), List.length_map, List.map_map] at hlength
      obtain ⟨v, hv⟩ := exists_histogram hc
      obtain ⟨n, hn⟩ := hcounts _ hv
      have hpart : (entry (c, v)).count ',' ∈ f.signature.errorHistogram.map (List.count ',' ∘ entry) :=
        List.mem_map.mpr ⟨_, hv, rfl⟩
      have hle := List.le_sum_of_mem hpart
      have hzero : (entry (c, v)).count ',' = 0 := by omega
      change v = n at hn
      rw [hn, count_comma_entry] at hzero
      exact List.count_eq_zero.mp hzero hcomma
    · intro h
      have hfree : ∀ t ∈ f.signature.errorHistogram.map entry, ',' ∉ t := by
        intro t ht
        obtain ⟨⟨c, v⟩, he, rfl⟩ := List.mem_map.mp ht
        obtain ⟨hc, n, hn⟩ := mem_histogram he
        change v = n at hn
        rw [hn, ← List.count_eq_zero, count_comma_entry]
        exact List.count_eq_zero.mpr (h c hc)
      rw [splitOn_join_of_free (by simpa using hempty) hfree, readEntries_entries hcounts, Option.map_some]

theorem encode_ne_nil (s : BehaviorSignature) : s.encode ≠ [] := by simp [encode]

theorem signatureOf_recorded (hitems : f.items ≠ []) (h : CommaFree f) : signatureOf (recorded f) = some f.signature := by
  rw [recorded, if_neg hitems, signatureOf, if_neg (encode_ne_nil _), (decode_encode_iff f).mpr h]

theorem markedAmong_encode (threshold : ℤ) (s : BehaviorSignature) {fs : List StructuredFeedback} (h : ∀ f ∈ fs, CommaFree f) :
    markedAmong threshold s (fs.map fun f => f.signature.encode) =
      some (fs.any fun f => (s.hamming f.signature : ℤ) ≤ threshold) := by
  induction fs with
  | nil => rfl
  | cons f fs ih =>
    rw [List.forall_mem_cons] at h
    rw [List.map_cons, markedAmong, (decode_encode_iff f).mpr h.1]
    dsimp only
    by_cases hnear : (s.hamming f.signature : ℤ) ≤ threshold
    · rw [if_pos hnear, List.any_cons, decide_eq_true hnear, Bool.true_or]
    · rw [if_neg hnear, ih h.2, List.any_cons, decide_eq_false hnear, Bool.false_or]

theorem encode_injective (hf : CommaFree f) (hg : CommaFree g) (h : f.signature.encode = g.signature.encode) :
    f.signature = g.signature := by
  have hdecode := congrArg decode h
  rwa [(decode_encode_iff f).mpr hf, (decode_encode_iff g).mpr hg, Option.some.injEq] at hdecode

theorem length_dedup_map {α β γ : Type} [DecidableEq β] [DecidableEq γ] {l : List α} (p : α → β) (q : α → γ)
    (h : ∀ a ∈ l, ∀ b ∈ l, p a = p b ↔ q a = q b) : (l.map p).dedup.length = (l.map q).dedup.length := by
  induction l with
  | nil => rfl
  | cons a l ih =>
    have hrest := ih fun b hb c hc => h b (List.mem_cons_of_mem _ hb) c (List.mem_cons_of_mem _ hc)
    have hmem : p a ∈ l.map p ↔ q a ∈ l.map q := by
      simp only [List.mem_map]
      constructor
      · rintro ⟨b, hb, heq⟩
        exact ⟨b, hb, (h b (List.mem_cons_of_mem _ hb) a List.mem_cons_self).mp heq⟩
      · rintro ⟨b, hb, heq⟩
        exact ⟨b, hb, (h b (List.mem_cons_of_mem _ hb) a List.mem_cons_self).mpr heq⟩
    by_cases ha : p a ∈ l.map p
    · rw [List.map_cons, List.map_cons, List.dedup_cons_of_mem ha, List.dedup_cons_of_mem (hmem.mp ha), hrest]
    · rw [List.map_cons, List.map_cons, List.dedup_cons_of_notMem ha,
        List.dedup_cons_of_notMem fun hq => ha (hmem.mpr hq), List.length_cons, List.length_cons, hrest]

structure ViewsAgree (fs : List StructuredFeedback) : Prop where
  round : ∀ f ∈ fs, decode f.signature.encode = some f.signature
  injective : ∀ f ∈ fs, ∀ g ∈ fs, f.signature.encode = g.signature.encode → f.signature = g.signature
  hamming : ∀ f ∈ fs, ∀ g ∈ fs, ((decode f.signature.encode).bind fun a =>
    (decode g.signature.encode).map a.hamming) = some (f.signature.hamming g.signature)
  duplicate : ∀ threshold : ℤ, ∀ f ∈ fs, behaviorDuplicate threshold f.signature.encode
    (fs.map fun g => g.signature.encode) = some (fs.any fun g => (f.signature.hamming g.signature : ℤ) ≤ threshold)
  complementary : ∀ f ∈ fs, ∀ g ∈ fs, storedComplementarity (recorded f) (recorded g) =
    complementarity f.signature g.signature
  distinct : distinctSignatures (fs.map fun f => f.signature.encode) =
    (fs.map StructuredFeedback.signature).dedup.length

/-- The stored texts tell as much as the signatures exactly when no category of a failed item has a comma. -/
theorem viewsAgree_iff (fs : List StructuredFeedback) : ViewsAgree fs ↔ ∀ f ∈ fs, CommaFree f := by
  constructor
  · intro h f hf
    exact (decode_encode_iff f).mp (h.round f hf)
  · intro h
    have hround : ∀ f ∈ fs, decode f.signature.encode = some f.signature := fun f hf => (decode_encode_iff f).mpr (h f hf)
    have hinjective : ∀ f ∈ fs, ∀ g ∈ fs, f.signature.encode = g.signature.encode → f.signature = g.signature :=
      fun f hf g hg => encode_injective (h f hf) (h g hg)
    refine ⟨hround, hinjective, ?_, ?_, ?_, ?_⟩
    · intro f hf g hg
      rw [hround f hf, hround g hg]
      rfl
    · intro threshold f hf
      rw [behaviorDuplicate, hround f hf]
      exact markedAmong_encode threshold f.signature h
    · intro f hf g hg
      have hnone : ∀ f : StructuredFeedback, f.items = [] → f.signature.passVector = [] := by
        intro f hitems
        rw [StructuredFeedback.signature, hitems]
        rfl
      by_cases hfitems : f.items = []
      · rw [recorded, if_pos hfitems, storedComplementarity, complementarity, hnone f hfitems]
        simp [signatureOf]
      · by_cases hgitems : g.items = []
        · have hlength : f.signature.passVector.length ≠ g.signature.passVector.length := by
            rw [hnone g hgitems, StructuredFeedback.signature, List.length_map, List.length_nil]
            exact fun h0 => hfitems (List.length_eq_zero_iff.mp h0)
          rw [complementarity, if_pos hlength, storedComplementarity, signatureOf_recorded hfitems (h f hf), recorded,
            if_pos hgitems, signatureOf]
        · rw [storedComplementarity, signatureOf_recorded hfitems (h f hf), signatureOf_recorded hgitems (h g hg)]
    · exact length_dedup_map _ _ fun f hf g hg => ⟨hinjective f hf g hg, congrArg encode⟩

theorem comma_not_read : ¬ ViewsAgree [⟨[⟨false, "a,b".toList⟩]⟩] := by
  intro h
  have hfree := (decode_encode_iff _).mp (h.round _ List.mem_cons_self)
  exact hfree _ List.mem_cons_self rfl (by decide)

end EvoHarness.Evoplus
