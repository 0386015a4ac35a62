import Mathlib.Data.List.DropRight
import EvoHarness.Library.PyText

/-! The bytes of a text, and the lines of bytes. -/
namespace EvoHarness.PyBytes
open PyText

abbrev Bytes := List UInt8

def encode (t : Text) : Bytes := t.flatMap String.utf8EncodeChar

def decode (b : Bytes) : Option Text := b.toByteArray.utf8Decode?.map Array.toList

def splitlinesFrom : Bytes → Bytes → List Bytes
  | line, [] => if line = [] then [] else [line]
  | line, [c] => if c = 10 ∨ c = 13 then [line] else [line ++ [c]]
  | line, c :: d :: rest =>
    if c = 13 ∧ d = 10 then line :: splitlinesFrom [] rest
    else if c = 10 ∨ c = 13 then line :: splitlinesFrom [] (d :: rest)
    else splitlinesFrom (line ++ [c]) (d :: rest)

def splitlines (b : Bytes) : List Bytes := splitlinesFrom [] b

def isBlank (b : Bytes) : Bool := b.all fun c => c = 32 || 9 ≤ c && c ≤ 13

theorem encode_append (t u : Text) : encode (t ++ u) = encode t ++ encode u := List.flatMap_append

theorem encode_toByteArray (t : Text) : (encode t).toByteArray = t.utf8Encode := rfl

theorem decode_encode (t : Text) : decode (encode t) = some t := by
  rw [decode, encode_toByteArray, List.utf8Decode?_utf8Encode]
  rfl

theorem encode_of_decode {b : Bytes} {t : Text} (h : decode b = some t) : encode t = b := by
  obtain ⟨a, ha, rfl⟩ := Option.map_eq_some_iff.mp h
  have hsome : b.toByteArray.utf8Decode?.isSome := by rw [ha]; rfl
  have hget := ByteArray.utf8Encode_get_utf8Decode? (b := b.toByteArray) (h := hsome)
  simp only [ha, Option.get_some] at hget
  rw [← encode_toByteArray] at hget
  exact List.toByteArray_inj.mp hget

theorem prefix_of_utf8Encode {t : Text} : ∀ {l : Text} {b : ByteArray}, t.utf8Encode ++ b = l.utf8Encode → t <+: l := by
  induction t with
  | nil =>
    intro l b _
    exact List.nil_prefix
  | cons c t ih =>
    intro l b h
    rw [List.utf8Encode_cons, ByteArray.append_assoc] at h
    cases l with
    | nil =>
      have hchar := List.utf8DecodeChar?_utf8Encode_singleton_append (b := t.utf8Encode ++ b) (c := c)
      rw [h] at hchar
      have hlt := ByteArray.lt_size_of_isSome_utf8DecodeChar? (b := [].utf8Encode) (i := 0) (by rw [hchar]; rfl)
      simp at hlt
    | cons d l =>
      have hchar := List.utf8DecodeChar?_utf8Encode_singleton_append (b := t.utf8Encode ++ b) (c := c)
      rw [h, List.utf8DecodeChar?_utf8Encode_cons] at hchar
      obtain rfl := Option.some.inj hchar
      rw [List.utf8Encode_cons (l := l)] at h
      exact List.cons_prefix_cons.mpr ⟨rfl, ih ((ByteArray.append_right_inj _).mp h)⟩

theorem prefix_of_encode {t l : Text} {b : Bytes} (h : encode t ++ b = encode l) : t <+: l := by
  have hbytes := congrArg List.toByteArray h
  rw [List.toByteArray_append, encode_toByteArray, encode_toByteArray] at hbytes
  exact prefix_of_utf8Encode hbytes

theorem mem_encodeChar {c : Char} {b : UInt8} (hb : b.toNat < 128) (h : b ∈ String.utf8EncodeChar c) :
    c.toNat = b.toNat := by
  have hlead : ∀ n, 128 ≤ n → n < 256 → b ≠ UInt8.ofNat n := by
    intro n hlow hhigh heq
    rw [heq, UInt8.toNat_ofNat'] at hb
    omega
  unfold String.utf8EncodeChar at h
  dsimp only at h
  split at h
  · rename_i hsmall
    rw [List.mem_singleton.mp h, UInt8.toNat_ofNat']
    exact (Nat.mod_eq_of_lt (Nat.lt_of_le_of_lt hsmall (by omega))).symm
  · split at h
    · simp only [List.mem_cons, List.not_mem_nil, or_false] at h
      cases h with
      | inl h => exact absurd h (hlead _ (by omega) (by omega))
      | inr h => exact absurd h (hlead _ (by omega) (by omega))
    · split at h
      · simp only [List.mem_cons, List.not_mem_nil, or_false] at h
        obtain h | h | h := h
        · exact absurd h (hlead _ (by omega) (by omega))
        · exact absurd h (hlead _ (by omega) (by omega))
        · exact absurd h (hlead _ (by omega) (by omega))
      · simp only [List.mem_cons, List.not_mem_nil, or_false] at h
        obtain h | h | h | h := h
        · exact absurd h (hlead _ (by omega) (by omega))
        · exact absurd h (hlead _ (by omega) (by omega))
        · exact absurd h (hlead _ (by omega) (by omega))
        · exact absurd h (hlead _ (by omega) (by omega))

theorem mem_encode {t : Text} {b : UInt8} (hb : b.toNat < 128) (h : b ∈ encode t) : ∃ c ∈ t, c.toNat = b.toNat := by
  obtain ⟨c, hc, hmem⟩ := List.mem_flatMap.mp h
  exact ⟨c, hc, mem_encodeChar hb hmem⟩

theorem encode_newline : encode ['\n'] = [10] := by decide +kernel

def Unbroken (b : Bytes) : Prop := ∀ c ∈ b, c ≠ 10 ∧ c ≠ 13

theorem splitlines_cons {line : Bytes} (rest : Bytes) (h : Unbroken line) :
    splitlines (line ++ 10 :: rest) = line :: splitlines rest := by
  have hfrom : ∀ (b acc : Bytes), Unbroken b →
      splitlinesFrom acc (b ++ 10 :: rest) = (acc ++ b) :: splitlinesFrom [] rest := by
    intro b
    induction b with
    | nil =>
      intro acc _
      cases rest with
      | nil => simp [splitlinesFrom]
      | cons d rest => simp [splitlinesFrom]
    | cons c b ih =>
      intro acc hb
      obtain ⟨hc, hb⟩ := List.forall_mem_cons.mp hb
      have hrest := ih (acc ++ [c]) hb
      rw [List.append_assoc, List.singleton_append] at hrest
      rw [← hrest]
      cases b with
      | nil => simp [splitlinesFrom, hc]
      | cons d b => simp [splitlinesFrom, hc]
  exact hfrom line [] h

theorem splitlines_lines {lines : List Bytes} (h : ∀ line ∈ lines, Unbroken line) :
    splitlines (lines.flatMap fun line => line ++ [10]) = lines := by
  induction lines with
  | nil => rfl
  | cons line lines ih =>
    obtain ⟨hline, hlines⟩ := List.forall_mem_cons.mp h
    rw [List.flatMap_cons, List.append_assoc, List.singleton_append, splitlines_cons _ hline, ih hlines]

def Ended (b : Bytes) : Prop := ∀ c ∈ b.getLast?, c = 10

instance (b : Bytes) : Decidable (Ended b) := inferInstanceAs (Decidable (∀ c ∈ b.getLast?, c = 10))

theorem ended_lines (lines : List Bytes) : Ended (lines.flatMap fun line => line ++ [10]) := by
  cases lines using List.reverseRec with
  | nil =>
    intro c hc
    exact nomatch hc
  | append_singleton lines line =>
    intro c hc
    rw [List.flatMap_append, List.flatMap_singleton, ← List.append_assoc, List.getLast?_concat] at hc
    exact (Option.some.inj hc).symm

theorem rtakeWhile_tail {b tail : Bytes} (hb : Ended b) (h : Unbroken tail) :
    (b ++ tail).rtakeWhile (· ≠ 10) = tail := by
  induction tail using List.reverseRec with
  | nil =>
    rw [List.append_nil, List.rtakeWhile_eq_nil_iff]
    intro hne hlast
    have hten := hb _ (List.getLast?_eq_some_getLast hne)
    exact absurd hten (of_decide_eq_true hlast)
  | append_singleton tail c ih =>
    have hc := h c (by simp)
    rw [← List.append_assoc, List.rtakeWhile_concat_pos _ _ _ (by simpa using hc.1)]
    rw [ih fun d hd => h d (List.mem_append_left _ hd)]

theorem rdropWhile_tail {b tail : Bytes} (hb : Ended b) (h : Unbroken tail) :
    (b ++ tail).rdropWhile (· ≠ 10) = b := by
  have hwhole := List.rdropWhile_append_rtakeWhile (p := fun c : UInt8 => decide (c ≠ 10)) (l := b ++ tail)
  rw [rtakeWhile_tail hb h] at hwhole
  exact List.append_cancel_right hwhole

end EvoHarness.PyBytes
