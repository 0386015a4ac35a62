import EvoHarness.Library.JsonReading

/-! Texts of JSON in ASCII: what is not printable ASCII is written as its escape, and read as what it was. -/
namespace EvoHarness.Json
open PyText

def unicodeEscape (n : ℕ) : Text :=
  ['\\', 'u', hexChar (n / 4096), hexChar (n / 256 % 16), hexChar (n / 16 % 16), hexChar (n % 16)]

/-- What `ensure_ascii` makes of a character that `escapeChar` leaves alone. -/
def asciiChar (c : Char) : Text :=
  if c.toNat < 127 then [c]
  else if c.toNat < 0x10000 then unicodeEscape c.toNat
  else unicodeEscape (0xD800 + (c.toNat - 0x10000) / 1024) ++ unicodeEscape (0xDC00 + (c.toNat - 0x10000) % 1024)

def ascii (t : Text) : Text := t.flatMap asciiChar

def dumpsAscii (x : Value) : Text := ascii (render x)

theorem ascii_cons (c : Char) (t : Text) : ascii (c :: t) = asciiChar c ++ ascii t := List.flatMap_cons

theorem ascii_append (t u : Text) : ascii (t ++ u) = ascii t ++ ascii u := List.flatMap_append

theorem asciiChar_low {c : Char} (h : c.toNat < 127) : asciiChar c = [c] := if_pos h

theorem asciiChar_high {c : Char} (h : ¬ c.toNat < 127) : ∃ t, asciiChar c = '\\' :: t := by
  rw [asciiChar, if_neg h]
  split
  · exact ⟨_, rfl⟩
  · exact ⟨_, rfl⟩

theorem ascii_low {t : Text} (h : ∀ c ∈ t, c.toNat < 127) : ascii t = t := by
  induction t with
  | nil => rfl
  | cons c t ih =>
    rw [List.forall_mem_cons] at h
    rw [ascii_cons, asciiChar_low h.1, ih h.2]
    rfl

theorem hexDigits_sum {n : ℕ} (h : n < 0x10000) :
    16 * (16 * (16 * (16 * 0 + n / 4096) + n / 256 % 16) + n / 16 % 16) + n % 16 = n := by omega

theorem readString_hex {n : ℕ} (hn : n < 0x10000) (t : Text) : readString .plain (unicodeEscape n ++ t) =
    if n.isValidChar then (readString .plain t).map fun p => (Char.ofNat n :: p.1, p.2)
    else if isHighSurrogate n then readString (.half n) t
    else none := by
  have h₁ := hexValue_hexChar (show n / 4096 < 16 by omega)
  have h₂ := hexValue_hexChar (show n / 256 % 16 < 16 by omega)
  have h₃ := hexValue_hexChar (show n / 16 % 16 < 16 by omega)
  have h₄ := hexValue_hexChar (show n % 16 < 16 by omega)
  have hu : ('\\' : Char) ≠ '"' := by decide
  simp only [unicodeEscape, List.cons_append, List.nil_append, readString, hu, if_false, if_true, h₁, h₂, h₃, h₄,
    Nat.reduceLT, Nat.reduceAdd, Nat.lt_irrefl, hexDigits_sum hn]

theorem readString_hexLow {high n : ℕ} (hn : n < 0x10000) (hlow : isLowSurrogate n = true) (t : Text) :
    readString (.half high) (unicodeEscape n ++ t) = (readString .plain t).map fun p =>
      (Char.ofNat (0x10000 + 1024 * (high - 0xD800) + (n - 0xDC00)) :: p.1, p.2) := by
  have h₁ := hexValue_hexChar (show n / 4096 < 16 by omega)
  have h₂ := hexValue_hexChar (show n / 256 % 16 < 16 by omega)
  have h₃ := hexValue_hexChar (show n / 16 % 16 < 16 by omega)
  have h₄ := hexValue_hexChar (show n % 16 < 16 by omega)
  simp only [unicodeEscape, List.cons_append, List.nil_append, readString, if_true, h₁, h₂, h₃, h₄,
    Nat.reduceLT, Nat.reduceAdd, Nat.lt_irrefl, if_false, hexDigits_sum hn, hlow]

theorem readString_asciiChar {c : Char} (h : ¬ c.toNat < 127) (t : Text) :
    readString .plain (asciiChar c ++ t) = (readString .plain t).map fun p => (c :: p.1, p.2) := by
  have hvalid : c.toNat.isValidChar := c.valid
  rw [asciiChar, if_neg h]
  split
  · next hplane => rw [readString_hex hplane, if_pos hvalid, Char.ofNat_toNat]
  · next hplane =>
    have hmax : c.toNat < 0x110000 := by
      rcases hvalid with hvalid | hvalid
      · omega
      · exact hvalid.2
    have hhigh : ¬ (0xD800 + (c.toNat - 0x10000) / 1024).isValidChar := by
      unfold Nat.isValidChar
      omega
    have hsurrogate : isHighSurrogate (0xD800 + (c.toNat - 0x10000) / 1024) = true := by
      simp only [isHighSurrogate, Bool.and_eq_true, decide_eq_true_eq]
      omega
    have hlow : isLowSurrogate (0xDC00 + (c.toNat - 0x10000) % 1024) = true := by
      simp only [isLowSurrogate, Bool.and_eq_true, decide_eq_true_eq]
      omega
    have hsum : 0x10000 + 1024 * (0xD800 + (c.toNat - 0x10000) / 1024 - 0xD800) +
        (0xDC00 + (c.toNat - 0x10000) % 1024 - 0xDC00) = c.toNat := by omega
    rw [List.append_assoc, readString_hex (by omega), if_neg hhigh, if_pos hsurrogate, readString_hexLow (by omega) hlow,
      hsum, Char.ofNat_toNat]

theorem hexValue_low {c : Char} {n : ℕ} (h : hexValue c = some n) : c.toNat < 127 := by
  unfold hexValue isDigit at h
  simp only [Char.le_def, UInt32.le_iff_toNat_le, Bool.and_eq_true, decide_eq_true_eq] at h
  have h9 : ('9' : Char).val.toNat = 57 := rfl
  have hf : ('f' : Char).val.toNat = 102 := rfl
  have hF : ('F' : Char).val.toNat = 70 := rfl
  have hval : c.val.toNat = c.toNat := rfl
  split at h
  · omega
  · split at h
    · omega
    · split at h
      · omega
      · cases h

theorem unescape_low {c d : Char} (h : unescape c = some d) : c.toNat < 127 := by
  unfold unescape at h
  split at h
  · next hc => rcases hc with rfl | rfl | rfl <;> decide
  · split at h
    · next hc => subst hc; decide
    · split at h
      · next hc => subst hc; decide
      · split at h
        · next hc => subst hc; decide
        · split at h
          · next hc => subst hc; decide
          · split at h
            · next hc => subst hc; decide
            · exact nomatch h

theorem low_of_escape {r : Reading} {c : Char} {t : Text} {p : Text × Text} (h : readString r (c :: t) = some p)
    (hr : r ≠ .plain) : c.toNat < 127 := by
  cases r with
  | plain => exact absurd rfl hr
  | escaped =>
    rw [readString] at h
    split at h
    · next hc => subst hc; decide
    · split at h
      · cases h
      · next hd => exact unescape_low hd
  | hex digits value =>
    rw [readString] at h
    split at h
    · cases h
    · next hd => exact hexValue_low hd
  | half high =>
    rw [readString] at h
    split at h
    · next hc => subst hc; decide
    · cases h
  | halfEscaped high =>
    rw [readString] at h
    split at h
    · next hc => subst hc; decide
    · cases h
  | hexLow high digits value =>
    rw [readString] at h
    split at h
    · cases h
    · next hd => exact hexValue_low hd

theorem readString_ascii {t : Text} : ∀ {r : Reading} {s rest : Text}, readString r t = some (s, rest) →
    readString r (ascii t) = some (s, ascii rest) := by
  induction t with
  | nil =>
    intro r s rest h
    rw [readString] at h
    cases h
  | cons c t ih =>
    intro r s rest h
    have hmap : ∀ d : Char, ((readString .plain t).map fun p => (d :: p.1, p.2)) = some (s, rest) →
        ((readString .plain (ascii t)).map fun p => (d :: p.1, p.2)) = some (s, ascii rest) := by
      intro d hd
      obtain ⟨p, hp, hpair⟩ := Option.map_eq_some_iff.mp hd
      cases hpair
      rw [ih (show readString .plain t = some (p.1, p.2) from hp)]
      rfl
    by_cases hlow : c.toNat < 127
    · rw [ascii_cons, asciiChar_low hlow, List.singleton_append]
      cases r with
      | plain =>
        rw [readString] at h ⊢
        split at h
        · next hc =>
          rw [if_pos hc]
          cases h
          rfl
        · next hc =>
          rw [if_neg hc]
          split at h
          · next hb =>
            rw [if_pos hb]
            exact ih h
          · next hb =>
            rw [if_neg hb]
            split at h
            · cases h
            · next hvisible =>
              rw [if_neg hvisible]
              exact hmap c h
      | escaped =>
        rw [readString] at h ⊢
        split at h
        · next hc =>
          rw [if_pos hc]
          exact ih h
        · next hc =>
          rw [if_neg hc]
          cases hd : unescape c with
          | none =>
            rw [hd] at h
            cases h
          | some d =>
            rw [hd] at h
            exact hmap d h
      | hex digits value =>
        rw [readString] at h ⊢
        cases hd : hexValue c with
        | none =>
          rw [hd] at h
          cases h
        | some d =>
          rw [hd] at h
          dsimp only at h ⊢
          split at h
          · next hlt =>
            rw [if_pos hlt]
            exact ih h
          · next hlt =>
            rw [if_neg hlt]
            split at h
            · next hvalid =>
              rw [if_pos hvalid]
              exact hmap _ h
            · next hvalid =>
              rw [if_neg hvalid]
              split at h
              · next hhigh =>
                rw [if_pos hhigh]
                exact ih h
              · cases h
      | half high =>
        rw [readString] at h ⊢
        split at h
        · next hc =>
          rw [if_pos hc]
          exact ih h
        · cases h
      | halfEscaped high =>
        rw [readString] at h ⊢
        split at h
        · next hc =>
          rw [if_pos hc]
          exact ih h
        · cases h
      | hexLow high digits value =>
        rw [readString] at h ⊢
        cases hd : hexValue c with
        | none =>
          rw [hd] at h
          cases h
        | some d =>
          rw [hd] at h
          dsimp only at h ⊢
          split at h
          · next hlt =>
            rw [if_pos hlt]
            exact ih h
          · next hlt =>
            rw [if_neg hlt]
            split at h
            · next hhalf =>
              rw [if_pos hhalf]
              exact hmap _ h
            · cases h
    · have hplain : r = .plain := not_not.mp fun hr => hlow (low_of_escape h hr)
      subst hplain
      have hquote : c ≠ '"' := fun hc => hlow (by subst hc; decide)
      have hslash : c ≠ '\\' := fun hc => hlow (by subst hc; decide)
      rw [readString, if_neg hquote, if_neg hslash, if_neg (by omega)] at h
      rw [ascii_cons, readString_asciiChar hlow]
      exact hmap c h

theorem span_ascii {p : Char → Bool} (hp : ∀ c, p c = true → c.toNat < 127) (hslash : p '\\' = false) (t : Text) :
    (ascii t).takeWhile p = t.takeWhile p ∧ (ascii t).dropWhile p = ascii (t.dropWhile p) := by
  induction t with
  | nil => exact ⟨rfl, rfl⟩
  | cons c t ih =>
    by_cases hc : p c = true
    · rw [ascii_cons, asciiChar_low (hp c hc), List.singleton_append, List.takeWhile_cons_of_pos hc,
        List.takeWhile_cons_of_pos hc, List.dropWhile_cons_of_pos hc, List.dropWhile_cons_of_pos hc, ih.1, ih.2]
      exact ⟨rfl, rfl⟩
    · rw [List.takeWhile_cons_of_neg hc, List.dropWhile_cons_of_neg hc]
      by_cases hlow : c.toNat < 127
      · rw [ascii_cons, asciiChar_low hlow, List.singleton_append, List.takeWhile_cons_of_neg hc,
          List.dropWhile_cons_of_neg hc]
        exact ⟨rfl, rfl⟩
      · obtain ⟨u, hu⟩ := asciiChar_high hlow
        rw [ascii_cons, hu, List.cons_append, List.takeWhile_cons_of_neg (by rw [hslash]; exact Bool.false_ne_true),
          List.dropWhile_cons_of_neg (by rw [hslash]; exact Bool.false_ne_true)]
        exact ⟨rfl, rfl⟩

theorem isJsonSpace_low {c : Char} (h : isJsonSpace c = true) : c.toNat < 127 := by
  simp only [isJsonSpace, Bool.or_eq_true, decide_eq_true_eq] at h
  rcases h with ((rfl | rfl) | rfl) | rfl <;> decide

theorem skip_ascii (t : Text) : skip (ascii t) = ascii (skip t) := (span_ascii (fun _ => isJsonSpace_low) (by decide) t).2

/-- The ASCII text starts with a character of ASCII other than a backslash when the text does. -/
theorem head_ascii {t : Text} {c : Char} (hlow : c.toNat < 127) (hslash : c ≠ '\\') :
    (ascii t).head? = some c ↔ t.head? = some c := by
  cases t with
  | nil => rfl
  | cons d t =>
    by_cases hd : d.toNat < 127
    · rw [ascii_cons, asciiChar_low hd]
      rfl
    · obtain ⟨u, hu⟩ := asciiChar_high hd
      rw [ascii_cons, hu]
      refine iff_of_false (fun h => hslash (Option.some.inj h).symm) fun h => hd ?_
      rw [Option.some.inj h]
      exact hlow

theorem tail_ascii {t : Text} {c : Char} (hlow : c.toNat < 127) (h : t.head? = some c) : (ascii t).tail = ascii t.tail := by
  cases t with
  | nil => exact nomatch h
  | cons d t =>
    rw [ascii_cons, asciiChar_low (Option.some.inj h ▸ hlow)]
    rfl

theorem readWord_ascii {word t r : Text} {x y : Value} (hword : ∀ c ∈ word, c.toNat < 127)
    (h : readWord word x t = some (y, r)) : readWord word x (ascii t) = some (y, ascii r) := by
  unfold readWord at h ⊢
  split at h
  · next hstart =>
    cases h
    obtain ⟨u, rfl⟩ := List.isPrefixOf_iff_prefix.mp hstart
    rw [ascii_append, ascii_low hword, if_pos (List.isPrefixOf_iff_prefix.mpr (List.prefix_append _ _)),
      List.drop_left, List.drop_left]
  · exact nomatch h

theorem isNumberChar_low {c : Char} (h : isNumberChar c = true) : c.toNat < 127 := by
  have hascii := (isNumberChar_ascii h).2
  by_contra hnot
  have hdel : c = Char.ofNat 127 := by
    rw [← Char.ofNat_toNat c]
    exact congrArg Char.ofNat (by omega)
  rw [hdel] at h
  exact nomatch h

theorem readNumber_ascii {t r : Text} {x : Value} (h : readNumber t = some (x, r)) :
    readNumber (ascii t) = some (x, ascii r) := by
  obtain ⟨htake, hdrop⟩ := span_ascii (fun c hc => isNumberChar_low hc) (by decide) t
  unfold readNumber at h ⊢
  split at h
  · next hnumeral =>
    cases h
    have hsame : isNumeral ((ascii t).takeWhile isNumberChar) = true := htake ▸ hnumeral
    rw [dif_pos hsame, hdrop]
    simp only [htake]
  · cases h

theorem readAtom_ascii {c : Char} {t r : Text} {x : Value} (h : readAtom c t = some (x, r)) :
    readAtom c (ascii t) = some (x, ascii r) := by
  unfold readAtom at h ⊢
  split at h
  · next hc =>
    rw [if_pos hc]
    exact readWord_ascii (by simp) h
  · next hn =>
    rw [if_neg hn]
    split at h
    · next hc =>
      rw [if_pos hc]
      exact readWord_ascii (by simp) h
    · next ht =>
      rw [if_neg ht]
      split at h
      · next hc =>
        rw [if_pos hc]
        exact readWord_ascii (by simp) h
      · next hf =>
        rw [if_neg hf]
        exact readNumber_ascii h

theorem low_of_readValue {n : ℕ} {c : Char} {t r : Text} {x : Value} (h : readValue n (c :: t) = some (x, r)) :
    c.toNat < 127 := by
  cases n with
  | zero => cases h
  | succ n =>
    rw [readValue] at h
    split at h
    · next hc => subst hc; decide
    · split at h
      · next hc => subst hc; decide
      · split at h
        · next hc => subst hc; decide
        · unfold readAtom at h
          split at h
          · next hc => subst hc; decide
          · split at h
            · next hc => subst hc; decide
            · split at h
              · next hc => subst hc; decide
              · unfold readNumber at h
                split at h
                · next hnumeral =>
                  by_contra hhigh
                  have hnot : ¬ isNumberChar c = true := fun hc => hhigh (isNumberChar_low hc)
                  rw [List.takeWhile_cons_of_neg hnot] at hnumeral
                  cases hnumeral
                · cases h

theorem skip_tail_ascii {t : Text} {c : Char} (hlow : c.toNat < 127) (h : (skip t).head? = some c) :
    (skip (ascii t)).tail = ascii (skip t).tail := by
  rw [skip_ascii, tail_ascii hlow h]

theorem head_skip_ascii {t : Text} {c : Char} (hlow : c.toNat < 127) (hslash : c ≠ '\\') :
    (skip (ascii t)).head? = some c ↔ (skip t).head? = some c := by
  rw [skip_ascii, head_ascii hlow hslash]

theorem read_ascii (n : ℕ) :
    (∀ (t : Text) (x : Value) (r : Text), readValue n t = some (x, r) → readValue n (ascii t) = some (x, ascii r)) ∧
    (∀ (t : Text) (xs : List Value) (r : Text), readItems n t = some (xs, r) →
      readItems n (ascii t) = some (xs, ascii r)) ∧
    (∀ (t : Text) (ps : List (Text × Value)) (r : Text), readMembers n t = some (ps, r) →
      readMembers n (ascii t) = some (ps, ascii r)) := by
  have hbrace : ('\x7d' : Char).toNat < 127 ∧ ('\x7d' : Char) ≠ '\\' := by decide
  have hbracket : (']' : Char).toNat < 127 ∧ (']' : Char) ≠ '\\' := by decide
  have hcomma : (',' : Char).toNat < 127 ∧ (',' : Char) ≠ '\\' := by decide
  have hcolon : (':' : Char).toNat < 127 ∧ (':' : Char) ≠ '\\' := by decide
  induction n with
  | zero =>
    refine ⟨?_, ?_, ?_⟩ <;>
      · intro t x r h
        cases h
  | succ n ih =>
    obtain ⟨hvalue, hitems, hmembers⟩ := ih
    refine ⟨?_, ?_, ?_⟩
    · intro t x r h
      cases t with
      | nil => cases h
      | cons c t =>
        have hlow := low_of_readValue h
        have hwhole : ascii (c :: t) = c :: ascii t := by rw [ascii_cons, asciiChar_low hlow]; rfl
        rw [hwhole]
        rw [readValue] at h ⊢
        split at h
        · next hc =>
          rw [if_pos hc]
          obtain ⟨p, hp, hpair⟩ := Option.map_eq_some_iff.mp h
          cases hpair
          rw [readString_ascii (show readString .plain t = some (p.1, p.2) from hp)]
          rfl
        next hquote =>
        rw [if_neg hquote]
        split at h
        · next hc =>
          rw [if_pos hc]
          split at h
          · next hclose =>
            rw [if_pos ((head_skip_ascii hbrace.1 hbrace.2).mpr hclose), skip_tail_ascii hbrace.1 hclose]
            cases h
            rfl
          · next hclose =>
            obtain ⟨p, hp, hpair⟩ := Option.map_eq_some_iff.mp h
            cases hpair
            rw [if_neg (mt (head_skip_ascii hbrace.1 hbrace.2).mp hclose), skip_ascii, hmembers _ p.1 p.2 hp]
            rfl
        next hopen =>
        rw [if_neg hopen]
        split at h
        · next hc =>
          rw [if_pos hc]
          split at h
          · next hclose =>
            rw [if_pos ((head_skip_ascii hbracket.1 hbracket.2).mpr hclose), skip_tail_ascii hbracket.1 hclose]
            cases h
            rfl
          · next hclose =>
            obtain ⟨p, hp, hpair⟩ := Option.map_eq_some_iff.mp h
            cases hpair
            rw [if_neg (mt (head_skip_ascii hbracket.1 hbracket.2).mp hclose), skip_ascii, hitems _ p.1 p.2 hp]
            rfl
        · next hlist =>
          rw [if_neg hlist, ← hwhole]
          exact readAtom_ascii h
    · intro t xs r h
      rw [readItems] at h ⊢
      obtain ⟨p, hp, h⟩ := Option.bind_eq_some_iff.mp h
      rw [hvalue t p.1 p.2 hp, Option.bind_some]
      dsimp only
      split at h
      · next hclose =>
        rw [if_pos ((head_skip_ascii hbracket.1 hbracket.2).mpr hclose), skip_tail_ascii hbracket.1 hclose]
        cases h
        rfl
      next hclose =>
      rw [if_neg (mt (head_skip_ascii hbracket.1 hbracket.2).mp hclose)]
      split at h
      · next hnext =>
        obtain ⟨q, hq, hpair⟩ := Option.map_eq_some_iff.mp h
        cases hpair
        rw [if_pos ((head_skip_ascii hcomma.1 hcomma.2).mpr hnext), skip_tail_ascii hcomma.1 hnext, skip_ascii,
          hitems _ q.1 q.2 hq]
        rfl
      · cases h
    · intro t ps r h
      cases t with
      | nil => cases h
      | cons c t =>
        rw [readMembers] at h
        split at h
        · next hc =>
          subst hc
          have hwhole : ascii ('"' :: t) = '"' :: ascii t := by rw [ascii_cons, asciiChar_low (by decide)]; rfl
          obtain ⟨key, hkey, h⟩ := Option.bind_eq_some_iff.mp h
          rw [hwhole, readMembers, if_pos rfl,
            readString_ascii (show readString .plain t = some (key.1, key.2) from hkey), Option.bind_some]
          dsimp only
          split at h
          · next hafter =>
            obtain ⟨p, hp, h⟩ := Option.bind_eq_some_iff.mp h
            rw [if_pos ((head_skip_ascii hcolon.1 hcolon.2).mpr hafter), skip_tail_ascii hcolon.1 hafter, skip_ascii,
              hvalue _ p.1 p.2 hp, Option.bind_some]
            dsimp only
            split at h
            · next hclose =>
              rw [if_pos ((head_skip_ascii hbrace.1 hbrace.2).mpr hclose), skip_tail_ascii hbrace.1 hclose]
              cases h
              rfl
            next hclose =>
            rw [if_neg (mt (head_skip_ascii hbrace.1 hbrace.2).mp hclose)]
            split at h
            · next hnext =>
              obtain ⟨q, hq, hpair⟩ := Option.map_eq_some_iff.mp h
              cases hpair
              rw [if_pos ((head_skip_ascii hcomma.1 hcomma.2).mpr hnext), skip_tail_ascii hcomma.1 hnext, skip_ascii,
                hmembers _ q.1 q.2 hq]
              rfl
            · cases h
          · cases h
        · cases h

variable {x : Value} {t u : Text}

theorem readValue_render (hx : Distinct x) (n : ℕ) (hn : 2 * (render x).length + 1 ≤ n) :
    readValue n (render x) = some (x, []) := by
  have hread := readsBack blank_pad x hx n [] (by rwa [← render_eq_write]) fun c hc => nomatch hc
  rwa [List.append_nil, ← render_eq_write] at hread

theorem dumpsAscii_head (hobj : IsObject x) : ∃ v, dumpsAscii x = '\x7b' :: v := by
  obtain ⟨v, hv⟩ : ∃ v, render x = '\x7b' :: v := render_object hobj
  exact ⟨ascii v, by rw [dumpsAscii, hv, ascii_cons, asciiChar_low (by decide)]; rfl⟩

theorem readValue_dumpsAscii (hx : Distinct x) (n : ℕ) (hn : 2 * (render x).length + 1 ≤ n) :
    readValue n (dumpsAscii x) = some (x, []) :=
  (read_ascii n).1 _ _ _ (readValue_render hx n hn)

theorem length_ascii (t : Text) : t.length ≤ (ascii t).length := by
  induction t with
  | nil => exact le_refl 0
  | cons c t ih =>
    have hone : 1 ≤ (asciiChar c).length := by
      by_cases hc : c.toNat < 127
      · rw [asciiChar_low hc]
        exact le_refl 1
      · obtain ⟨v, hv⟩ := asciiChar_high hc
        rw [hv]
        exact Nat.succ_le_succ (Nat.zero_le _)
    rw [ascii_cons, List.length_append, List.length_cons]
    omega

theorem loads_dumpsAscii (hx : Distinct x) (hobj : IsObject x) : loads (dumpsAscii x) = some x := by
  obtain ⟨v, hv⟩ := dumpsAscii_head hobj
  have hlength := length_ascii (render x)
  have hread := readValue_dumpsAscii hx (2 * (dumpsAscii x).length + 2) (by
    change 2 * (render x).length + 1 ≤ 2 * (ascii (render x)).length + 2
    omega)
  have hskip : skip (dumpsAscii x) = dumpsAscii x := by
    rw [hv]
    exact skip_cons _ (by decide)
  rw [loads, hskip, hread]
  rfl

theorem loads_start {text : Text} {n : ℕ} (hread : readValue n text = some (x, [])) (hbrace : ∃ v, text = '\x7b' :: v)
    (htu : t ++ u = text) (hu : u ≠ []) : loads t = none := by
  obtain ⟨v, hv⟩ := hbrace
  by_contra hsome
  obtain ⟨y, hy⟩ := Option.ne_none_iff_exists'.mp hsome
  unfold loads at hy
  obtain ⟨p, hp, -⟩ := Option.bind_eq_some_iff.mp hy
  cases t with
  | nil =>
    rw [show skip [] = [] from rfl, readValue_nil] at hp
    exact nomatch hp
  | cons c t =>
    have hc : c = '\x7b' := by
      rw [hv, List.cons_append] at htu
      exact (List.cons.inj htu).1
    subst hc
    rw [skip_cons _ (by decide)] at hp
    have hgoes := (read_append _).1 _ p.1 p.2 hp (fun _ => readValue_object hp)
      (max n (2 * ('\x7b' :: t).length + 2)) u (le_max_right _ _)
    have hwhole := (read_append n).1 _ x [] hread (fun _ => readValue_object (hv ▸ hread))
      (max n (2 * ('\x7b' :: t).length + 2)) [] (le_max_left _ _)
    rw [htu] at hgoes
    rw [List.append_nil, hgoes] at hwhole
    have hrest := (Prod.mk.inj (Option.some.inj hwhole)).2
    exact hu (List.append_eq_nil_iff.mp hrest).2

theorem loads_dumpsAscii_start (hx : Distinct x) (hobj : IsObject x) (htu : t ++ u = dumpsAscii x) (hu : u ≠ []) :
    loads t = none :=
  loads_start (readValue_dumpsAscii hx _ (le_refl _)) (dumpsAscii_head hobj) htu hu

theorem hexChar_visible {n : ℕ} (h : n < 16) : 32 ≤ (hexChar n).toNat ∧ (hexChar n).toNat < 127 := by
  have hall : ∀ m < 16, 32 ≤ (hexChar m).toNat ∧ (hexChar m).toNat < 127 := by decide
  exact hall n h

theorem unicodeEscape_visible {n : ℕ} (hn : n < 0x10000) : ∀ c ∈ unicodeEscape n, 32 ≤ c.toNat ∧ c.toNat < 127 := by
  unfold unicodeEscape
  simp only [List.forall_mem_cons]
  refine ⟨by decide, by decide, hexChar_visible (by omega), hexChar_visible (by omega), hexChar_visible (by omega),
    hexChar_visible (by omega), fun c hc => absurd hc List.not_mem_nil⟩

theorem asciiChar_visible {d : Char} (hd : 32 ≤ d.toNat) : ∀ c ∈ asciiChar d, 32 ≤ c.toNat ∧ c.toNat < 127 := by
  have hmax : d.toNat < 0x110000 := by
    have hvalid : d.toNat.isValidChar := d.valid
    rcases hvalid with hvalid | hvalid
    · omega
    · exact hvalid.2
  unfold asciiChar
  split
  · next hlow =>
    intro c hc
    rw [List.mem_singleton.mp hc]
    exact ⟨hd, hlow⟩
  · split
    · next hplane => exact unicodeEscape_visible hplane
    · intro c hc
      rcases List.mem_append.mp hc with hc | hc
      · exact unicodeEscape_visible (by omega) c hc
      · exact unicodeEscape_visible (by omega) c hc

theorem dumpsAscii_visible (x : Value) : ∀ c ∈ dumpsAscii x, 32 ≤ c.toNat ∧ c.toNat < 127 := by
  intro c hc
  obtain ⟨d, hd, hcd⟩ := List.mem_flatMap.mp hc
  exact asciiChar_visible (render_visible x d hd) c hcd

end EvoHarness.Json
