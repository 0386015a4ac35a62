import EvoHarness.Library.PyText

/-! JSON texts: what `json.dumps` writes with `ensure_ascii=False, sort_keys=True`, and what
`json.loads` reads. -/
namespace EvoHarness.Json
open PyText

def isDigit (c : Char) : Bool := '0' ≤ c && c ≤ '9'

def isNumberChar (c : Char) : Bool := isDigit c || c = '-' || c = '+' || c = '.' || c = 'e' || c = 'E'

def isExponent : Text → Bool
  | [] => true
  | c :: t =>
    (c = 'e' || c = 'E') &&
      (let digits := if t.head? = some '-' ∨ t.head? = some '+' then t.tail else t
      digits ≠ [] && digits.all isDigit)

def isFraction (t : Text) : Bool :=
  if t.head? = some '.' then t.tail.takeWhile isDigit ≠ [] && isExponent (t.tail.dropWhile isDigit)
  else isExponent t

/-- `-?(0|[1-9][0-9]*)(\.[0-9]+)?([eE][-+]?[0-9]+)?`, as a whole. -/
def isNumeral (t : Text) : Bool :=
  let unsigned := if t.head? = some '-' then t.tail else t
  let digits := unsigned.takeWhile isDigit
  t ≠ [] && t.all isNumberChar && digits ≠ [] && (digits = ['0'] || digits.head? ≠ some '0') &&
    isFraction (unsigned.dropWhile isDigit)

structure Numeral where
  text : Text
  valid : isNumeral text = true
deriving DecidableEq

inductive Value where
  | null
  | bool (b : Bool)
  | number (n : Numeral)
  | string (s : Text)
  | array (xs : List Value)
  | object (ps : List (Text × Value))

def hexChar (n : ℕ) : Char := if n < 10 then Char.ofNat (48 + n) else Char.ofNat (87 + n)

def escapeChar (c : Char) : Text :=
  if c = '"' then ['\\', '"']
  else if c = '\\' then ['\\', '\\']
  else if c = '\n' then ['\\', 'n']
  else if c = '\r' then ['\\', 'r']
  else if c = '\t' then ['\\', 't']
  else if c = '\x08' then ['\\', 'b']
  else if c = '\x0c' then ['\\', 'f']
  else if c.toNat < 32 then ['\\', 'u', '0', '0', hexChar (c.toNat / 16), hexChar (c.toNat % 16)]
  else [c]

def quote (s : Text) : Text := '"' :: (s.flatMap escapeChar ++ ['"'])

mutual

def render : Value → Text
  | .null => "null".toList
  | .bool true => "true".toList
  | .bool false => "false".toList
  | .number n => n.text
  | .string s => quote s
  | .array [] => ['[', ']']
  | .array (x :: xs) => '[' :: (render x ++ renderItems xs)
  | .object [] => ['\x7b', '\x7d']
  | .object ((k, x) :: ps) => '\x7b' :: (quote k ++ (':' :: ' ' :: (render x ++ renderMembers ps)))

def renderItems : List Value → Text
  | [] => [']']
  | x :: xs => ',' :: ' ' :: (render x ++ renderItems xs)

def renderMembers : List (Text × Value) → Text
  | [] => ['\x7d']
  | (k, x) :: ps => ',' :: ' ' :: (quote k ++ (':' :: ' ' :: (render x ++ renderMembers ps)))

end

mutual

def sorted : Value → Value
  | .array xs => .array (sortedItems xs)
  | .object ps => .object ((sortedMembers ps).mergeSort fun p q => decide (p.1 ≤ q.1))
  | x => x

def sortedItems : List Value → List Value
  | [] => []
  | x :: xs => sorted x :: sortedItems xs

def sortedMembers : List (Text × Value) → List (Text × Value)
  | [] => []
  | (k, x) :: ps => (k, sorted x) :: sortedMembers ps

end

def dumps (x : Value) : Text := render (sorted x)

mutual

def compact : Value → Text
  | .null => "null".toList
  | .bool true => "true".toList
  | .bool false => "false".toList
  | .number n => n.text
  | .string s => quote s
  | .array [] => ['[', ']']
  | .array (x :: xs) => '[' :: (compact x ++ compactItems xs)
  | .object [] => ['\x7b', '\x7d']
  | .object ((k, x) :: ps) => '\x7b' :: (quote k ++ (':' :: (compact x ++ compactMembers ps)))

def compactItems : List Value → Text
  | [] => [']']
  | x :: xs => ',' :: (compact x ++ compactItems xs)

def compactMembers : List (Text × Value) → Text
  | [] => ['\x7d']
  | (k, x) :: ps => ',' :: (quote k ++ (':' :: (compact x ++ compactMembers ps)))

end

def dumpsCompact (x : Value) : Text := compact (sorted x)

mutual

/-- Both ways of writing: `pad` stands behind every comma and colon. -/
def write (pad : Text) : Value → Text
  | .null => "null".toList
  | .bool true => "true".toList
  | .bool false => "false".toList
  | .number n => n.text
  | .string s => quote s
  | .array [] => ['[', ']']
  | .array (x :: xs) => '[' :: (write pad x ++ writeItems pad xs)
  | .object [] => ['\x7b', '\x7d']
  | .object ((k, x) :: ps) => '\x7b' :: (quote k ++ (':' :: (pad ++ (write pad x ++ writeMembers pad ps))))

def writeItems (pad : Text) : List Value → Text
  | [] => [']']
  | x :: xs => ',' :: (pad ++ (write pad x ++ writeItems pad xs))

def writeMembers (pad : Text) : List (Text × Value) → Text
  | [] => ['\x7d']
  | (k, x) :: ps => ',' :: (pad ++ (quote k ++ (':' :: (pad ++ (write pad x ++ writeMembers pad ps)))))

end

mutual

theorem render_eq_write (x : Value) : render x = write [' '] x := by
  cases x with
  | bool b => cases b <;> rw [render, write]
  | array xs =>
    cases xs with
    | nil => rw [render, write]
    | cons x xs => rw [render, write, render_eq_write x, renderItems_eq_write xs]
  | object ps =>
    cases ps with
    | nil => rw [render, write]
    | cons p ps =>
      obtain ⟨k, x⟩ := p
      rw [render, write, render_eq_write x, renderMembers_eq_write ps]
      rfl
  | null => rw [render, write]
  | number n => rw [render, write]
  | string s => rw [render, write]

theorem renderItems_eq_write (xs : List Value) : renderItems xs = writeItems [' '] xs := by
  cases xs with
  | nil => rw [renderItems, writeItems]
  | cons x xs =>
    rw [renderItems, writeItems, render_eq_write x, renderItems_eq_write xs]
    rfl

theorem renderMembers_eq_write (ps : List (Text × Value)) : renderMembers ps = writeMembers [' '] ps := by
  cases ps with
  | nil => rw [renderMembers, writeMembers]
  | cons p ps =>
    obtain ⟨k, x⟩ := p
    rw [renderMembers, writeMembers, render_eq_write x, renderMembers_eq_write ps]
    rfl

end

mutual

theorem compact_eq_write (x : Value) : compact x = write [] x := by
  cases x with
  | bool b => cases b <;> rw [compact, write]
  | array xs =>
    cases xs with
    | nil => rw [compact, write]
    | cons x xs => rw [compact, write, compact_eq_write x, compactItems_eq_write xs]
  | object ps =>
    cases ps with
    | nil => rw [compact, write]
    | cons p ps =>
      obtain ⟨k, x⟩ := p
      rw [compact, write, compact_eq_write x, compactMembers_eq_write ps]
      rfl
  | null => rw [compact, write]
  | number n => rw [compact, write]
  | string s => rw [compact, write]

theorem compactItems_eq_write (xs : List Value) : compactItems xs = writeItems [] xs := by
  cases xs with
  | nil => rw [compactItems, writeItems]
  | cons x xs =>
    rw [compactItems, writeItems, compact_eq_write x, compactItems_eq_write xs]
    rfl

theorem compactMembers_eq_write (ps : List (Text × Value)) : compactMembers ps = writeMembers [] ps := by
  cases ps with
  | nil => rw [compactMembers, writeMembers]
  | cons p ps =>
    obtain ⟨k, x⟩ := p
    rw [compactMembers, writeMembers, compact_eq_write x, compactMembers_eq_write ps]
    rfl

end

def isJsonSpace (c : Char) : Bool := c = ' ' || c = '\t' || c = '\n' || c = '\r'

def skip (t : Text) : Text := t.dropWhile isJsonSpace

def hexValue (c : Char) : Option ℕ :=
  if isDigit c then some (c.toNat - 48)
  else if 'a' ≤ c ∧ c ≤ 'f' then some (c.toNat - 87)
  else if 'A' ≤ c ∧ c ≤ 'F' then some (c.toNat - 55)
  else none

def unescape (c : Char) : Option Char :=
  if c = '"' ∨ c = '\\' ∨ c = '/' then some c
  else if c = 'n' then some '\n'
  else if c = 'r' then some '\r'
  else if c = 't' then some '\t'
  else if c = 'b' then some '\x08'
  else if c = 'f' then some '\x0c'
  else none

/-- Where the reader of a string is; `high` is a surrogate that waits for the other half of its character. -/
inductive Reading where
  | plain
  | escaped
  | hex (digits value : ℕ)
  | half (high : ℕ)
  | halfEscaped (high : ℕ)
  | hexLow (high digits value : ℕ)

def isHighSurrogate (n : ℕ) : Bool := 0xD800 ≤ n && n < 0xDC00
def isLowSurrogate (n : ℕ) : Bool := 0xDC00 ≤ n && n < 0xE000

/-- The characters up to the closing quote, and what stands after it. The escape of a lone
surrogate, which is no character, is not read. -/
def readString : Reading → Text → Option (Text × Text)
  | _, [] => none
  | .plain, c :: t =>
    if c = '"' then some ([], t)
    else if c = '\\' then readString .escaped t
    else if c.toNat < 32 then none
    else (readString .plain t).map fun p => (c :: p.1, p.2)
  | .escaped, c :: t =>
    if c = 'u' then readString (.hex 0 0) t
    else
      match unescape c with
      | none => none
      | some d => (readString .plain t).map fun p => (d :: p.1, p.2)
  | .hex digits value, c :: t =>
    match hexValue c with
    | none => none
    | some d =>
      if digits < 3 then readString (.hex (digits + 1) (16 * value + d)) t
      else if (16 * value + d).isValidChar then
        (readString .plain t).map fun p => (Char.ofNat (16 * value + d) :: p.1, p.2)
      else if isHighSurrogate (16 * value + d) then readString (.half (16 * value + d)) t
      else none
  | .half high, c :: t => if c = '\\' then readString (.halfEscaped high) t else none
  | .halfEscaped high, c :: t => if c = 'u' then readString (.hexLow high 0 0) t else none
  | .hexLow high digits value, c :: t =>
    match hexValue c with
    | none => none
    | some d =>
      if digits < 3 then readString (.hexLow high (digits + 1) (16 * value + d)) t
      else if isLowSurrogate (16 * value + d) then
        (readString .plain t).map fun p =>
          (Char.ofNat (0x10000 + 1024 * (high - 0xD800) + (16 * value + d - 0xDC00)) :: p.1, p.2)
      else none

def readWord (word : Text) (x : Value) (t : Text) : Option (Value × Text) :=
  if word.isPrefixOf t then some (x, t.drop word.length) else none

/-- Python's expression takes the longest numeral and not all number characters; what may
follow a number is none of these. -/
def readNumber (t : Text) : Option (Value × Text) :=
  if h : isNumeral (t.takeWhile isNumberChar) = true then
    some (.number ⟨t.takeWhile isNumberChar, h⟩, t.dropWhile isNumberChar)
  else none

def readAtom (c : Char) (t : Text) : Option (Value × Text) :=
  if c = 'n' then readWord "null".toList .null t
  else if c = 't' then readWord "true".toList (.bool true) t
  else if c = 'f' then readWord "false".toList (.bool false) t
  else readNumber t

def insertKey (k : Text) (x : Value) : List (Text × Value) → List (Text × Value)
  | [] => [(k, x)]
  | p :: ps => if p.1 = k then (k, x) :: ps else p :: insertKey k x ps

def dict (ps : List (Text × Value)) : List (Text × Value) := ps.foldl (fun acc p => insertKey p.1 p.2 acc) []

mutual

def readValue : ℕ → Text → Option (Value × Text)
  | 0, _ => none
  | _, [] => none
  | n + 1, c :: t =>
    if c = '"' then (readString .plain t).map fun p => (.string p.1, p.2)
    else if c = '\x7b' then
      if (skip t).head? = some '\x7d' then some (.object [], (skip t).tail)
      else (readMembers n (skip t)).map fun p => (.object (dict p.1), p.2)
    else if c = '[' then
      if (skip t).head? = some ']' then some (.array [], (skip t).tail)
      else (readItems n (skip t)).map fun p => (.array p.1, p.2)
    else readAtom c (c :: t)

def readItems : ℕ → Text → Option (List Value × Text)
  | 0, _ => none
  | n + 1, t =>
    (readValue n t).bind fun p =>
      if (skip p.2).head? = some ']' then some ([p.1], (skip p.2).tail)
      else if (skip p.2).head? = some ',' then
        (readItems n (skip (skip p.2).tail)).map fun q => (p.1 :: q.1, q.2)
      else none

def readMembers : ℕ → Text → Option (List (Text × Value) × Text)
  | 0, _ => none
  | _, [] => none
  | n + 1, c :: t =>
    if c = '"' then
      (readString .plain t).bind fun key =>
        if (skip key.2).head? = some ':' then
          (readValue n (skip (skip key.2).tail)).bind fun p =>
            if (skip p.2).head? = some '\x7d' then some ([(key.1, p.1)], (skip p.2).tail)
            else if (skip p.2).head? = some ',' then
              (readMembers n (skip (skip p.2).tail)).map fun q => ((key.1, p.1) :: q.1, q.2)
            else none
        else none
    else none

end

def loads (t : Text) : Option Value :=
  (readValue (2 * t.length + 2) (skip t)).bind fun p => if skip p.2 = [] then some p.1 else none

theorem skip_cons {c : Char} (t : Text) (h : isJsonSpace c = false) : skip (c :: t) = c :: t := by
  simp [skip, h]

theorem skip_append {t : Text} (u : Text) (h : skip t ≠ []) : skip (t ++ u) = skip t ++ u := by
  induction t with
  | nil => exact absurd rfl h
  | cons c t ih =>
    cases hc : isJsonSpace c with
    | false => rw [List.cons_append, skip_cons _ hc, skip_cons _ hc, List.cons_append]
    | true =>
      have hskip : ∀ v, skip (c :: v) = skip v := fun v => by simp [skip, hc]
      rw [hskip] at h
      rw [List.cons_append, hskip, hskip, ih h]

theorem head_skip_append {t : Text} {c : Char} (u : Text) (h : (skip t).head? = some c) :
    (skip (t ++ u)).head? = some c ∧ (skip (t ++ u)).tail = (skip t).tail ++ u := by
  have hne : skip t ≠ [] := by
    intro hnil
    simp [hnil] at h
  rw [skip_append u hne]
  cases hs : skip t with
  | nil => exact absurd hs hne
  | cons d v =>
    rw [hs] at h
    exact ⟨h, rfl⟩

theorem readString_append {t : Text} : ∀ {s : Reading} {a r : Text} (u : Text), readString s t = some (a, r) →
    readString s (t ++ u) = some (a, r ++ u) := by
  induction t with
  | nil =>
    intro s a r u h
    cases s <;> cases h
  | cons c t ih =>
    intro s a r u h
    have hmap : ∀ {d : Char}, (readString .plain t).map (fun p => (d :: p.1, p.2)) = some (a, r) →
        (readString .plain (t ++ u)).map (fun p => (d :: p.1, p.2)) = some (a, r ++ u) := by
      intro d hd
      obtain ⟨p, hp, hpair⟩ := Option.map_eq_some_iff.mp hd
      rw [ih u (show readString .plain t = some (p.1, p.2) from hp)]
      cases hpair
      rfl
    cases s with
    | plain =>
      simp only [List.cons_append, readString] at h ⊢
      split at h
      · next hc =>
        rw [if_pos hc]
        cases h
        rfl
      · next hc =>
        rw [if_neg hc]
        split at h
        · next hb =>
          rw [if_pos hb]
          exact ih u h
        · next hb =>
          rw [if_neg hb]
          split at h
          · cases h
          · next hlow =>
            rw [if_neg hlow]
            exact hmap h
    | escaped =>
      simp only [List.cons_append, readString] at h ⊢
      split at h
      · next hc =>
        rw [if_pos hc]
        exact ih u h
      · next hc =>
        rw [if_neg hc]
        cases hd : unescape c with
        | none => simp [hd] at h
        | some d =>
          rw [hd] at h
          exact hmap h
    | hex digits value =>
      simp only [List.cons_append, readString] at h ⊢
      cases hd : hexValue c with
      | none => simp [hd] at h
      | some d =>
        rw [hd] at h
        simp only at h ⊢
        split at h
        · next hlt =>
          rw [if_pos hlt]
          exact ih u h
        · next hlt =>
          rw [if_neg hlt]
          split at h
          · next hvalid =>
            rw [if_pos hvalid]
            exact hmap h
          · next hvalid =>
            rw [if_neg hvalid]
            split at h
            · next hhigh =>
              rw [if_pos hhigh]
              exact ih u h
            · cases h
    | half high =>
      simp only [List.cons_append, readString] at h ⊢
      split at h
      · next hc =>
        rw [if_pos hc]
        exact ih u h
      · cases h
    | halfEscaped high =>
      simp only [List.cons_append, readString] at h ⊢
      split at h
      · next hc =>
        rw [if_pos hc]
        exact ih u h
      · cases h
    | hexLow high digits value =>
      simp only [List.cons_append, readString] at h ⊢
      cases hd : hexValue c with
      | none => simp [hd] at h
      | some d =>
        rw [hd] at h
        simp only at h ⊢
        split at h
        · next hlt =>
          rw [if_pos hlt]
          exact ih u h
        · next hlt =>
          rw [if_neg hlt]
          split at h
          · next hlow =>
            rw [if_pos hlow]
            exact hmap h
          · cases h

theorem hexValue_hexChar {n : ℕ} (h : n < 16) : hexValue (hexChar n) = some n := by
  have hall : ∀ m < 16, hexValue (hexChar m) = some m := by decide
  exact hall n h

theorem readString_escapeChar (c : Char) (t : Text) :
    readString .plain (escapeChar c ++ t) = (readString .plain t).map fun p => (c :: p.1, p.2) := by
  unfold escapeChar
  split
  · next hc => subst hc; rfl
  split
  · next hc => subst hc; rfl
  split
  · next hc => subst hc; rfl
  split
  · next hc => subst hc; rfl
  split
  · next hc => subst hc; rfl
  split
  · next hc => subst hc; rfl
  split
  · next hc => subst hc; rfl
  split
  · next hlow =>
    have hhigh := hexValue_hexChar (show c.toNat / 16 < 16 by omega)
    have hrest := hexValue_hexChar (show c.toNat % 16 < 16 by omega)
    have hsum : 16 * (16 * (16 * (16 * 0 + 0) + 0) + c.toNat / 16) + c.toNat % 16 = c.toNat := by omega
    have hzero : hexValue '0' = some 0 := by decide
    have hu : ('\\' : Char) ≠ '"' := by decide
    simp only [List.cons_append, List.nil_append, readString, hu, if_false, if_true, hzero, hhigh, hrest, hsum,
      Nat.reduceLT, Nat.reduceAdd, Nat.lt_irrefl, Char.ofNat_toNat]
    rw [if_pos (show c.toNat.isValidChar from c.valid)]
  · next hquote hslash _ _ _ _ _ hlow =>
    simp only [List.cons_append, List.nil_append, readString, hquote, hslash, hlow, if_false]

theorem readString_quoted (s t : Text) : readString .plain (s.flatMap escapeChar ++ '"' :: t) = some (s, t) := by
  induction s with
  | nil => rfl
  | cons c s ih =>
    rw [List.flatMap_cons, List.append_assoc, readString_escapeChar, ih]
    rfl

def Ends (t : Text) : Prop := ∀ c ∈ t.head?, isNumberChar c = false

theorem Numeral.all (n : Numeral) : ∀ c ∈ n.text, isNumberChar c = true := by
  have h := n.valid
  simp only [isNumeral, Bool.and_eq_true, List.all_eq_true] at h
  exact h.1.1.1.2

theorem Numeral.ne_nil (n : Numeral) : n.text ≠ [] := by
  have h := n.valid
  simp only [isNumeral, Bool.and_eq_true, decide_eq_true_eq] at h
  exact h.1.1.1.1

theorem takeWhile_numeral {t : Text} (n : Numeral) (h : Ends t) :
    (n.text ++ t).takeWhile isNumberChar = n.text ∧ (n.text ++ t).dropWhile isNumberChar = t := by
  have hall := n.all
  have hrest : t.takeWhile isNumberChar = [] ∧ t.dropWhile isNumberChar = t := by
    cases t with
    | nil => exact ⟨rfl, rfl⟩
    | cons c t => simp [h c rfl]
  rw [List.takeWhile_append_of_pos hall, List.dropWhile_append_of_pos hall, hrest.1, hrest.2]
  exact ⟨List.append_nil _, rfl⟩

theorem readNumber_numeral {t : Text} (n : Numeral) (h : Ends t) : readNumber (n.text ++ t) = some (.number n, t) := by
  obtain ⟨htake, hdrop⟩ := takeWhile_numeral n h
  unfold readNumber
  simp only [htake, hdrop, n.valid, dite_true]

theorem readWord_append {word t r : Text} {x y : Value} (u : Text) (h : readWord word x t = some (y, r)) :
    readWord word x (t ++ u) = some (y, r ++ u) := by
  unfold readWord at h ⊢
  split at h
  · next hk =>
    obtain ⟨v, rfl⟩ := List.isPrefixOf_iff_prefix.mp hk
    cases h
    rw [if_pos (List.isPrefixOf_iff_prefix.mpr ⟨v ++ u, (List.append_assoc _ _ _).symm⟩), List.append_assoc,
      List.drop_left, List.drop_left]
  · cases h

theorem takeWhile_append_of_dropWhile {p : Char → Bool} {t : Text} (u : Text) (h : t.dropWhile p ≠ []) :
    (t ++ u).takeWhile p = t.takeWhile p ∧ (t ++ u).dropWhile p = t.dropWhile p ++ u := by
  induction t with
  | nil => exact absurd rfl h
  | cons c t ih =>
    cases hc : p c with
    | false => simp [hc]
    | true =>
      have htail : t.dropWhile p ≠ [] := by simpa [hc] using h
      simp [hc, ih htail]

/-- What stands after an atom does not change how it is read, unless a number may go on. -/
theorem readAtom_append {c : Char} {t r : Text} {x : Value} (u : Text) (h : readAtom c t = some (x, r))
    (hr : r = [] → ∀ n, x ≠ .number n) : readAtom c (t ++ u) = some (x, r ++ u) := by
  unfold readAtom at h ⊢
  split at h
  · next hc =>
    rw [if_pos hc]
    exact readWord_append u h
  next hn =>
  rw [if_neg hn]
  split at h
  · next hc =>
    rw [if_pos hc]
    exact readWord_append u h
  next ht =>
  rw [if_neg ht]
  split at h
  · next hc =>
    rw [if_pos hc]
    exact readWord_append u h
  next hf =>
  rw [if_neg hf]
  unfold readNumber at h
  split at h
  · next hnum =>
    cases h
    have hne : t.dropWhile isNumberChar ≠ [] := fun hnil => hr hnil _ rfl
    obtain ⟨htake, hdrop⟩ := takeWhile_append_of_dropWhile u hne
    unfold readNumber
    simp only [htake, hdrop, hnum, dite_true]
  · cases h

mutual

def Distinct : Value → Prop
  | .array xs => DistinctItems xs
  | .object ps => (ps.map (·.1)).Nodup ∧ DistinctMembers ps
  | _ => True

def DistinctItems : List Value → Prop
  | [] => True
  | x :: xs => Distinct x ∧ DistinctItems xs

def DistinctMembers : List (Text × Value) → Prop
  | [] => True
  | (_, x) :: ps => Distinct x ∧ DistinctMembers ps

end

theorem insertKey_new {k : Text} {x : Value} {ps : List (Text × Value)} (h : k ∉ ps.map (·.1)) :
    insertKey k x ps = ps ++ [(k, x)] := by
  induction ps with
  | nil => rfl
  | cons p ps ih =>
    simp only [List.map_cons, List.mem_cons, not_or] at h
    rw [insertKey, if_neg (Ne.symm h.1), ih h.2, List.cons_append]

theorem dict_of_nodup {ps : List (Text × Value)} (h : (ps.map (·.1)).Nodup) : dict ps = ps := by
  have hfold : ∀ (qs acc : List (Text × Value)), ((acc ++ qs).map (·.1)).Nodup →
      qs.foldl (fun acc p => insertKey p.1 p.2 acc) acc = acc ++ qs := by
    intro qs
    induction qs with
    | nil =>
      intro acc _
      simp
    | cons q qs ih =>
      intro acc hacc
      have hnew : q.1 ∉ acc.map (·.1) := by
        intro hmem
        rw [List.map_append, List.nodup_append] at hacc
        exact hacc.2.2 q.1 hmem q.1 (by simp) rfl
      rw [List.foldl_cons, insertKey_new hnew, ih _ (by simpa using hacc), List.append_assoc]
      rfl
  exact hfold ps [] h

theorem ends_cons {c : Char} (t : Text) (h : isNumberChar c = false) : Ends (c :: t) := by
  intro d hd
  cases hd
  exact h

section
variable {pad : Text}

theorem ends_writeItems (xs : List Value) (t : Text) : Ends (writeItems pad xs ++ t) := by
  cases xs with
  | nil =>
    rw [writeItems]
    exact ends_cons _ (by decide)
  | cons x xs =>
    rw [writeItems]
    exact ends_cons _ (by decide)

theorem ends_writeMembers (ps : List (Text × Value)) (t : Text) : Ends (writeMembers pad ps ++ t) := by
  cases ps with
  | nil =>
    rw [writeMembers]
    exact ends_cons _ (by decide)
  | cons p ps =>
    rw [writeMembers]
    exact ends_cons _ (by decide)

theorem write_head (x : Value) : ∃ c t, write pad x = c :: t ∧ isJsonSpace c = false ∧ c ≠ ']' := by
  have hquote : isJsonSpace '"' = false ∧ ('"' : Char) ≠ ']' := by decide
  have hopen : isJsonSpace '[' = false ∧ ('[' : Char) ≠ ']' := by decide
  have hbrace : isJsonSpace '\x7b' = false ∧ ('\x7b' : Char) ≠ ']' := by decide
  cases x with
  | null => exact ⟨'n', "ull".toList, by rw [write]; rfl, by decide⟩
  | bool b =>
    cases b with
    | true => exact ⟨'t', "rue".toList, by rw [write]; rfl, by decide⟩
    | false => exact ⟨'f', "alse".toList, by rw [write]; rfl, by decide⟩
  | number n =>
    obtain ⟨c, t, hct⟩ := List.exists_cons_of_ne_nil n.ne_nil
    have hc : isNumberChar c = true := n.all c (by simp [hct])
    refine ⟨c, t, by rw [write, hct], ?_, ?_⟩
    · by_contra hspace
      simp only [Bool.not_eq_false, isJsonSpace, Bool.or_eq_true, decide_eq_true_eq] at hspace
      cases hspace with
      | inl h =>
        cases h with
        | inl h => cases h <;> (next h => subst h; revert hc; decide)
        | inr h => subst h; revert hc; decide
      | inr h => subst h; revert hc; decide
    · intro h
      subst h
      revert hc
      decide
  | string s => exact ⟨'"', _, by rw [write, quote], hquote⟩
  | array xs =>
    cases xs with
    | nil => exact ⟨'[', _, by rw [write], hopen⟩
    | cons x xs => exact ⟨'[', _, by rw [write], hopen⟩
  | object ps =>
    cases ps with
    | nil => exact ⟨'\x7b', _, by rw [write], hbrace⟩
    | cons p ps => exact ⟨'\x7b', _, by rw [write], hbrace⟩

theorem skip_write (x : Value) (t : Text) :
    skip (write pad x ++ t) = write pad x ++ t ∧ (write pad x ++ t).head? ≠ some ']' := by
  obtain ⟨c, u, hcu, hspace, hclose⟩ := write_head x
  rw [hcu, List.cons_append]
  refine ⟨skip_cons _ hspace, ?_⟩
  intro h
  exact hclose (Option.some.inj h)

theorem readValue_string (n : ℕ) (s t : Text) : readValue (n + 1) (quote s ++ t) = some (.string s, t) := by
  have hread := readString_quoted s t
  simp only [quote, List.cons_append, List.append_assoc, List.nil_append, readValue, if_true]
  rw [hread]
  rfl

theorem readValue_atom {n : ℕ} {c : Char} {t : Text} (h : c ≠ '"' ∧ c ≠ '\x7b' ∧ c ≠ '[') :
    readValue (n + 1) (c :: t) = readAtom c (c :: t) := by
  rw [readValue, if_neg h.1, if_neg h.2.1, if_neg h.2.2]

theorem readValue_numeral (n : ℕ) {t : Text} (k : Numeral) (h : Ends t) :
    readValue (n + 1) (k.text ++ t) = some (.number k, t) := by
  have hread := readNumber_numeral k h
  obtain ⟨c, u, hcu⟩ := List.exists_cons_of_ne_nil k.ne_nil
  have hc : isNumberChar c = true := k.all c (by simp [hcu])
  have hne : ∀ d : Char, isNumberChar d = false → c ≠ d := by
    intro d hd hcd
    rw [hcd, hd] at hc
    cases hc
  rw [hcu, List.cons_append] at hread ⊢
  rw [readValue_atom ⟨hne _ (by decide), hne _ (by decide), hne _ (by decide)⟩, readAtom,
    if_neg (hne _ (by decide)), if_neg (hne _ (by decide)), if_neg (hne _ (by decide)), hread]

theorem blank_pad : ∀ c ∈ [' '], c = ' ' := fun _ hc => List.mem_singleton.mp hc

theorem skip_pad (hpad : ∀ c ∈ pad, c = ' ') (t : Text) : skip (pad ++ t) = skip t := by
  induction pad with
  | nil => rfl
  | cons c pad ih =>
    obtain ⟨rfl, hrest⟩ := List.forall_mem_cons.mp hpad
    exact (show skip (' ' :: _) = skip _ from rfl).trans (ih hrest)

theorem readMembers_quoted {n : ℕ} (hpad : ∀ c ∈ pad, c = ' ') (k t : Text) :
    readMembers (n + 1) (quote k ++ (':' :: (pad ++ t))) =
      (readValue n (skip t)).bind fun p =>
        if (skip p.2).head? = some '\x7d' then some ([(k, p.1)], (skip p.2).tail)
        else if (skip p.2).head? = some ',' then
          (readMembers n (skip (skip p.2).tail)).map fun q => ((k, p.1) :: q.1, q.2)
        else none := by
  have hread := readString_quoted k (':' :: (pad ++ t))
  have hcolon : skip (':' :: (pad ++ t)) = ':' :: (pad ++ t) := skip_cons _ (by decide)
  simp only [quote, List.cons_append, List.append_assoc, List.nil_append, readMembers, if_true]
  rw [hread]
  simp only [Option.bind_some, hcolon, List.head?_cons, if_true, List.tail_cons, skip_pad hpad]

def ReadsBack (pad : Text) (x : Value) : Prop :=
  ∀ (n : ℕ) (t : Text), 2 * (write pad x).length + 1 ≤ n → Ends t → readValue n (write pad x ++ t) = some (x, t)

mutual

theorem readsBack (hpad : ∀ c ∈ pad, c = ' ') (x : Value) (hx : Distinct x) : ReadsBack pad x := by
  intro n t hn ht
  obtain ⟨m, rfl⟩ : ∃ m, n = m + 1 := ⟨n - 1, by omega⟩
  cases x with
  | null =>
    rw [write]
    rfl
  | bool b =>
    cases b with
    | true =>
      rw [write]
      rfl
    | false =>
      rw [write]
      rfl
  | number k =>
    rw [write]
    exact readValue_numeral m k ht
  | string s =>
    rw [write]
    exact readValue_string m s t
  | array xs =>
    cases xs with
    | nil =>
      rw [write]
      rfl
    | cons x xs =>
      rw [Distinct, DistinctItems] at hx
      rw [write, List.length_cons, List.length_append] at hn
      have hitems := readItems_write hpad xs hx.2 x (readsBack hpad x hx.1) m t (by rw [List.length_append]; omega)
      obtain ⟨hskip, hclose⟩ := skip_write x (writeItems pad xs ++ t)
      rw [write, List.cons_append, List.append_assoc, readValue, if_neg (by decide), if_neg (by decide), if_pos rfl,
        hskip, if_neg hclose, hitems]
      rfl
  | object ps =>
    cases ps with
    | nil =>
      rw [write]
      rfl
    | cons p ps =>
      obtain ⟨k, x⟩ := p
      rw [Distinct, DistinctMembers] at hx
      have hmembers := readMembers_write hpad ps hx.2.2 k x (readsBack hpad x hx.2.1) m t (by
        rw [write] at hn
        simp only [List.length_cons, List.length_append] at hn ⊢
        omega)
      have hquote : ∀ u, skip (quote k ++ u) = quote k ++ u := fun u => skip_cons _ (by decide)
      have hclose : ∀ u, (quote k ++ u).head? ≠ some '\x7d' := by
        intro u h
        exact absurd (Option.some.inj h) (by decide)
      rw [write, List.cons_append, List.append_assoc, readValue, if_neg (by decide), if_pos rfl, hquote,
        if_neg (hclose _)]
      simp only [List.cons_append, List.append_assoc] at hmembers ⊢
      rw [hmembers, Option.map_some, dict_of_nodup hx.1]

theorem readItems_write (hpad : ∀ c ∈ pad, c = ' ') (xs : List Value) (hxs : DistinctItems xs) (x : Value)
    (hx : ReadsBack pad x) (n : ℕ) (t : Text) (hn : 2 * (write pad x ++ writeItems pad xs).length + 2 ≤ n) :
    readItems n (write pad x ++ (writeItems pad xs ++ t)) = some (x :: xs, t) := by
  obtain ⟨m, rfl⟩ : ∃ m, n = m + 1 := ⟨n - 1, by omega⟩
  rw [List.length_append] at hn
  have hvalue := hx m (writeItems pad xs ++ t) (by omega) (ends_writeItems xs t)
  rw [readItems, hvalue, Option.bind_some]
  cases xs with
  | nil =>
    rw [writeItems]
    rfl
  | cons y ys =>
    rw [DistinctItems] at hxs
    rw [writeItems] at hn ⊢
    have hcomma : skip (',' :: (pad ++ (write pad y ++ writeItems pad ys)) ++ t) =
        ',' :: (pad ++ (write pad y ++ (writeItems pad ys ++ t))) := by
      simp [skip, isJsonSpace]
    have hspace : skip (pad ++ (write pad y ++ (writeItems pad ys ++ t))) = write pad y ++ (writeItems pad ys ++ t) :=
      (skip_pad hpad _).trans (skip_write y (writeItems pad ys ++ t)).1
    have hrest := readItems_write hpad ys hxs.2 y (readsBack hpad y hxs.1) m t (by
      simp only [List.length_cons, List.length_append] at hn ⊢
      omega)
    simp only [hcomma, List.head?_cons, List.tail_cons, hspace, hrest]
    rfl

theorem readMembers_write (hpad : ∀ c ∈ pad, c = ' ') (ps : List (Text × Value)) (hps : DistinctMembers ps) (k : Text)
    (x : Value) (hx : ReadsBack pad x) (n : ℕ) (t : Text)
    (hn : 2 * (quote k ++ (':' :: (pad ++ (write pad x ++ writeMembers pad ps)))).length + 2 ≤ n) :
    readMembers n (quote k ++ (':' :: (pad ++ (write pad x ++ (writeMembers pad ps ++ t))))) =
      some ((k, x) :: ps, t) := by
  obtain ⟨m, rfl⟩ : ∃ m, n = m + 1 := ⟨n - 1, by omega⟩
  simp only [List.length_append, List.length_cons] at hn
  have hvalue := hx m (writeMembers pad ps ++ t) (by omega) (ends_writeMembers ps t)
  rw [readMembers_quoted hpad, (skip_write x (writeMembers pad ps ++ t)).1, hvalue, Option.bind_some]
  cases ps with
  | nil =>
    rw [writeMembers]
    rfl
  | cons p ps =>
    obtain ⟨l, y⟩ := p
    rw [DistinctMembers] at hps
    rw [writeMembers] at hn ⊢
    have hcomma : skip (',' :: (pad ++ (quote l ++ (':' :: (pad ++ (write pad y ++ writeMembers pad ps))))) ++ t) =
        ',' :: (pad ++ (quote l ++ (':' :: (pad ++ (write pad y ++ (writeMembers pad ps ++ t)))))) := by
      simp [skip, isJsonSpace]
    have hspace : skip (pad ++ (quote l ++ (':' :: (pad ++ (write pad y ++ (writeMembers pad ps ++ t)))))) =
        quote l ++ (':' :: (pad ++ (write pad y ++ (writeMembers pad ps ++ t)))) :=
      (skip_pad hpad _).trans (skip_cons _ (by decide))
    have hrest := readMembers_write hpad ps hps.2 l y (readsBack hpad y hps.1) m t (by
      simp only [List.length_cons, List.length_append] at hn ⊢
      omega)
    simp only [hcomma, List.head?_cons, List.tail_cons, hspace, hrest]
    rfl

end

end

theorem render_head (x : Value) : ∃ c t, render x = c :: t ∧ isJsonSpace c = false ∧ c ≠ ']' := by
  rw [render_eq_write]
  exact write_head x

theorem readValue_nil (n : ℕ) : readValue n [] = none := by
  cases n <;> rfl

theorem readItems_nil (n : ℕ) : readItems n [] = none := by
  cases n with
  | zero => rfl
  | succ n => rw [readItems, readValue_nil, Option.bind_none]

theorem readMembers_nil (n : ℕ) : readMembers n [] = none := by
  cases n <;> rfl

theorem head_skip_cases {t : Text} {c : Char} (u : Text) :
    ((skip t).head? = some c → (skip (t ++ u)).head? = some c ∧ (skip (t ++ u)).tail = (skip t).tail ++ u) ∧
    ((skip t).head? ≠ some c → (skip t).head? = some ',' → (skip (t ++ u)).head? ≠ some c ∧
      (skip (t ++ u)).head? = some ',' ∧ (skip (t ++ u)).tail = (skip t).tail ++ u) := by
  refine ⟨head_skip_append u, fun hclose hcomma => ?_⟩
  obtain ⟨hhead, htail⟩ := head_skip_append u hcomma
  refine ⟨?_, hhead, htail⟩
  rw [hhead, ← hcomma]
  exact hclose

theorem skip_append_of_read {α : Type} {f : Text → Option α} {t : Text} {a : α} (u : Text) (hnil : f [] = none)
    (h : f (skip t) = some a) : skip t ≠ [] ∧ skip (t ++ u) = skip t ++ u := by
  have hne : skip t ≠ [] := by
    intro hs
    rw [hs, hnil] at h
    cases h
  exact ⟨hne, skip_append u hne⟩

theorem head_append_of_ne {t : Text} (u : Text) (h : t ≠ []) : (t ++ u).head? = t.head? := by
  cases t with
  | nil => exact absurd rfl h
  | cons c t => rfl

theorem read_append (n : ℕ) :
    (∀ (t : Text) (x : Value) (r : Text), readValue n t = some (x, r) → (r = [] → ∀ k, x ≠ .number k) →
      ∀ (m : ℕ) (u : Text), n ≤ m → readValue m (t ++ u) = some (x, r ++ u)) ∧
    (∀ (t : Text) (xs : List Value) (r : Text), readItems n t = some (xs, r) →
      ∀ (m : ℕ) (u : Text), n ≤ m → readItems m (t ++ u) = some (xs, r ++ u)) ∧
    (∀ (t : Text) (ps : List (Text × Value)) (r : Text), readMembers n t = some (ps, r) →
      ∀ (m : ℕ) (u : Text), n ≤ m → readMembers m (t ++ u) = some (ps, r ++ u)) := by
  induction n with
  | zero =>
    refine ⟨?_, ?_, ?_⟩ <;>
      · intro t x r h
        cases h
  | succ n ih =>
    obtain ⟨hvalue, hitems, hmembers⟩ := ih
    refine ⟨?_, ?_, ?_⟩
    · intro t x r h hr m u hm
      obtain ⟨m, rfl⟩ : ∃ k, m = k + 1 := ⟨m - 1, by omega⟩
      have hnm : n ≤ m := by omega
      cases t with
      | nil => cases h
      | cons c t =>
        rw [readValue] at h
        rw [List.cons_append, readValue]
        split at h
        · next hc =>
          rw [if_pos hc]
          obtain ⟨p, hp, hpair⟩ := Option.map_eq_some_iff.mp h
          rw [readString_append u (show readString .plain t = some (p.1, p.2) from hp)]
          cases hpair
          rfl
        next hquote =>
        rw [if_neg hquote]
        split at h
        · next hc =>
          rw [if_pos hc]
          split at h
          · next hclose =>
            obtain ⟨hhead, htail⟩ := head_skip_append u hclose
            rw [if_pos hhead, htail]
            cases h
            rfl
          · next hclose =>
            obtain ⟨p, hp, hpair⟩ := Option.map_eq_some_iff.mp h
            obtain ⟨hne, hskip⟩ := skip_append_of_read u (readMembers_nil n) hp
            rw [hskip, head_append_of_ne u hne, if_neg hclose,
              hmembers (skip t) p.1 p.2 hp m u hnm]
            cases hpair
            rfl
        next hbrace =>
        rw [if_neg hbrace]
        split at h
        · next hc =>
          rw [if_pos hc]
          split at h
          · next hclose =>
            obtain ⟨hhead, htail⟩ := head_skip_append u hclose
            rw [if_pos hhead, htail]
            cases h
            rfl
          · next hclose =>
            obtain ⟨p, hp, hpair⟩ := Option.map_eq_some_iff.mp h
            obtain ⟨hne, hskip⟩ := skip_append_of_read u (readItems_nil n) hp
            rw [hskip, head_append_of_ne u hne, if_neg hclose, hitems (skip t) p.1 p.2 hp m u hnm]
            cases hpair
            rfl
        · next hbracket =>
          rw [if_neg hbracket]
          exact readAtom_append u h hr
    · intro t xs r h m u hm
      obtain ⟨m, rfl⟩ : ∃ k, m = k + 1 := ⟨m - 1, by omega⟩
      have hnm : n ≤ m := by omega
      rw [readItems] at h ⊢
      obtain ⟨p, hp, h⟩ := Option.bind_eq_some_iff.mp h
      have hopen : p.2 ≠ [] := by
        intro hnil
        simp [hnil, skip] at h
      rw [hvalue t p.1 p.2 hp (fun hnil => absurd hnil hopen) m u hnm, Option.bind_some]
      obtain ⟨hclosed, hgoes⟩ := head_skip_cases (t := p.2) (c := ']') u
      split at h
      · next hclose =>
        rw [if_pos (hclosed hclose).1, (hclosed hclose).2]
        cases h
        rfl
      next hclose =>
      split at h
      · next hcomma =>
        obtain ⟨hclose', hcomma', htail⟩ := hgoes hclose hcomma
        obtain ⟨q, hq, hpair⟩ := Option.map_eq_some_iff.mp h
        obtain ⟨_, hskip⟩ := skip_append_of_read u (readItems_nil n) hq
        rw [if_neg hclose', if_pos hcomma', htail, hskip, hitems _ q.1 q.2 hq m u hnm]
        cases hpair
        rfl
      · cases h
    · intro t ps r h m u hm
      obtain ⟨m, rfl⟩ : ∃ k, m = k + 1 := ⟨m - 1, by omega⟩
      have hnm : n ≤ m := by omega
      cases t with
      | nil => cases h
      | cons c t =>
        rw [readMembers] at h
        rw [List.cons_append, readMembers]
        split at h
        · next hc =>
          rw [if_pos hc]
          obtain ⟨key, hkey, h⟩ := Option.bind_eq_some_iff.mp h
          rw [readString_append u (show readString .plain t = some (key.1, key.2) from hkey), Option.bind_some]
          split at h
          · next hcolon =>
            obtain ⟨hhead, htail⟩ := head_skip_append u hcolon
            obtain ⟨p, hp, h⟩ := Option.bind_eq_some_iff.mp h
            obtain ⟨_, hskip⟩ := skip_append_of_read u (readValue_nil n) hp
            have hopen : p.2 ≠ [] := by
              intro hnil
              simp [hnil, skip] at h
            rw [if_pos hhead, htail, hskip, hvalue _ p.1 p.2 hp (fun hnil => absurd hnil hopen) m u hnm,
              Option.bind_some]
            obtain ⟨hclosed, hgoes⟩ := head_skip_cases (t := p.2) (c := '\x7d') u
            split at h
            · next hclose =>
              rw [if_pos (hclosed hclose).1, (hclosed hclose).2]
              cases h
              rfl
            next hclose =>
            split at h
            · next hcomma =>
              obtain ⟨hclose', hcomma', htail⟩ := hgoes hclose hcomma
              obtain ⟨q, hq, hpair⟩ := Option.map_eq_some_iff.mp h
              obtain ⟨_, hskip⟩ := skip_append_of_read u (readMembers_nil n) hq
              rw [if_neg hclose', if_pos hcomma', htail, hskip, hmembers _ q.1 q.2 hq m u hnm]
              cases hpair
              rfl
            · cases h
          · cases h
        · cases h

mutual

def strings : Value → List Text
  | .string s => [s]
  | .array xs => stringsItems xs
  | .object ps => stringsMembers ps
  | _ => []

def stringsItems : List Value → List Text
  | [] => []
  | x :: xs => strings x ++ stringsItems xs

def stringsMembers : List (Text × Value) → List Text
  | [] => []
  | (k, x) :: ps => k :: (strings x ++ stringsMembers ps)

end

theorem escapeChar_cases (c : Char) : (32 ≤ c.toNat ∧ escapeChar c = [c]) ∨
    (c.toNat < 128 ∧ ∀ d ∈ escapeChar c, 32 ≤ d.toNat ∧ d.toNat < 128) := by
  unfold escapeChar
  split
  · next hc => subst hc; right; simp
  split
  · next hc => subst hc; right; simp
  split
  · next hc => subst hc; right; simp
  split
  · next hc => subst hc; right; simp
  split
  · next hc => subst hc; right; simp
  split
  · next hc => subst hc; right; simp
  split
  · next hc => subst hc; right; simp
  split
  · next hlow =>
    have hstart : ∀ d ∈ ['\\', 'u', '0', '0'], 32 ≤ d.toNat ∧ d.toNat < 128 := by simp
    have hhex : ∀ n < 16, 32 ≤ (hexChar n).toNat ∧ (hexChar n).toNat < 128 := by
      intro n hn
      interval_cases n <;> simp [hexChar]
    refine Or.inr ⟨by omega, fun d hd => ?_⟩
    rw [show ['\\', 'u', '0', '0', hexChar (c.toNat / 16), hexChar (c.toNat % 16)] =
      ['\\', 'u', '0', '0'] ++ [hexChar (c.toNat / 16), hexChar (c.toNat % 16)] from rfl] at hd
    cases List.mem_append.mp hd with
    | inl hd => exact hstart d hd
    | inr hd =>
      simp only [List.mem_cons, List.not_mem_nil, or_false] at hd
      cases hd with
      | inl hd => exact hd ▸ hhex _ (by omega)
      | inr hd => exact hd ▸ hhex _ (by omega)
  · next hlow => exact Or.inl ⟨by omega, rfl⟩

theorem mem_escapeChar {c d : Char} (hc : 128 ≤ c.toNat) : c ∈ escapeChar d ↔ c = d := by
  cases escapeChar_cases d with
  | inl h => rw [h.2, List.mem_singleton]
  | inr h =>
    refine iff_of_false (fun hmem => ?_) (fun hcd => ?_)
    · have hlow := (h.2 c hmem).2
      omega
    · have hlow := h.1
      rw [← hcd] at hlow
      omega

theorem escapeChar_visible {c d : Char} (h : c ∈ escapeChar d) : 32 ≤ c.toNat := by
  cases escapeChar_cases d with
  | inl hd =>
    rw [hd.2, List.mem_singleton] at h
    exact h ▸ hd.1
  | inr hd => exact (hd.2 c h).1

theorem mem_quote {c : Char} {s : Text} (hc : 128 ≤ c.toNat) : c ∈ quote s ↔ c ∈ s := by
  have hne : c ≠ '"' := by
    intro h
    rw [h] at hc
    revert hc
    decide
  simp only [quote, List.mem_cons, hne, false_or, List.mem_append, List.mem_flatMap, mem_escapeChar hc,
    List.not_mem_nil, or_false]
  simp

theorem quote_visible {c : Char} {s : Text} (h : c ∈ quote s) : 32 ≤ c.toNat := by
  have hquote : 32 ≤ ('"' : Char).toNat := by decide
  simp only [quote, List.mem_cons, List.mem_append, List.mem_flatMap, List.not_mem_nil, or_false] at h
  cases h with
  | inl h => exact h ▸ hquote
  | inr h =>
    cases h with
    | inl h =>
      obtain ⟨d, _, hd⟩ := h
      exact escapeChar_visible hd
    | inr h => exact h ▸ hquote

theorem isNumberChar_ascii {c : Char} (h : isNumberChar c = true) : 32 ≤ c.toNat ∧ c.toNat < 128 := by
  have hmarks : ∀ d ∈ ['-', '+', '.', 'e', 'E'], 32 ≤ d.toNat ∧ d.toNat < 128 := by simp
  by_cases hd : isDigit c = true
  · simp only [isDigit, Bool.and_eq_true, decide_eq_true_eq] at hd
    have hlow : ('0' : Char).toNat ≤ c.toNat := hd.1
    have hhigh : c.toNat ≤ ('9' : Char).toNat := hd.2
    have h0 : ('0' : Char).toNat = 48 := by decide
    have h9 : ('9' : Char).toNat = 57 := by decide
    omega
  · apply hmarks c
    simp only [isNumberChar, hd, Bool.or_eq_true, decide_eq_true_eq, Bool.false_eq_true, false_or, or_assoc] at h
    simpa using h

theorem ne_of_ascii {c d : Char} (hc : 128 ≤ c.toNat) (hd : d.toNat < 128) : c ≠ d := by
  intro hcd
  rw [hcd] at hc
  omega

theorem notMem_pad {pad : Text} (hpad : ∀ c ∈ pad, c = ' ') {c : Char} (hc : 128 ≤ c.toNat) : (c ∈ pad) = False := by
  refine eq_false fun hmem => ?_
  exact ne_of_ascii hc (d := ' ') (by decide) (hpad c hmem)

theorem pad_visible {pad : Text} (hpad : ∀ c ∈ pad, c = ' ') : ∀ c ∈ pad, 32 ≤ c.toNat := by
  intro c hc
  rw [hpad c hc]
  decide

mutual

theorem mem_write {pad : Text} (hpad : ∀ c ∈ pad, c = ' ') {c : Char} (hc : 128 ≤ c.toNat) (x : Value) :
    c ∈ write pad x ↔ ∃ s ∈ strings x, c ∈ s := by
  have hmarks : ∀ l : Text, (∀ d ∈ l, d.toNat < 128) → c ∉ l := fun l hl hmem => ne_of_ascii hc (hl c hmem) rfl
  cases x with
  | null =>
    rw [write]
    exact iff_of_false (hmarks _ (by simp)) (by simp [strings])
  | bool b =>
    cases b with
    | true =>
      rw [write]
      exact iff_of_false (hmarks _ (by simp)) (by simp [strings])
    | false =>
      rw [write]
      exact iff_of_false (hmarks _ (by simp)) (by simp [strings])
  | number n =>
    rw [write]
    exact iff_of_false (hmarks _ fun d hd => (isNumberChar_ascii (n.all d hd)).2) (by simp [strings])
  | string s =>
    rw [write, strings, mem_quote hc]
    simp
  | array xs =>
    cases xs with
    | nil =>
      rw [write, strings, stringsItems]
      exact iff_of_false (hmarks _ (by simp)) (by simp)
    | cons x xs =>
      rw [write, strings, stringsItems, List.mem_cons, List.mem_append, mem_write hpad hc x, mem_writeItems hpad hc xs]
      simp only [ne_of_ascii hc (d := '[') (by decide), false_or, List.mem_append, or_and_right, exists_or]
  | object ps =>
    cases ps with
    | nil =>
      rw [write, strings, stringsMembers]
      exact iff_of_false (hmarks _ (by simp)) (by simp)
    | cons p ps =>
      obtain ⟨k, x⟩ := p
      rw [write, strings, stringsMembers]
      simp only [List.mem_cons, List.mem_append, mem_quote hc, mem_write hpad hc x, mem_writeMembers hpad hc ps,
        ne_of_ascii hc (d := '\x7b') (by decide), ne_of_ascii hc (d := ':') (by decide), notMem_pad hpad hc, false_or,
        or_and_right, exists_or, exists_eq_left]

theorem mem_writeItems {pad : Text} (hpad : ∀ c ∈ pad, c = ' ') {c : Char} (hc : 128 ≤ c.toNat) (xs : List Value) :
    c ∈ writeItems pad xs ↔ ∃ s ∈ stringsItems xs, c ∈ s := by
  cases xs with
  | nil =>
    rw [writeItems, stringsItems]
    simpa using ne_of_ascii hc (d := ']') (by decide)
  | cons x xs =>
    rw [writeItems, stringsItems]
    simp only [List.mem_cons, List.mem_append, mem_write hpad hc x, mem_writeItems hpad hc xs,
      ne_of_ascii hc (d := ',') (by decide), notMem_pad hpad hc, false_or, or_and_right, exists_or]

theorem mem_writeMembers {pad : Text} (hpad : ∀ c ∈ pad, c = ' ') {c : Char} (hc : 128 ≤ c.toNat)
    (ps : List (Text × Value)) : c ∈ writeMembers pad ps ↔ ∃ s ∈ stringsMembers ps, c ∈ s := by
  cases ps with
  | nil =>
    rw [writeMembers, stringsMembers]
    simpa using ne_of_ascii hc (d := '\x7d') (by decide)
  | cons p ps =>
    obtain ⟨k, x⟩ := p
    rw [writeMembers, stringsMembers]
    simp only [List.mem_cons, List.mem_append, mem_quote hc, mem_write hpad hc x, mem_writeMembers hpad hc ps,
      ne_of_ascii hc (d := ',') (by decide), ne_of_ascii hc (d := ':') (by decide), notMem_pad hpad hc, false_or,
      or_and_right, exists_or, exists_eq_left]

end

mutual

theorem write_visible {pad : Text} (hpad : ∀ c ∈ pad, c = ' ') (x : Value) : ∀ c ∈ write pad x, 32 ≤ c.toNat := by
  cases x with
  | null =>
    rw [write]
    simp
  | bool b => cases b <;> (rw [write]; simp)
  | number n =>
    rw [write]
    exact fun c hc => (isNumberChar_ascii (n.all c hc)).1
  | string s =>
    rw [write]
    exact fun c hc => quote_visible hc
  | array xs =>
    cases xs with
    | nil =>
      rw [write]
      simp
    | cons x xs =>
      rw [write, List.forall_mem_cons, List.forall_mem_append]
      exact ⟨by decide, write_visible hpad x, writeItems_visible hpad xs⟩
  | object ps =>
    cases ps with
    | nil =>
      rw [write]
      simp
    | cons p ps =>
      obtain ⟨k, x⟩ := p
      rw [write, List.forall_mem_cons, List.forall_mem_append, List.forall_mem_cons, List.forall_mem_append,
        List.forall_mem_append]
      exact ⟨by decide, fun c hc => quote_visible hc, by decide, pad_visible hpad,
        write_visible hpad x, writeMembers_visible hpad ps⟩

theorem writeItems_visible {pad : Text} (hpad : ∀ c ∈ pad, c = ' ') (xs : List Value) :
    ∀ c ∈ writeItems pad xs, 32 ≤ c.toNat := by
  cases xs with
  | nil =>
    rw [writeItems]
    simp
  | cons x xs =>
    rw [writeItems, List.forall_mem_cons, List.forall_mem_append, List.forall_mem_append]
    exact ⟨by decide, pad_visible hpad, write_visible hpad x, writeItems_visible hpad xs⟩

theorem writeMembers_visible {pad : Text} (hpad : ∀ c ∈ pad, c = ' ') (ps : List (Text × Value)) :
    ∀ c ∈ writeMembers pad ps, 32 ≤ c.toNat := by
  cases ps with
  | nil =>
    rw [writeMembers]
    simp
  | cons p ps =>
    obtain ⟨k, x⟩ := p
    rw [writeMembers, List.forall_mem_cons, List.forall_mem_append, List.forall_mem_append, List.forall_mem_cons,
      List.forall_mem_append, List.forall_mem_append]
    exact ⟨by decide, pad_visible hpad, fun c hc => quote_visible hc, by decide, pad_visible hpad,
      write_visible hpad x, writeMembers_visible hpad ps⟩

end

theorem mem_render {c : Char} (hc : 128 ≤ c.toNat) (x : Value) : c ∈ render x ↔ ∃ s ∈ strings x, c ∈ s := by
  rw [render_eq_write]
  exact mem_write blank_pad hc x

theorem render_visible (x : Value) : ∀ c ∈ render x, 32 ≤ c.toNat := by
  rw [render_eq_write]
  exact write_visible blank_pad x

theorem distinctMembers_iff {ps : List (Text × Value)} : DistinctMembers ps ↔ ∀ p ∈ ps, Distinct p.2 := by
  induction ps with
  | nil => simp [DistinctMembers]
  | cons p ps ih => rw [DistinctMembers, ih, List.forall_mem_cons]

theorem keys_sortedMembers (ps : List (Text × Value)) : (sortedMembers ps).map (·.1) = ps.map (·.1) := by
  induction ps with
  | nil => simp [sortedMembers]
  | cons p ps ih => rw [sortedMembers, List.map_cons, List.map_cons, ih]

theorem mem_stringsMembers {c : Char} {ps : List (Text × Value)} :
    (∃ s ∈ stringsMembers ps, c ∈ s) ↔ ∃ p ∈ ps, c ∈ p.1 ∨ ∃ s ∈ strings p.2, c ∈ s := by
  induction ps with
  | nil => simp [stringsMembers]
  | cons p ps ih =>
    rw [stringsMembers]
    simp only [List.mem_cons, List.mem_append, or_and_right, exists_or, exists_eq_left, ih, or_assoc]

mutual

theorem distinct_sorted (x : Value) (hx : Distinct x) : Distinct (sorted x) := by
  cases x with
  | array xs =>
    rw [sorted, Distinct]
    rw [Distinct] at hx
    exact distinctItems_sorted xs hx
  | object ps =>
    rw [sorted, Distinct]
    rw [Distinct] at hx
    have hperm := List.mergeSort_perm (sortedMembers ps) fun p q => decide (p.1 ≤ q.1)
    refine ⟨(hperm.map (·.1)).nodup_iff.mpr (keys_sortedMembers ps ▸ hx.1), ?_⟩
    have hmembers := distinctMembers_iff.mp (distinctMembers_sorted ps hx.2)
    exact distinctMembers_iff.mpr fun p hp => hmembers p (hperm.mem_iff.mp hp)
  | null => exact hx
  | bool b => exact hx
  | number n => exact hx
  | string s => exact hx

theorem distinctItems_sorted (xs : List Value) (hxs : DistinctItems xs) : DistinctItems (sortedItems xs) := by
  cases xs with
  | nil => exact hxs
  | cons x xs =>
    rw [sortedItems, DistinctItems]
    rw [DistinctItems] at hxs
    exact ⟨distinct_sorted x hxs.1, distinctItems_sorted xs hxs.2⟩

theorem distinctMembers_sorted (ps : List (Text × Value)) (hps : DistinctMembers ps) :
    DistinctMembers (sortedMembers ps) := by
  cases ps with
  | nil => exact hps
  | cons p ps =>
    obtain ⟨k, x⟩ := p
    rw [sortedMembers, DistinctMembers]
    rw [DistinctMembers] at hps
    exact ⟨distinct_sorted x hps.1, distinctMembers_sorted ps hps.2⟩

end

mutual

theorem mem_strings_sorted {c : Char} (x : Value) :
    (∃ s ∈ strings (sorted x), c ∈ s) ↔ ∃ s ∈ strings x, c ∈ s := by
  cases x with
  | array xs =>
    rw [sorted, strings, strings]
    exact mem_stringsItems_sorted xs
  | object ps =>
    rw [sorted, strings, strings, mem_stringsMembers]
    have hperm := List.mergeSort_perm (sortedMembers ps) fun p q => decide (p.1 ≤ q.1)
    simp only [hperm.mem_iff]
    rw [← mem_stringsMembers]
    exact mem_stringsMembers_sorted ps
  | null => rfl
  | bool b => rfl
  | number n => rfl
  | string s => rfl

theorem mem_stringsItems_sorted {c : Char} (xs : List Value) :
    (∃ s ∈ stringsItems (sortedItems xs), c ∈ s) ↔ ∃ s ∈ stringsItems xs, c ∈ s := by
  cases xs with
  | nil => rfl
  | cons x xs =>
    rw [sortedItems, stringsItems, stringsItems]
    simp only [List.mem_append, or_and_right, exists_or, mem_strings_sorted x, mem_stringsItems_sorted xs]

theorem mem_stringsMembers_sorted {c : Char} (ps : List (Text × Value)) :
    (∃ s ∈ stringsMembers (sortedMembers ps), c ∈ s) ↔ ∃ s ∈ stringsMembers ps, c ∈ s := by
  cases ps with
  | nil => rfl
  | cons p ps =>
    obtain ⟨k, x⟩ := p
    rw [sortedMembers, stringsMembers, stringsMembers]
    simp only [List.mem_cons, List.mem_append, or_and_right, exists_or, exists_eq_left, mem_strings_sorted x,
      mem_stringsMembers_sorted ps]

end

def IsObject (x : Value) : Prop := ∃ ps, x = .object ps

theorem sorted_object {x : Value} (h : IsObject x) : IsObject (sorted x) := by
  obtain ⟨ps, rfl⟩ := h
  exact ⟨_, by rw [sorted]⟩

theorem write_object {pad : Text} {x : Value} (h : IsObject x) : ∃ t, write pad x = '\x7b' :: t := by
  obtain ⟨ps, rfl⟩ := h
  cases ps with
  | nil => exact ⟨_, by rw [write]⟩
  | cons p ps => exact ⟨_, by rw [write]⟩

theorem render_object {x : Value} (h : IsObject x) : ∃ t, render x = '\x7b' :: t := by
  rw [render_eq_write]
  exact write_object h

theorem readValue_object {n : ℕ} {t r : Text} {x : Value} (h : readValue n ('\x7b' :: t) = some (x, r)) :
    ∀ k, x ≠ .number k := by
  cases n with
  | zero => cases h
  | succ n =>
    rw [readValue, if_neg (by decide), if_pos rfl] at h
    intro k hk
    split at h
    · cases h
      cases hk
    · obtain ⟨p, _, hp⟩ := Option.map_eq_some_iff.mp h
      cases hp
      cases hk

def textOf (pad : Text) (x : Value) : Text := write pad (sorted x)

theorem dumps_eq_textOf (x : Value) : dumps x = textOf [' '] x := render_eq_write (sorted x)

theorem dumpsCompact_eq_textOf (x : Value) : dumpsCompact x = textOf [] x := compact_eq_write (sorted x)

section
variable {pad : Text} {x : Value}

theorem readValue_textOf (hpad : ∀ c ∈ pad, c = ' ') (hx : Distinct x) (hobj : IsObject x) (u : Text) {n : ℕ}
    (hn : 2 * (textOf pad x).length + 1 ≤ n) : readValue n (textOf pad x ++ u) = some (sorted x, u) := by
  obtain ⟨t, ht⟩ : ∃ t, write pad (sorted x) = '\x7b' :: t := write_object (sorted_object hobj)
  have hread := readsBack hpad (sorted x) (distinct_sorted x hx) n [] hn (by intro c hc; cases hc)
  have hnumber : ∀ k, sorted x ≠ .number k := by
    rw [List.append_nil, ht] at hread
    exact readValue_object hread
  rw [List.append_nil] at hread
  exact (read_append n).1 _ _ _ hread (fun _ => hnumber) n u (le_refl n)

theorem skip_textOf (hobj : IsObject x) (u : Text) : skip (textOf pad x ++ u) = textOf pad x ++ u := by
  obtain ⟨t, ht⟩ : ∃ t, write pad (sorted x) = '\x7b' :: t := write_object (sorted_object hobj)
  unfold textOf
  rw [ht, List.cons_append]
  exact skip_cons _ (by decide)

theorem loads_textOf_append (hpad : ∀ c ∈ pad, c = ' ') (hx : Distinct x) (hobj : IsObject x) (u : Text) :
    loads (textOf pad x ++ u) = if skip u = [] then some (sorted x) else none := by
  unfold loads
  rw [skip_textOf hobj, readValue_textOf hpad hx hobj u (by rw [List.length_append]; omega)]
  rfl

theorem loads_textOf (hpad : ∀ c ∈ pad, c = ' ') (hx : Distinct x) (hobj : IsObject x) :
    loads (textOf pad x) = some (sorted x) := by
  have h := loads_textOf_append hpad hx hobj []
  rwa [List.append_nil] at h

theorem readValue_textOf_cut (hpad : ∀ c ∈ pad, c = ' ') (hx : Distinct x) (hobj : IsObject x) {t u : Text}
    (htu : t ++ u = textOf pad x) (hu : u ≠ []) (n : ℕ) : readValue n t = none := by
  by_contra hsome
  obtain ⟨p, hp⟩ := Option.ne_none_iff_exists'.mp hsome
  cases t with
  | nil =>
    rw [readValue_nil] at hp
    cases hp
  | cons c t =>
    obtain ⟨v, hv⟩ : ∃ v, write pad (sorted x) = '\x7b' :: v := write_object (sorted_object hobj)
    have hc : c = '\x7b' := by
      unfold textOf at htu
      rw [hv, List.cons_append] at htu
      exact (List.cons.inj htu).1
    subst hc
    have hgoes := (read_append _).1 _ p.1 p.2 hp (fun _ => readValue_object hp) (n + (2 * (textOf pad x).length + 1)) u
      (by omega)
    have hwhole := readValue_textOf hpad hx hobj [] (n := n + (2 * (textOf pad x).length + 1)) (by omega)
    rw [htu] at hgoes
    rw [List.append_nil, hgoes] at hwhole
    have hrest := (Prod.mk.inj (Option.some.inj hwhole)).2
    exact hu (List.append_eq_nil_iff.mp hrest).2

theorem loads_textOf_cut (hpad : ∀ c ∈ pad, c = ' ') (hx : Distinct x) (hobj : IsObject x) {t u : Text}
    (htu : t ++ u = textOf pad x) (hu : u ≠ []) : loads t = none := by
  obtain ⟨v, hv⟩ : ∃ v, write pad (sorted x) = '\x7b' :: v := write_object (sorted_object hobj)
  have hskip : skip t = t := by
    cases t with
    | nil => rfl
    | cons c t =>
      unfold textOf at htu
      rw [hv, List.cons_append] at htu
      rw [(List.cons.inj htu).1]
      exact skip_cons t (by decide)
  unfold loads
  rw [hskip, readValue_textOf_cut hpad hx hobj htu hu, Option.bind_none]

end

theorem loads_dumps_append {x : Value} (hx : Distinct x) (hobj : IsObject x) (u : Text) :
    loads (dumps x ++ u) = if skip u = [] then some (sorted x) else none := by
  rw [dumps_eq_textOf]
  exact loads_textOf_append blank_pad hx hobj u

theorem loads_dumps {x : Value} (hx : Distinct x) (hobj : IsObject x) : loads (dumps x) = some (sorted x) := by
  rw [dumps_eq_textOf]
  exact loads_textOf blank_pad hx hobj

theorem readValue_cut {x : Value} (hx : Distinct x) (hobj : IsObject x) {t u : Text} (htu : t ++ u = dumps x)
    (hu : u ≠ []) (n : ℕ) : readValue n t = none :=
  readValue_textOf_cut blank_pad hx hobj (htu.trans (dumps_eq_textOf x)) hu n

theorem loads_cut {x : Value} (hx : Distinct x) (hobj : IsObject x) {t u : Text} (htu : t ++ u = dumps x)
    (hu : u ≠ []) : loads t = none :=
  loads_textOf_cut blank_pad hx hobj (htu.trans (dumps_eq_textOf x)) hu

theorem skip_append_of_nil {t : Text} (u : Text) (h : skip t = []) : skip (t ++ u) = skip u := by
  unfold skip at h ⊢
  rw [List.dropWhile_append, h]
  rfl

/-- Behind an object no other is read. -/
theorem loads_append_brace {t : Text} {x : Value} (u : Text) (h : loads t = some x) (hx : IsObject x) :
    loads (t ++ '\x7b' :: u) = none := by
  unfold loads at h
  obtain ⟨p, hp, hend⟩ := Option.bind_eq_some_iff.mp h
  by_cases hskip : skip p.2 = []
  · rw [if_pos hskip] at hend
    obtain rfl := Option.some.inj hend
    have hne : skip t ≠ [] := by
      intro hnil
      rw [hnil, readValue_nil] at hp
      cases hp
    have hnumber : p.2 = [] → ∀ k, p.1 ≠ .number k := by
      obtain ⟨ps, hps⟩ := hx
      intro _ k hk
      rw [hps] at hk
      cases hk
    have hgoes := (read_append _).1 _ p.1 p.2 hp hnumber (2 * (t ++ '\x7b' :: u).length + 2) ('\x7b' :: u)
      (by rw [List.length_append]; omega)
    unfold loads
    rw [skip_append _ hne, hgoes, Option.bind_some, skip_append_of_nil _ hskip, skip_cons u (by decide)]
    rfl
  · rw [if_neg hskip] at hend
    cases hend

theorem readValue_blank {c : Char} (hc : isSpace c = true) (t : Text) (n : ℕ) : readValue n (c :: t) = none := by
  cases n with
  | zero => rfl
  | succ n =>
    have hne : ∀ d : Char, isSpace d = false → c ≠ d := by
      intro d hd h
      rw [h, hd] at hc
      cases hc
    have hnumber : isNumberChar c = false := by
      by_contra h
      have hascii := isNumberChar_ascii (c := c) (by simpa using h)
      have hblank : c.toNat = 32 := by
        simp only [isSpace, Bool.or_eq_true, Bool.and_eq_true, decide_eq_true_eq, beq_iff_eq] at hc
        omega
      have hspace : c = ' ' := Char.toNat_inj.mp (hblank.trans (by decide))
      rw [hspace] at h
      exact h (by decide)
    rw [readValue, if_neg (hne '"' (by decide)), if_neg (hne '\x7b' (by decide)), if_neg (hne '[' (by decide)), readAtom,
      if_neg (hne 'n' (by decide)), if_neg (hne 't' (by decide)), if_neg (hne 'f' (by decide)), readNumber]
    have htake : (c :: t).takeWhile isNumberChar = [] := by simp [hnumber]
    rw [dif_neg (by rw [htake]; decide)]

/-- What is read behind blanks is read from its first character on. -/
theorem skip_of_read {b a : Text} {n : ℕ} {p : Value × Text} (hb : ∀ c ∈ b, isSpace c = true)
    (h : readValue n (skip (b ++ '\x7b' :: a)) = some p) : skip (b ++ '\x7b' :: a) = '\x7b' :: a := by
  by_cases hnil : skip b = []
  · rw [skip_append_of_nil _ hnil, skip_cons a (by decide)]
  · rw [skip_append _ hnil] at h
    cases hs : skip b with
    | nil => exact absurd hs hnil
    | cons c r =>
      have hmem : c ∈ b := (List.dropWhile_suffix (l := b) isJsonSpace).subset (by
        show c ∈ skip b
        rw [hs]
        exact List.mem_cons_self)
      rw [hs, List.cons_append, readValue_blank (hb c hmem)] at h
      cases h

theorem sorted_of_dumps {x y : Value} (hx : Distinct x) (hy : Distinct y) (hobjx : IsObject x) (hobjy : IsObject y)
    (h : dumps x = dumps y) : sorted x = sorted y := by
  have hread := loads_dumps hx hobjx
  rw [h, loads_dumps hy hobjy] at hread
  exact (Option.some.inj hread).symm

end EvoHarness.Json
