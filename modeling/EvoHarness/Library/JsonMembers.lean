import EvoHarness.Library.Json

/-! The members of JSON objects, the order they are written in, and integers. -/
namespace EvoHarness.Json
open PyText

def get (ps : List (Text × Value)) (k : Text) : Option Value := (ps.find? (·.1 = k)).map (·.2)

theorem mem_of_get {ps : List (Text × Value)} {k : Text} {x : Value} (h : get ps k = some x) : (k, x) ∈ ps := by
  obtain ⟨p, hp, rfl⟩ := Option.map_eq_some_iff.mp h
  have hk : p.1 = k := of_decide_eq_true (List.find?_some (p := fun p : Text × Value => decide (p.1 = k)) hp)
  rw [← hk]
  exact List.mem_of_find?_eq_some hp

theorem get_of_mem {ps : List (Text × Value)} {k : Text} {x : Value} (hps : (ps.map (·.1)).Nodup)
    (h : (k, x) ∈ ps) : get ps k = some x := by
  cases hget : get ps k with
  | none =>
    have hfind := List.find?_eq_none.mp (Option.map_eq_none_iff.mp hget) _ h
    exact (hfind (decide_eq_true rfl)).elim
  | some y =>
    have hpair := List.inj_on_of_nodup_map hps (mem_of_get hget) h rfl
    rw [(Prod.mk.inj hpair).2]

theorem sortedMembers_eq_map (ps : List (Text × Value)) : sortedMembers ps = ps.map fun p => (p.1, sorted p.2) := by
  induction ps with
  | nil => rw [sortedMembers, List.map_nil]
  | cons p ps ih => rw [sortedMembers, ih, List.map_cons]

theorem perm_of_sorted {ps qs : List (Text × Value)} (h : sorted (.object ps) = sorted (.object qs)) :
    (sortedMembers ps).Perm (sortedMembers qs) := by
  rw [sorted, sorted] at h
  have hps := List.mergeSort_perm (sortedMembers ps) fun p q => decide (p.1 ≤ q.1)
  rw [Value.object.inj h] at hps
  exact hps.symm.trans (List.mergeSort_perm _ _)

theorem get_sorted {ps qs : List (Text × Value)} (h : sorted (.object ps) = sorted (.object qs))
    (hqs : (qs.map (·.1)).Nodup) {k : Text} {x : Value} (hx : get ps k = some x) :
    ∃ y, get qs k = some y ∧ sorted x = sorted y := by
  have hmem : (k, sorted x) ∈ sortedMembers ps := by
    rw [sortedMembers_eq_map]
    exact List.mem_map.mpr ⟨(k, x), mem_of_get hx, rfl⟩
  rw [(perm_of_sorted h).mem_iff, sortedMembers_eq_map] at hmem
  obtain ⟨q, hq, heq⟩ := List.mem_map.mp hmem
  obtain ⟨rfl, hsorted⟩ := Prod.mk.inj heq
  exact ⟨q.2, get_of_mem hqs hq, hsorted.symm⟩

theorem eq_of_perm_of_keys {κ α : Type} {ps qs : List (κ × α)} (h : ps.Perm qs) (hkeys : ps.map (·.1) = qs.map (·.1))
    (hps : (ps.map (·.1)).Nodup) : ps = qs := by
  induction ps generalizing qs with
  | nil => exact h.nil_eq
  | cons p ps ih =>
    cases qs with
    | nil => exact nomatch hkeys
    | cons q qs =>
      obtain ⟨hkey, hrest⟩ := List.cons.inj hkeys
      have hnodup := List.nodup_cons.mp hps
      have hpq : p = q := by
        cases List.mem_cons.mp (h.subset List.mem_cons_self) with
        | inl hpq => exact hpq
        | inr hmem =>
          have hin : p.1 ∈ qs.map (·.1) := List.mem_map.mpr ⟨p, hmem, rfl⟩
          rw [← hrest] at hin
          exact (hnodup.1 hin).elim
      rw [hpq] at h ⊢
      rw [ih (List.Perm.cons_inv h) hrest hnodup.2]

theorem sortedMembers_of_sorted {ps qs : List (Text × Value)} (h : sorted (.object ps) = sorted (.object qs))
    (hkeys : ps.map (·.1) = qs.map (·.1)) (hps : (ps.map (·.1)).Nodup) : sortedMembers ps = sortedMembers qs := by
  refine eq_of_perm_of_keys (perm_of_sorted h) ?_ ?_
  · rw [keys_sortedMembers, keys_sortedMembers, hkeys]
  · rw [keys_sortedMembers]
    exact hps

theorem dumps_of_members {ps qs : List (Text × Value)} (h : sortedMembers ps = sortedMembers qs) :
    dumps (.object ps) = dumps (.object qs) := by
  rw [dumps, dumps, sorted, sorted, h]

theorem sorted_of_dumpsCompact {x y : Value} (hx : Distinct x) (hy : Distinct y) (hobjx : IsObject x)
    (hobjy : IsObject y) (h : dumpsCompact x = dumpsCompact y) : sorted x = sorted y := by
  rw [dumpsCompact_eq_textOf, dumpsCompact_eq_textOf] at h
  have hpad : ∀ c ∈ ([] : Text), c = ' ' := fun _ hc => nomatch hc
  have hread := loads_textOf hpad hx hobjx
  rw [h, loads_textOf hpad hy hobjy] at hread
  exact (Option.some.inj hread).symm

def arranged (ps : List (Text × Value)) : List (Text × Value) :=
  (sortedMembers ps).mergeSort fun p q => decide (p.1 ≤ q.1)

theorem sorted_object_eq (ps : List (Text × Value)) : sorted (.object ps) = .object (arranged ps) := by
  rw [sorted, arranged]

theorem arranged_perm (ps : List (Text × Value)) : (arranged ps).Perm (sortedMembers ps) := List.mergeSort_perm _ _

theorem keys_arranged (ps : List (Text × Value)) : ((arranged ps).map (·.1)).Perm (ps.map (·.1)) := by
  rw [← keys_sortedMembers ps]
  exact (arranged_perm ps).map (·.1)

theorem arranged_eq {ps qs : List (Text × Value)} (hperm : (sortedMembers ps).Perm qs)
    (hqs : qs.Pairwise fun p q => p.1 < q.1) : arranged ps = qs := by
  have hall : (arranged ps).Perm qs := (arranged_perm ps).trans hperm
  have hkeys : (qs.map (·.1)).Nodup := List.pairwise_map.mpr (hqs.imp fun h => ne_of_lt h)
  have hsorted : (arranged ps).Pairwise fun p q => p.1 ≤ q.1 := by
    have hpairs : (arranged ps).Pairwise fun p q => decide (p.1 ≤ q.1) = true := by
      apply List.pairwise_mergeSort
      · intro p q r hpq hqr
        exact decide_eq_true (le_trans (of_decide_eq_true hpq) (of_decide_eq_true hqr))
      · intro p q
        simpa using le_total p.1 q.1
    exact hpairs.imp fun h => of_decide_eq_true h
  refine hall.eq_of_pairwise ?_ hsorted (hqs.imp le_of_lt)
  intro p q hp hq hpq hqp
  exact List.inj_on_of_nodup_map hkeys (hall.mem_iff.mp hp) hq (le_antisymm hpq hqp)

theorem get_arranged {ps : List (Text × Value)} (hps : (ps.map (·.1)).Nodup) (k : Text) :
    get (arranged ps) k = (get ps k).map sorted := by
  have hnodup : ((arranged ps).map (·.1)).Nodup := (keys_arranged ps).nodup_iff.mpr hps
  cases hget : get ps k with
  | some x =>
    apply get_of_mem hnodup
    rw [(arranged_perm ps).mem_iff, sortedMembers_eq_map]
    exact List.mem_map.mpr ⟨(k, x), mem_of_get hget, rfl⟩
  | none =>
    cases hsorted : get (arranged ps) k with
    | none => rfl
    | some y =>
      have hmem := mem_of_get hsorted
      rw [(arranged_perm ps).mem_iff, sortedMembers_eq_map] at hmem
      obtain ⟨q, hq, heq⟩ := List.mem_map.mp hmem
      have hk : q.1 = k := (Prod.mk.inj heq).1
      rw [← hk, get_of_mem hps hq] at hget
      exact nomatch hget

mutual

theorem sorted_sorted (x : Value) : sorted (sorted x) = sorted x := by
  cases x with
  | array xs => rw [sorted, sorted, sortedItems_sortedItems xs]
  | object ps =>
    rw [sorted_object_eq, sorted_object_eq]
    have hsame : sortedMembers (arranged ps) = arranged ps := by
      rw [sortedMembers_eq_map]
      refine (List.map_congr_left fun p hp => ?_).trans (List.map_id _)
      rw [(arranged_perm ps).mem_iff] at hp
      exact Prod.ext rfl (sortedMembers_sorted ps p hp)
    rw [arranged, hsame]
    refine congrArg Value.object (List.mergeSort_of_pairwise ?_)
    apply List.pairwise_mergeSort
    · intro p q r hpq hqr
      simp only [decide_eq_true_eq] at hpq hqr ⊢
      exact le_trans hpq hqr
    · intro p q
      simp only [Bool.or_eq_true, decide_eq_true_eq]
      exact le_total p.1 q.1
  | null => rfl
  | bool b => rfl
  | number n => rfl
  | string s => rfl

theorem sortedItems_sortedItems (xs : List Value) : sortedItems (sortedItems xs) = sortedItems xs := by
  cases xs with
  | nil => rfl
  | cons x xs => rw [sortedItems, sortedItems, sorted_sorted x, sortedItems_sortedItems xs]

theorem sortedMembers_sorted (ps : List (Text × Value)) : ∀ p ∈ sortedMembers ps, sorted p.2 = p.2 := by
  cases ps with
  | nil => exact fun p hp => (List.not_mem_nil hp).elim
  | cons p ps =>
    obtain ⟨k, x⟩ := p
    rw [sortedMembers, List.forall_mem_cons]
    exact ⟨sorted_sorted x, sortedMembers_sorted ps⟩

end

mutual

def isDistinct : Value → Bool
  | .array xs => isDistinctItems xs
  | .object ps => decide (ps.map (·.1)).Nodup && isDistinctMembers ps
  | _ => true

def isDistinctItems : List Value → Bool
  | [] => true
  | x :: xs => isDistinct x && isDistinctItems xs

def isDistinctMembers : List (Text × Value) → Bool
  | [] => true
  | (_, x) :: ps => isDistinct x && isDistinctMembers ps

end

mutual

theorem isDistinct_iff (x : Value) : isDistinct x = true ↔ Distinct x := by
  cases x with
  | array xs => rw [isDistinct, Distinct, isDistinctItems_iff xs]
  | object ps => rw [isDistinct, Distinct, Bool.and_eq_true, decide_eq_true_eq, isDistinctMembers_iff ps]
  | null => exact iff_of_true rfl trivial
  | bool b => exact iff_of_true rfl trivial
  | number n => exact iff_of_true rfl trivial
  | string s => exact iff_of_true rfl trivial

theorem isDistinctItems_iff (xs : List Value) : isDistinctItems xs = true ↔ DistinctItems xs := by
  cases xs with
  | nil => exact iff_of_true rfl trivial
  | cons x xs => rw [isDistinctItems, DistinctItems, Bool.and_eq_true, isDistinct_iff x, isDistinctItems_iff xs]

theorem isDistinctMembers_iff (ps : List (Text × Value)) : isDistinctMembers ps = true ↔ DistinctMembers ps := by
  cases ps with
  | nil => exact iff_of_true rfl trivial
  | cons p ps =>
    obtain ⟨k, x⟩ := p
    rw [isDistinctMembers, DistinctMembers, Bool.and_eq_true, isDistinct_iff x, isDistinctMembers_iff ps]

end

instance (x : Value) : Decidable (Distinct x) := decidable_of_iff _ (isDistinct_iff x)

def isOne : Option Value → Bool
  | some (.bool b) => b
  | some (.number n) => n.text = ['1'] || n.text = "1.0".toList
  | _ => false

theorem distinct_object {ps : List (Text × Value)} :
    Distinct (.object ps) ↔ (ps.map (·.1)).Nodup ∧ ∀ p ∈ ps, Distinct p.2 := by
  rw [Distinct, distinctMembers_iff]

theorem sorted_null : sorted .null = .null := by simp only [sorted]

theorem sorted_bool (b : Bool) : sorted (.bool b) = .bool b := by simp only [sorted]

theorem sorted_number (n : Numeral) : sorted (.number n) = .number n := by simp only [sorted]

theorem sorted_string (t : Text) : sorted (.string t) = .string t := by simp only [sorted]

theorem sortedItems_strings (ts : List Text) : sortedItems (ts.map .string) = ts.map .string := by
  induction ts with
  | nil => rw [List.map_nil, sortedItems]
  | cons t ts ih => rw [List.map_cons, sortedItems, sorted_string, ih]

theorem distinctItems_strings (ts : List Text) : DistinctItems (ts.map .string) := by
  induction ts with
  | nil => trivial
  | cons t ts ih => exact ⟨trivial, ih⟩

def stringOf : Value → Option Text
  | .string s => some s
  | _ => none

def stringsOf : Value → Option (List Text)
  | .array xs => xs.mapM stringOf
  | _ => none

theorem stringsOf_strings (ts : List Text) : stringsOf (.array (ts.map .string)) = some ts := by
  rw [stringsOf]
  induction ts with
  | nil => rfl
  | cons t ts ih =>
    rw [List.map_cons, List.mapM_cons, ih]
    rfl

def Numeral.isInteger (n : Numeral) : Bool := n.text.all fun c => isDigit c || c = '-'

def Numeral.toInt? (n : Numeral) : Option ℤ :=
  if n.isInteger = false then none
  else if n.text.head? = some '-' then some (-(Nat.ofDigitChars 10 n.text.tail 0 : ℤ))
  else some (Nat.ofDigitChars 10 n.text 0 : ℤ)

theorem isDigit_eq (c : Char) : isDigit c = c.isDigit := by
  simp only [isDigit, Char.isDigit]
  rfl

theorem toDigits_digits (n : ℕ) : ∀ c ∈ Nat.toDigits 10 n, isDigit c = true := by
  intro c hc
  rw [isDigit_eq]
  exact Nat.isDigit_of_mem_toDigits (by decide) (by decide) hc

theorem head_toDigits {n : ℕ} (hn : 0 < n) : (Nat.toDigits 10 n).head? ≠ some '0' := by
  induction n using Nat.strong_induction_on with
  | _ n ih =>
    by_cases hlt : n < 10
    · rw [Nat.toDigits_of_lt_base hlt]
      intro h
      have hdigit : n.digitChar = '0' := Option.some.inj h
      have hvalue := Nat.toNat_digitChar_sub_48_of_lt_ten hlt
      rw [hdigit] at hvalue
      have hzero : ('0' : Char).toNat = 48 := by decide +kernel
      omega
    · have hdiv : 0 < n / 10 := Nat.div_pos (by omega) (by decide)
      rw [Nat.toDigits_of_base_le (by decide) (by omega)]
      have hhead := ih (n / 10) (Nat.div_lt_self hn (by decide)) hdiv
      cases hdigits : Nat.toDigits 10 (n / 10) with
      | nil => exact absurd hdigits Nat.toDigits_ne_nil
      | cons c t =>
        rw [hdigits] at hhead
        exact hhead

theorem isNumeral_zero : isNumeral "0.0".toList = true := by decide

theorem isNumeral_one : isNumeral "1.0".toList = true := by decide

theorem isNumeral_digits {t : Text} (ht : t ≠ []) (hdigits : ∀ c ∈ t, isDigit c = true)
    (hzero : t = ['0'] ∨ t.head? ≠ some '0') : isNumeral t = true := by
  have hall : (t.all isNumberChar) = true := by
    refine List.all_eq_true.mpr fun c hc => ?_
    simp only [isNumberChar, hdigits c hc, Bool.true_or]
  have hsign : t.head? ≠ some '-' := by
    intro h
    have hmem : '-' ∈ t := List.mem_of_head? h
    exact absurd (hdigits '-' hmem) (by decide)
  have htake : t.takeWhile isDigit = t := List.takeWhile_eq_self_iff.mpr hdigits
  have hdrop : t.dropWhile isDigit = [] := List.dropWhile_eq_nil_iff.mpr hdigits
  unfold isNumeral
  simp only [if_neg hsign, htake, hdrop, hall, Bool.and_true, ne_eq, decide_not, Bool.and_eq_true, Bool.not_eq_true',
    decide_eq_false_iff_not, Bool.or_eq_true, decide_eq_true_eq]
  exact ⟨⟨⟨ht, ht⟩, hzero⟩, by decide⟩

def Numeral.ofNat (n : ℕ) : Numeral where
  text := Nat.toDigits 10 n
  valid := by
    refine isNumeral_digits Nat.toDigits_ne_nil (toDigits_digits n) ?_
    by_cases hn : n = 0
    · left
      rw [hn]
      exact Nat.toDigits_zero 10
    · exact Or.inr (head_toDigits (Nat.pos_of_ne_zero hn))

theorem toInt?_ofNat (n : ℕ) : (Numeral.ofNat n).toInt? = some (n : ℤ) := by
  have hinteger : (Numeral.ofNat n).isInteger = true := by
    refine List.all_eq_true.mpr fun c hc => ?_
    rw [toDigits_digits n c hc, Bool.true_or]
  have hsign : (Numeral.ofNat n).text.head? ≠ some '-' := by
    intro h
    exact absurd (toDigits_digits n '-' (List.mem_of_head? h)) (by decide)
  unfold Numeral.toInt?
  rw [hinteger, if_neg (by decide), if_neg hsign]
  exact congrArg (fun k : ℕ => some (k : ℤ)) Nat.ofDigitChars_ten_toDigits

theorem isNumeral_negative (n : ℕ) : isNumeral ('-' :: Nat.toDigits 10 n) = true := by
  have hne : Nat.toDigits 10 n ≠ [] := Nat.toDigits_ne_nil
  have hpositive := (Numeral.ofNat n).valid
  have hsign : (Nat.toDigits 10 n).head? ≠ some '-' := by
    intro h
    exact absurd (toDigits_digits n '-' (List.mem_of_head? h)) (by decide)
  have hnumber : isNumberChar '-' = true := by decide
  unfold isNumeral at hpositive ⊢
  simp only [Numeral.ofNat, hsign, if_false, Bool.and_eq_true] at hpositive
  simp only [List.head?_cons, if_true, List.tail_cons, List.all_cons, hnumber, Bool.true_and, Bool.and_eq_true]
  exact ⟨⟨⟨⟨by simp, hpositive.1.1.1.2⟩, hpositive.1.1.2⟩, hpositive.1.2⟩, hpositive.2⟩

def Numeral.ofInt : ℤ → Numeral
  | .ofNat n => .ofNat n
  | .negSucc n => ⟨'-' :: Nat.toDigits 10 (n + 1), isNumeral_negative (n + 1)⟩

/-- `json.loads(json.dumps(x))`, with the keys in the order they were put in. -/
theorem loads_render {x : Value} (hx : Distinct x) : loads (render x) = some x := by
  have hread := readsBack blank_pad x hx (2 * (render x).length + 2) [] (by rw [← render_eq_write]; omega)
    (fun c hc => nomatch hc)
  have hskip : skip (write [' '] x ++ []) = write [' '] x ++ [] := (skip_write x []).1
  rw [List.append_nil, ← render_eq_write] at hread hskip
  unfold loads
  rw [hskip, hread]
  rfl

end EvoHarness.Json
