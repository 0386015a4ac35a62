import EvoHarness.Library.JsonMembers
import Mathlib.Algebra.Order.Field.Rat

/-! The values of numbers, and JSON values that differ in how their numbers are written. -/
namespace EvoHarness.Json
open PyText

def exponentOf : Text → ℤ
  | _ :: '-' :: t => -(Nat.ofDigitChars 10 t 0 : ℤ)
  | _ :: '+' :: t => (Nat.ofDigitChars 10 t 0 : ℤ)
  | _ :: t => (Nat.ofDigitChars 10 t 0 : ℤ)
  | [] => 0

def sizeOf (t : Text) : ℚ :=
  let whole := t.takeWhile isDigit
  let rest := t.dropWhile isDigit
  let fraction := if rest.head? = some '.' then rest.tail.takeWhile isDigit else []
  let exponent := if rest.head? = some '.' then rest.tail.dropWhile isDigit else rest
  (Nat.ofDigitChars 10 (whole ++ fraction) 0 : ℚ) * 10 ^ (exponentOf exponent - fraction.length)

def Numeral.value (n : Numeral) : ℚ := if n.text.head? = some '-' then -sizeOf n.text.tail else sizeOf n.text

theorem sizeOf_digits {t : Text} (h : ∀ c ∈ t, isDigit c = true) : sizeOf t = (Nat.ofDigitChars 10 t 0 : ℚ) := by
  have htake : t.takeWhile isDigit = t := List.takeWhile_eq_self_iff.mpr h
  have hdrop : t.dropWhile isDigit = [] := List.dropWhile_eq_nil_iff.mpr h
  simp [sizeOf, htake, hdrop, exponentOf]

theorem digits_of_isNumeral {t : Text} (hall : ∀ c ∈ t, isDigit c = true ∨ c = '-')
    (hrest : isFraction (t.dropWhile isDigit) = true) : ∀ c ∈ t, isDigit c = true := by
  cases hdrop : t.dropWhile isDigit with
  | nil => exact List.dropWhile_eq_nil_iff.mp hdrop
  | cons d rest =>
    have hd : isDigit d = false := by
      have hhead := List.head?_dropWhile_not isDigit t
      rw [hdrop] at hhead
      simpa using hhead
    have hmem : d ∈ t := (List.dropWhile_suffix isDigit).mem (hdrop ▸ List.mem_cons_self)
    have hminus : d = '-' := (hall d hmem).resolve_left (by simp [hd])
    rw [hdrop, hminus, isFraction, if_neg (by simp), isExponent] at hrest
    exact nomatch hrest

theorem value_of_toInt {n : Numeral} {z : ℤ} (h : n.toInt? = some z) : n.value = z := by
  unfold Numeral.toInt? at h
  split at h
  · exact nomatch h
  · next hinteger =>
    rw [Bool.not_eq_false, Numeral.isInteger, List.all_eq_true] at hinteger
    have hvalid := n.valid
    unfold isNumeral at hvalid
    rw [Numeral.value]
    split at h
    · next hsign =>
      cases h
      simp only [if_pos hsign, Bool.and_eq_true] at hvalid
      rw [if_pos hsign, sizeOf_digits (digits_of_isNumeral (fun c hc => ?_) hvalid.2)]
      · push_cast
        rfl
      · simpa using hinteger c (List.mem_of_mem_tail hc)
    · next hsign =>
      cases h
      simp only [if_neg hsign, Bool.and_eq_true] at hvalid
      rw [if_neg hsign, sizeOf_digits (digits_of_isNumeral (fun c hc => ?_) hvalid.2)]
      · push_cast
        rfl
      · simpa using hinteger c hc

theorem value_ofNat (k : ℕ) : (Numeral.ofNat k).value = k := value_of_toInt (toInt?_ofNat k)

theorem arranged_strict {ps : List (Text × Value)} (hps : (ps.map (·.1)).Nodup) :
    (arranged ps).Pairwise fun p q => p.1 < q.1 := by
  have hsorted : (arranged ps).Pairwise fun p q => p.1 ≤ q.1 := by
    have hpairs : (arranged ps).Pairwise fun p q => decide (p.1 ≤ q.1) = true := by
      apply List.pairwise_mergeSort
      · intro p q r hpq hqr
        simp only [decide_eq_true_eq] at hpq hqr ⊢
        exact le_trans hpq hqr
      · intro p q
        simp only [Bool.or_eq_true, decide_eq_true_eq]
        exact le_total p.1 q.1
    simpa only [decide_eq_true_eq] using hpairs
  have hnodup := List.pairwise_map.mp ((keys_arranged ps).nodup_iff.mpr hps)
  exact (hsorted.and hnodup).imp fun h => lt_of_le_of_ne h.1 h.2

theorem mem_arranged_iff {ps : List (Text × Value)} (hps : (ps.map (·.1)).Nodup) (p : Text × Value) :
    p ∈ arranged ps ↔ (get ps p.1).map sorted = some p.2 := by
  have hnodup := (keys_arranged ps).nodup_iff.mpr hps
  rw [← get_arranged hps]
  exact ⟨get_of_mem hnodup, mem_of_get⟩

theorem sorted_object_congr {ps qs : List (Text × Value)} (hps : (ps.map (·.1)).Nodup) (hqs : (qs.map (·.1)).Nodup)
    (h : ∀ k, (get ps k).map sorted = (get qs k).map sorted) : sorted (.object ps) = sorted (.object qs) := by
  have hnodup : ∀ {rs : List (Text × Value)}, (rs.map (·.1)).Nodup → (arranged rs).Nodup := fun hrs =>
    List.Nodup.of_map _ ((keys_arranged _).nodup_iff.mpr hrs)
  have hperm : (arranged ps).Perm (arranged qs) := by
    rw [List.perm_ext_iff_of_nodup (hnodup hps) (hnodup hqs)]
    intro p
    rw [mem_arranged_iff hps, mem_arranged_iff hqs, h]
  rw [sorted_object_eq, sorted_object_eq,
    arranged_eq ((arranged_perm ps).symm.trans hperm) (arranged_strict hqs)]

mutual

def mapNumbers (f : Numeral → Numeral) : Value → Value
  | .number n => .number (f n)
  | .array xs => .array (mapItems f xs)
  | .object ps => .object (mapMembers f ps)
  | x => x

def mapItems (f : Numeral → Numeral) : List Value → List Value
  | [] => []
  | x :: xs => mapNumbers f x :: mapItems f xs

def mapMembers (f : Numeral → Numeral) : List (Text × Value) → List (Text × Value)
  | [] => []
  | (k, x) :: ps => (k, mapNumbers f x) :: mapMembers f ps

end

noncomputable def canon (n : Numeral) : Numeral :=
  haveI : Nonempty Numeral := ⟨n⟩
  Function.invFun Numeral.value n.value

def Alike (x y : Value) : Prop := sorted (mapNumbers canon x) = sorted (mapNumbers canon y)

section
variable (f : Numeral → Numeral)

theorem mapMembers_eq_map (ps : List (Text × Value)) : mapMembers f ps = ps.map fun p => (p.1, mapNumbers f p.2) := by
  induction ps with
  | nil => rw [mapMembers, List.map_nil]
  | cons p ps ih => rw [mapMembers, ih, List.map_cons]

theorem keys_mapMembers (ps : List (Text × Value)) : (mapMembers f ps).map (·.1) = ps.map (·.1) := by
  rw [mapMembers_eq_map, List.map_map]
  rfl

theorem get_mapMembers (ps : List (Text × Value)) (k : Text) : get (mapMembers f ps) k = (get ps k).map (mapNumbers f) := by
  rw [mapMembers_eq_map, get, List.find?_map, get, Option.map_map, Option.map_map]
  rfl

mutual

theorem mapNumbers_sorted (x : Value) : mapNumbers f (sorted x) = sorted (mapNumbers f x) := by
  cases x with
  | array xs => rw [sorted, mapNumbers, mapNumbers, sorted, mapItems_sorted xs]
  | object ps =>
    have hmerge : ((sortedMembers ps).mergeSort fun p q => decide (p.1 ≤ q.1)).map (fun p => (p.1, mapNumbers f p.2)) =
        (((sortedMembers ps).map fun p => (p.1, mapNumbers f p.2)).mergeSort fun p q => decide (p.1 ≤ q.1)) :=
      List.map_mergeSort fun _ _ _ _ => rfl
    rw [mapNumbers, sorted_object_eq, sorted_object_eq, mapNumbers, arranged, arranged, mapMembers_eq_map, hmerge,
      ← mapMembers_eq_map, mapMembers_sorted ps]
  | null => rfl
  | bool b => rfl
  | number n => rfl
  | string s => rfl

theorem mapItems_sorted (xs : List Value) : mapItems f (sortedItems xs) = sortedItems (mapItems f xs) := by
  cases xs with
  | nil => rfl
  | cons x xs => rw [sortedItems, mapItems, mapItems, sortedItems, mapNumbers_sorted x, mapItems_sorted xs]

theorem mapMembers_sorted (ps : List (Text × Value)) : mapMembers f (sortedMembers ps) = sortedMembers (mapMembers f ps) := by
  cases ps with
  | nil => rfl
  | cons p ps =>
    obtain ⟨k, x⟩ := p
    rw [sortedMembers, mapMembers, mapMembers, sortedMembers, mapNumbers_sorted x, mapMembers_sorted ps]

end

end

theorem canon_eq_iff {n m : Numeral} : canon n = canon m ↔ n.value = m.value := by
  have hvalue : ∀ k : Numeral, (canon k).value = k.value := by
    intro k
    have : Nonempty Numeral := ⟨k⟩
    exact Function.invFun_eq ⟨k, rfl⟩
  constructor
  · intro h
    rw [← hvalue n, h, hvalue]
  · intro h
    unfold canon
    rw [h]

namespace Alike

theorem refl (x : Value) : Alike x x := rfl

theorem symm {x y : Value} (h : Alike x y) : Alike y x := Eq.symm h

theorem trans {x y z : Value} (h : Alike x y) (h' : Alike y z) : Alike x z := Eq.trans h h'

theorem of_sorted {x y : Value} (h : sorted x = sorted y) : Alike x y := by
  unfold Alike
  rw [← mapNumbers_sorted, h, mapNumbers_sorted]

theorem number_iff {n m : Numeral} : Alike (.number n) (.number m) ↔ n.value = m.value := by
  rw [← canon_eq_iff]
  exact ⟨fun h => Value.number.inj h, congrArg Value.number⟩

theorem string_iff {s t : Text} : Alike (.string s) (.string t) ↔ s = t :=
  ⟨fun h => Value.string.inj h, fun h => h ▸ refl _⟩

/-- Objects are alike when their keys are the same and stand for values that are alike. -/
theorem object {ps qs : List (Text × Value)} (hps : (ps.map (·.1)).Nodup) (hqs : (qs.map (·.1)).Nodup)
    (h : ∀ k, Option.Rel Alike (get ps k) (get qs k)) : Alike (.object ps) (.object qs) := by
  unfold Alike
  rw [mapNumbers, mapNumbers]
  refine sorted_object_congr (by rwa [keys_mapMembers]) (by rwa [keys_mapMembers]) fun k => ?_
  rw [get_mapMembers, get_mapMembers]
  have hk := h k
  cases hp : get ps k with
  | none =>
    rw [hp] at hk
    cases hq : get qs k with
    | none => rfl
    | some y => rw [hq] at hk; exact nomatch hk
  | some x =>
    rw [hp] at hk
    cases hq : get qs k with
    | none => rw [hq] at hk; exact nomatch hk
    | some y =>
      rw [hq] at hk
      cases hk with
      | some hxy => exact congrArg some hxy

theorem get_rel {ps qs : List (Text × Value)} (hps : (ps.map (·.1)).Nodup) (hqs : (qs.map (·.1)).Nodup)
    (h : Alike (.object ps) (.object qs)) (k : Text) : Option.Rel Alike (get ps k) (get qs k) := by
  unfold Alike at h
  rw [mapNumbers, mapNumbers] at h
  have hps' : ((mapMembers canon ps).map (·.1)).Nodup := by rwa [keys_mapMembers]
  have hqs' : ((mapMembers canon qs).map (·.1)).Nodup := by rwa [keys_mapMembers]
  rw [sorted_object_eq, sorted_object_eq, Value.object.injEq] at h
  have hk := get_arranged hps' k
  rw [h, get_arranged hqs', get_mapMembers, get_mapMembers] at hk
  cases hp : get ps k with
  | none =>
    cases hq : get qs k with
    | none => exact .none
    | some y => rw [hp, hq] at hk; exact nomatch hk
  | some x =>
    cases hq : get qs k with
    | none => rw [hp, hq] at hk; exact nomatch hk
    | some y =>
      rw [hp, hq] at hk
      exact .some (Option.some.inj hk).symm

theorem object_of_names {ps qs : List (Text × Value)} {names : List Text} (hps : (ps.map (·.1)).Nodup)
    (hqs : (qs.map (·.1)).Nodup) (hp : ∀ p ∈ ps, p.1 ∈ names) (hq : ∀ q ∈ qs, q.1 ∈ names)
    (h : ∀ k ∈ names, Option.Rel Alike (get ps k) (get qs k)) : Alike (.object ps) (.object qs) := by
  have hnone : ∀ {rs : List (Text × Value)} {k : Text}, (∀ r ∈ rs, r.1 ∈ names) → k ∉ names → get rs k = none := by
    intro rs k hrs hk
    cases hget : get rs k with
    | none => rfl
    | some x => exact absurd (hrs _ (mem_of_get hget)) hk
  refine object hps hqs fun k => ?_
  by_cases hk : k ∈ names
  · exact h k hk
  · rw [hnone hp hk, hnone hq hk]
    exact .none

end Alike

def put (ps : List (Text × Value)) (k : Text) (v : Value) : List (Text × Value) :=
  ps.map fun p => if p.1 = k then (p.1, v) else p

theorem keys_put (ps : List (Text × Value)) (k : Text) (v : Value) : (put ps k v).map (·.1) = ps.map (·.1) := by
  rw [put, List.map_map]
  refine List.map_congr_left fun p _ => ?_
  rw [Function.comp_apply]
  split <;> rfl

theorem get_put (ps : List (Text × Value)) (k k' : Text) (v : Value) :
    get (put ps k v) k' = if k' = k then (get ps k).map fun _ => v else get ps k' := by
  induction ps with
  | nil => split <;> rfl
  | cons p ps ih =>
    have hcons : ∀ (q : Text × Value) (rs : List (Text × Value)) (j : Text),
        get (q :: rs) j = if q.1 = j then some q.2 else get rs j := by
      intro q rs j
      by_cases hq : q.1 = j <;> simp [get, hq]
    rw [put, List.map_cons, hcons, hcons p, hcons p, ← put, ih]
    by_cases hp : p.1 = k
    · by_cases hk : k' = k
      · simp [hp, hk]
      · have hpk : p.1 ≠ k' := fun h => hk (h.symm.trans hp)
        simp [hp, hk, Ne.symm hk]
    · by_cases hk : k' = k
      · simp [hp, hk]
      · simp [hp, hk]

theorem mem_keys_put {ps : List (Text × Value)} {k : Text} {v : Value} {names : List Text} (h : ∀ p ∈ ps, p.1 ∈ names) :
    ∀ p ∈ put ps k v, p.1 ∈ names := by
  intro p hp
  have hmem : p.1 ∈ (put ps k v).map (·.1) := List.mem_map_of_mem hp
  rw [keys_put] at hmem
  obtain ⟨q, hq, hqp⟩ := List.mem_map.mp hmem
  rw [← hqp]
  exact h q hq

theorem distinct_put {ps : List (Text × Value)} {k : Text} {v : Value} (hps : Distinct (.object ps)) (hv : Distinct v) :
    Distinct (.object (put ps k v)) := by
  rw [distinct_object] at hps ⊢
  refine ⟨by rw [keys_put]; exact hps.1, fun p hp => ?_⟩
  obtain ⟨q, hq, rfl⟩ := List.mem_map.mp hp
  split
  · exact hv
  · exact hps.2 q hq

end EvoHarness.Json
