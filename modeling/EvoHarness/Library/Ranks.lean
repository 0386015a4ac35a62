import Mathlib.Data.List.FinRange
import Mathlib.Data.List.Sort
import Mathlib.Data.List.TakeWhile
import Mathlib.Data.List.Count
import Mathlib.Algebra.Order.Ring.Rat
import Mathlib.Algebra.BigOperators.Group.List.Basic
import Mathlib.Tactic.Linarith
import Mathlib.Tactic.Ring
import Mathlib.Tactic.FieldSimp

/-! Average ranks of a list of values, as two nested loops find them in the sorted list, and as the
numbers of smaller and of equal values. -/
namespace EvoHarness.Ranks
variable {ι α : Type*} [LinearOrder α]

/-- The places of an ascending list get the average of the places of their run of equal values; the
first place is `i`. -/
def assignRanks (v : ι → α) : ℕ → List ι → List (ι × ℚ)
  | _, [] => []
  | i, o :: rest =>
    let run := rest.takeWhile fun k => v k = v o
    let average : ℚ := ((i : ℚ) + (i + run.length : ℕ)) / 2 + 1
    (o :: run).map (·, average) ++ assignRanks v (i + run.length + 1) (rest.dropWhile fun k => v k = v o)
termination_by _ l => l.length
decreasing_by
  have := (List.dropWhile_suffix (l := rest) fun k => decide (v k = v o)).length_le
  simp only [List.length_cons]
  omega

/-- One more than the number of smaller values, and half of the number of others that are equal. -/
def rankIn (values : List α) (x : α) : ℚ := (values.countP (· < x) : ℚ) + ((values.countP (· = x) : ℚ) + 1) / 2

variable {v : ι → α}

theorem lt_of_mem_dropWhile {o k : ι} {rest : List ι} (hsorted : (o :: rest).Pairwise fun a b => v a ≤ v b)
    (hk : k ∈ rest.dropWhile fun k => v k = v o) : v o < v k := by
  have hrest := hsorted.sublist (List.Sublist.cons_cons o (List.dropWhile_suffix fun k => decide (v k = v o)).sublist)
  cases hd : rest.dropWhile fun k => decide (v k = v o) with
  | nil =>
    rw [hd] at hk
    exact nomatch hk
  | cons d ds =>
    have hne : ¬v d = v o := by
      have hhead := List.head?_dropWhile_not (fun k => decide (v k = v o)) rest
      rw [hd] at hhead
      simpa using hhead
    rw [hd] at hk hrest
    have hod : v o < v d := lt_of_le_of_ne (List.rel_of_pairwise_cons hrest List.mem_cons_self) (Ne.symm hne)
    rw [List.mem_cons] at hk
    cases hk with
    | inl hself => rw [hself]; exact hod
    | inr htail => exact lt_of_lt_of_le hod (List.rel_of_pairwise_cons (List.pairwise_cons.mp hrest).2 htail)

theorem keys_assignRanks (i : ℕ) (l : List ι) : (assignRanks v i l).map (·.1) = l := by
  induction i, l using assignRanks.induct v with
  | case1 i => simp [assignRanks]
  | case2 i o rest run ih =>
    rw [assignRanks, List.map_append, ih, List.map_map]
    change (o :: run).map id ++ _ = _
    rw [List.map_id, List.cons_append, List.takeWhile_append_dropWhile]

theorem mem_assignRanks (i : ℕ) (l : List ι) (hsorted : l.Pairwise fun a b => v a ≤ v b) :
    ∀ p ∈ assignRanks v i l, p.2 = (i : ℚ) + rankIn (l.map v) (v p.1) := by
  induction i, l using assignRanks.induct v with
  | case1 i => simp [assignRanks]
  | case2 i o rest run ih =>
    have hlater : ∀ k ∈ rest.dropWhile fun k => decide (v k = v o), v o < v k :=
      fun k hk => lt_of_mem_dropWhile hsorted hk
    have hrun : ∀ k ∈ o :: run, v k = v o := by
      intro k hk
      rw [List.mem_cons] at hk
      cases hk with
      | inl hself => rw [hself]
      | inr htake => simpa using List.mem_takeWhile_imp htake
    have hsplit : (o :: rest).map v = (o :: run).map v ++ (rest.dropWhile fun k => decide (v k = v o)).map v := by
      rw [← List.map_append, List.cons_append, List.takeWhile_append_dropWhile]
    have hequal : ∀ q : α → Bool, ((o :: run).map v).countP q = if q (v o) then run.length + 1 else 0 := by
      intro q
      rw [List.countP_map, List.countP_congr (q := fun _ => q (v o)) (fun k hk => by rw [Function.comp, hrun k hk])]
      split
      · next h => simp [h]
      · next h => simp [h]
    intro p hp
    rw [assignRanks, List.mem_append] at hp
    rw [hsplit, rankIn, List.countP_append, List.countP_append, hequal, hequal]
    cases hp with
    | inl hfirst =>
      obtain ⟨k, hk, rfl⟩ := List.mem_map.mp hfirst
      have hless : ((rest.dropWhile fun k => decide (v k = v o)).map v).countP (· < v o) = 0 := by
        rw [List.countP_map, List.countP_eq_zero]
        intro k hk
        simpa using (hlater k hk).le
      have hsame : ((rest.dropWhile fun k => decide (v k = v o)).map v).countP (· = v o) = 0 := by
        rw [List.countP_map, List.countP_eq_zero]
        intro k hk
        simpa using (hlater k hk).ne'
      rw [hrun k hk, hless, hsame]
      simp only [lt_self_iff_false, decide_false, Bool.false_eq_true, if_false, decide_true, if_true]
      push_cast
      ring
    | inr hthen =>
      have hmem : p.1 ∈ rest.dropWhile fun k => decide (v k = v o) := by
        rw [← keys_assignRanks (v := v) (i + run.length + 1) (rest.dropWhile fun k => decide (v k = v o))]
        exact List.mem_map_of_mem hthen
      have hgreater := hlater p.1 hmem
      rw [ih (hsorted.sublist (List.Sublist.cons _ (List.dropWhile_suffix fun k => decide (v k = v o)).sublist)) p hthen,
        rankIn]
      simp only [hgreater, hgreater.ne, decide_true, if_true, decide_false, Bool.false_eq_true, if_false]
      push_cast
      ring

def ranks (values : List α) : List ℚ :=
  let order := (List.finRange values.length).mergeSort fun a b => decide (values.get a ≤ values.get b)
  let assigned := assignRanks values.get 0 order
  (List.finRange values.length).map fun k => ((assigned.find? (·.1 = k)).map (·.2)).getD 0

theorem ranks_eq (values : List α) : ranks values = values.map (rankIn values) := by
  have hperm := List.mergeSort_perm (List.finRange values.length) fun a b => decide (values.get a ≤ values.get b)
  have hsorted : ((List.finRange values.length).mergeSort fun a b =>
      decide (values.get a ≤ values.get b)).Pairwise fun a b => values.get a ≤ values.get b := by
    have hpairwise := @List.pairwise_mergeSort _ (fun a b : Fin values.length => decide (values.get a ≤ values.get b))
      (fun a b c => by simpa using le_trans) (fun a b => by simpa using le_total _ _) (List.finRange values.length)
    simpa only [decide_eq_true_eq] using hpairwise
  have hvalues : ((List.finRange values.length).mergeSort fun a b =>
      decide (values.get a ≤ values.get b)).map values.get |>.Perm values := by
    have hmap := hperm.map values.get
    rwa [List.map_get_finRange] at hmap
  have hself : values.map (rankIn values) = (List.finRange values.length).map (rankIn values ∘ values.get) := by
    rw [← List.map_map, List.map_get_finRange]
  rw [hself, ranks]
  refine List.map_congr_left fun k _ => ?_
  generalize hassigned : assignRanks values.get 0 _ = assigned
  have hkey : k ∈ assigned.map (·.1) := by
    rw [← hassigned, keys_assignRanks, hperm.mem_iff]
    exact List.mem_finRange k
  cases hfind : assigned.find? (·.1 = k) with
  | none =>
    obtain ⟨p, hp, hpk⟩ := List.mem_map.mp hkey
    have hnone := List.find?_eq_none.mp hfind p hp
    simp [hpk] at hnone
  | some p =>
    have hp : p.1 = k := by simpa using List.find?_some hfind
    have hrank := mem_assignRanks 0 _ hsorted p (hassigned ▸ List.mem_of_find?_eq_some hfind)
    rw [Option.map_some, Option.getD_some, hrank, hp, Nat.cast_zero, zero_add, Function.comp, rankIn, rankIn,
      hvalues.countP_eq, hvalues.countP_eq]

section Orders
variable {β : Type*} [LinearOrder β]

theorem rankIn_congr {l : List ι} {f : ι → α} {g : ι → β} {c : ι}
    (h : ∀ a ∈ l, (f a < f c ↔ g a < g c) ∧ (f a = f c ↔ g a = g c)) :
    rankIn (l.map f) (f c) = rankIn (l.map g) (g c) := by
  have hless : (l.map f).countP (· < f c) = (l.map g).countP (· < g c) := by
    rw [List.countP_map, List.countP_map]
    exact List.countP_congr fun a ha => by simpa using (h a ha).1
  have hsame : (l.map f).countP (· = f c) = (l.map g).countP (· = g c) := by
    rw [List.countP_map, List.countP_map]
    exact List.countP_congr fun a ha => by simpa using (h a ha).2
  rw [rankIn, rankIn, hless, hsame]

theorem countP_add_countP (l : List α) (x : α) :
    l.countP (· < x) + l.countP (· = x) + l.countP (x < ·) = l.length := by
  induction l with
  | nil => rfl
  | cons a l ih =>
    simp only [List.countP_cons, List.length_cons, decide_eq_true_eq]
    obtain hlt | heq | hgt := lt_trichotomy a x
    · simp [hlt, hlt.ne, hlt.not_gt]
      omega
    · simp [heq]
      omega
    · simp [hgt, hgt.ne', hgt.not_gt]
      omega

theorem rankIn_turned {f : α → β} (hf : StrictAnti f) (l : List α) (x : α) :
    rankIn (l.map f) (f x) = l.length + 1 - rankIn l x := by
  have hless : (l.map f).countP (· < f x) = l.countP (x < ·) := by
    rw [List.countP_map]
    exact List.countP_congr fun a _ => by simpa using hf.lt_iff_gt
  have hsame : (l.map f).countP (· = f x) = l.countP (· = x) := by
    rw [List.countP_map]
    exact List.countP_congr fun a _ => by simpa using hf.injective.eq_iff
  have hsum : ((l.countP (· < x) : ℚ) + l.countP (· = x)) + l.countP (x < ·) = l.length := by
    exact_mod_cast countP_add_countP l x
  rw [rankIn, rankIn, hless, hsame, ← hsum]
  ring

theorem ranks_turned {f : α → β} (hf : StrictAnti f) (l : List α) :
    ranks (l.map f) = (ranks l).map ((l.length + 1 : ℚ) - ·) := by
  rw [ranks_eq, ranks_eq, List.map_map, List.map_map]
  exact List.map_congr_left fun x _ => rankIn_turned hf l x

end Orders

end EvoHarness.Ranks
