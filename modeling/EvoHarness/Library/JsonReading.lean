import EvoHarness.Library.JsonNumbers

/-! What `json.loads` gives lists each key once, and so it is what its compact text is read as. -/
namespace EvoHarness.Json
open PyText

theorem mem_insertKey {k : Text} {x : Value} {ps : List (Text × Value)} {p : Text × Value} (h : p ∈ insertKey k x ps) :
    p = (k, x) ∨ p ∈ ps := by
  induction ps with
  | nil => exact .inl (List.mem_singleton.mp h)
  | cons q ps ih =>
    rw [insertKey] at h
    split at h
    · rcases List.mem_cons.mp h with h | h
      · exact .inl h
      · exact .inr (List.mem_cons_of_mem _ h)
    · rcases List.mem_cons.mp h with h | h
      · exact .inr (h ▸ List.mem_cons_self)
      · exact (ih h).imp_right (List.mem_cons_of_mem _)

theorem nodup_insertKey {k : Text} {x : Value} {ps : List (Text × Value)} (h : (ps.map (·.1)).Nodup) :
    ((insertKey k x ps).map (·.1)).Nodup := by
  induction ps with
  | nil => simp [insertKey]
  | cons q ps ih =>
    rw [List.map_cons, List.nodup_cons] at h
    rw [insertKey]
    split
    · next hq =>
      rw [List.map_cons, List.nodup_cons]
      exact ⟨hq ▸ h.1, h.2⟩
    · next hq =>
      rw [List.map_cons, List.nodup_cons]
      refine ⟨fun hmem => ?_, ih h.2⟩
      obtain ⟨p, hp, hpq⟩ := List.mem_map.mp hmem
      rcases mem_insertKey hp with rfl | hp
      · exact hq hpq.symm
      · exact h.1 (List.mem_map.mpr ⟨p, hp, hpq⟩)

theorem distinct_dict {ps : List (Text × Value)} (h : ∀ p ∈ ps, Distinct p.2) : Distinct (.object (dict ps)) := by
  have hfold : ∀ (qs acc : List (Text × Value)), (∀ p ∈ qs, Distinct p.2) → Distinct (.object acc) →
      Distinct (.object (qs.foldl (fun acc p => insertKey p.1 p.2 acc) acc)) := by
    intro qs
    induction qs with
    | nil => exact fun acc _ hacc => hacc
    | cons q qs ih =>
      intro acc hqs hacc
      rw [List.foldl_cons]
      refine ih _ (fun p hp => hqs p (List.mem_cons_of_mem _ hp)) (distinct_object.mpr ?_)
      rw [distinct_object] at hacc
      refine ⟨nodup_insertKey hacc.1, fun p hp => ?_⟩
      rcases mem_insertKey hp with rfl | hp
      · exact hqs q List.mem_cons_self
      · exact hacc.2 p hp
  exact hfold ps [] h (distinct_object.mpr ⟨List.nodup_nil, fun p hp => nomatch hp⟩)

theorem distinct_readAtom {c : Char} {t : Text} {p : Value × Text} (h : readAtom c t = some p) : Distinct p.1 := by
  have hword : ∀ {word : Text} {x : Value}, Distinct x → readWord word x t = some p → Distinct p.1 := by
    intro word x hx hread
    unfold readWord at hread
    split at hread
    · cases hread
      exact hx
    · exact nomatch hread
  unfold readAtom at h
  split at h
  · exact hword (x := .null) trivial h
  · split at h
    · exact hword (x := .bool true) trivial h
    · split at h
      · exact hword (x := .bool false) trivial h
      · unfold readNumber at h
        split at h
        · cases h
          trivial
        · exact nomatch h

theorem distinct_read (n : ℕ) :
    (∀ t p, readValue n t = some p → Distinct p.1) ∧ (∀ t p, readItems n t = some p → DistinctItems p.1) ∧
      ∀ t p, readMembers n t = some p → ∀ q ∈ p.1, Distinct q.2 := by
  induction n with
  | zero =>
    refine ⟨fun t p h => ?_, fun t p h => ?_, fun t p h => ?_⟩
    · rw [readValue] at h
      cases h
    · rw [readItems] at h
      cases h
    · rw [readMembers] at h
      cases h
  | succ n ih =>
    obtain ⟨hvalue, hitems, hmembers⟩ := ih
    refine ⟨fun t p h => ?_, fun t p h => ?_, fun t p h => ?_⟩
    · cases t with
      | nil => cases h
      | cons c t =>
        rw [readValue] at h
        split at h
        · obtain ⟨s, -, rfl⟩ := Option.map_eq_some_iff.mp h
          trivial
        · split at h
          · split at h
            · cases h
              exact distinct_object.mpr ⟨List.nodup_nil, fun q hq => by cases hq⟩
            · obtain ⟨ps, hps, rfl⟩ := Option.map_eq_some_iff.mp h
              exact distinct_dict (hmembers _ _ hps)
          · split at h
            · split at h
              · cases h
                trivial
              · obtain ⟨xs, hxs, rfl⟩ := Option.map_eq_some_iff.mp h
                exact hitems _ _ hxs
            · exact distinct_readAtom h
    · rw [readItems] at h
      obtain ⟨x, hx, h⟩ := Option.bind_eq_some_iff.mp h
      split at h
      · cases h
        exact ⟨hvalue _ _ hx, trivial⟩
      · split at h
        · obtain ⟨xs, hxs, rfl⟩ := Option.map_eq_some_iff.mp h
          exact ⟨hvalue _ _ hx, hitems _ _ hxs⟩
        · cases h
    · cases t with
      | nil => cases h
      | cons c t =>
        rw [readMembers] at h
        split at h
        · obtain ⟨key, -, h⟩ := Option.bind_eq_some_iff.mp h
          split at h
          · obtain ⟨x, hx, h⟩ := Option.bind_eq_some_iff.mp h
            split at h
            · cases h
              exact List.forall_mem_singleton.mpr (hvalue _ _ hx)
            · split at h
              · obtain ⟨ps, hps, rfl⟩ := Option.map_eq_some_iff.mp h
                exact List.forall_mem_cons.mpr ⟨hvalue _ _ hx, hmembers _ _ hps⟩
              · cases h
          · cases h
        · cases h

theorem distinct_loads {t : Text} {x : Value} (h : loads t = some x) : Distinct x := by
  unfold loads at h
  obtain ⟨p, hp, hx⟩ := Option.bind_eq_some_iff.mp h
  split at hx
  · cases hx
    exact (distinct_read _).1 _ _ hp
  · exact nomatch hx

section
variable (f : Numeral → Numeral)

mutual

theorem distinct_mapNumbers (x : Value) (hx : Distinct x) : Distinct (mapNumbers f x) := by
  cases x with
  | array xs =>
    rw [mapNumbers]
    exact distinctItems_mapItems xs hx
  | object ps =>
    rw [mapNumbers, Distinct, keys_mapMembers]
    rw [Distinct] at hx
    exact ⟨hx.1, distinctMembers_mapMembers ps hx.2⟩
  | null => trivial
  | bool b => trivial
  | number n => trivial
  | string s => trivial

theorem distinctItems_mapItems (xs : List Value) (hxs : DistinctItems xs) : DistinctItems (mapItems f xs) := by
  cases xs with
  | nil => trivial
  | cons x xs => exact ⟨distinct_mapNumbers x hxs.1, distinctItems_mapItems xs hxs.2⟩

theorem distinctMembers_mapMembers (ps : List (Text × Value)) (hps : DistinctMembers ps) :
    DistinctMembers (mapMembers f ps) := by
  cases ps with
  | nil => trivial
  | cons p ps => exact ⟨distinct_mapNumbers p.2 hps.1, distinctMembers_mapMembers ps hps.2⟩

end

end

mutual

def allNumbers (p : Numeral → Bool) : Value → Bool
  | .number n => p n
  | .array xs => allItems p xs
  | .object ps => allMembers p ps
  | _ => true

def allItems (p : Numeral → Bool) : List Value → Bool
  | [] => true
  | x :: xs => allNumbers p x && allItems p xs

def allMembers (p : Numeral → Bool) : List (Text × Value) → Bool
  | [] => true
  | (_, x) :: ps => allNumbers p x && allMembers p ps

end

section
variable {p : Numeral → Bool} {f : Numeral → Numeral}

theorem allMembers_eq (ps : List (Text × Value)) : allMembers p ps = ps.all fun q => allNumbers p q.2 := by
  induction ps with
  | nil => rfl
  | cons q ps ih => rw [allMembers, ih, List.all_cons]

mutual

theorem allNumbers_sorted (x : Value) : allNumbers p (sorted x) = allNumbers p x := by
  cases x with
  | array xs => rw [sorted, allNumbers, allNumbers, allItems_sorted xs]
  | object ps =>
    rw [sorted_object_eq, allNumbers, allNumbers, allMembers_eq, (arranged_perm ps).all_eq, ← allMembers_eq,
      allMembers_sorted ps]
  | null => rfl
  | bool b => rfl
  | number n => rfl
  | string s => rfl

theorem allItems_sorted (xs : List Value) : allItems p (sortedItems xs) = allItems p xs := by
  cases xs with
  | nil => rfl
  | cons x xs => rw [sortedItems, allItems, allItems, allNumbers_sorted x, allItems_sorted xs]

theorem allMembers_sorted (ps : List (Text × Value)) : allMembers p (sortedMembers ps) = allMembers p ps := by
  cases ps with
  | nil => rfl
  | cons q ps =>
    obtain ⟨k, x⟩ := q
    rw [sortedMembers, allMembers, allMembers, allNumbers_sorted x, allMembers_sorted ps]

end

mutual

theorem mapNumbers_again (hf : ∀ n, p n = true → p (f n) = true ∧ f (f n) = f n) (x : Value)
    (hx : allNumbers p x = true) :
    allNumbers p (mapNumbers f x) = true ∧ mapNumbers f (mapNumbers f x) = mapNumbers f x := by
  cases x with
  | number n => exact ⟨(hf n hx).1, congrArg Value.number (hf n hx).2⟩
  | array xs =>
    obtain ⟨hall, hmap⟩ := mapItems_again hf xs hx
    exact ⟨hall, congrArg Value.array hmap⟩
  | object ps =>
    obtain ⟨hall, hmap⟩ := mapMembers_again hf ps hx
    exact ⟨hall, congrArg Value.object hmap⟩
  | null => exact ⟨rfl, rfl⟩
  | bool b => exact ⟨rfl, rfl⟩
  | string s => exact ⟨rfl, rfl⟩

theorem mapItems_again (hf : ∀ n, p n = true → p (f n) = true ∧ f (f n) = f n) (xs : List Value)
    (hxs : allItems p xs = true) :
    allItems p (mapItems f xs) = true ∧ mapItems f (mapItems f xs) = mapItems f xs := by
  cases xs with
  | nil => exact ⟨rfl, rfl⟩
  | cons x xs =>
    rw [allItems, Bool.and_eq_true] at hxs
    obtain ⟨hall, hmap⟩ := mapNumbers_again hf x hxs.1
    obtain ⟨halls, hmaps⟩ := mapItems_again hf xs hxs.2
    rw [mapItems, allItems, hall, halls, mapItems, hmap, hmaps]
    exact ⟨rfl, rfl⟩

theorem mapMembers_again (hf : ∀ n, p n = true → p (f n) = true ∧ f (f n) = f n)
    (ps : List (Text × Value)) (hps : allMembers p ps = true) :
    allMembers p (mapMembers f ps) = true ∧ mapMembers f (mapMembers f ps) = mapMembers f ps := by
  cases ps with
  | nil => exact ⟨rfl, rfl⟩
  | cons q ps =>
    obtain ⟨k, x⟩ := q
    rw [allMembers, Bool.and_eq_true] at hps
    obtain ⟨hall, hmap⟩ := mapNumbers_again hf x hps.1
    obtain ⟨halls, hmaps⟩ := mapMembers_again hf ps hps.2
    rw [mapMembers, allMembers, hall, halls, mapMembers, hmap, hmaps]
    exact ⟨rfl, rfl⟩

end

end

theorem loads_dumpsCompact {x : Value} (hx : Distinct x) (hobj : IsObject x) : loads (dumpsCompact x) = some (sorted x) := by
  rw [dumpsCompact_eq_textOf]
  exact loads_textOf (fun _ hc => nomatch hc) hx hobj

theorem loads_render_cut {x : Value} (hx : Distinct x) (hobj : IsObject x) {t u : Text} (htu : t ++ u = render x)
    (hu : u ≠ []) : loads t = none := by
  obtain ⟨v, hv⟩ : ∃ v, render x = '\x7b' :: v := render_object hobj
  by_contra hsome
  obtain ⟨y, hy⟩ := Option.ne_none_iff_exists'.mp hsome
  unfold loads at hy
  obtain ⟨p, hp, -⟩ := Option.bind_eq_some_iff.mp hy
  cases t with
  | nil =>
    rw [show skip [] = [] from rfl, readValue_nil] at hp
    exact nomatch hp
  | cons c t =>
    have hc : c = '\x7b' := by
      rw [hv, List.cons_append] at htu
      exact (List.cons.inj htu).1
    subst hc
    rw [skip_cons _ (by decide)] at hp
    have hlength : (('\x7b' :: t) ++ u).length = (render x).length := congrArg List.length htu
    rw [List.length_append] at hlength
    have hgoes := (read_append _).1 _ p.1 p.2 hp (fun _ => readValue_object hp) (2 * (render x).length + 2) u (by omega)
    have hwhole := readsBack blank_pad x hx (2 * (render x).length + 2) [] (by rw [← render_eq_write]; omega)
      (fun c hc => nomatch hc)
    rw [List.append_nil, ← render_eq_write] at hwhole
    rw [htu, hwhole] at hgoes
    have hrest := (Prod.mk.inj (Option.some.inj hgoes)).2
    exact hu (List.append_eq_nil_iff.mp hrest.symm).2

theorem toInt?_ofInt (z : ℤ) : (Numeral.ofInt z).toInt? = some z := by
  cases z with
  | ofNat n => exact toInt?_ofNat n
  | negSucc n =>
    have hinteger : (Numeral.ofInt (.negSucc n)).isInteger = true := by
      refine List.all_eq_true.mpr fun c hc => ?_
      rcases List.mem_cons.mp hc with rfl | hc
      · rfl
      · rw [toDigits_digits (n + 1) c hc, Bool.true_or]
    have hsign : (Numeral.ofInt (.negSucc n)).text.head? = some '-' := rfl
    rw [Numeral.toInt?, hinteger, if_neg (by decide), if_pos hsign]
    exact congrArg (fun k : ℕ => some (-(k : ℤ))) Nat.ofDigitChars_ten_toDigits

end EvoHarness.Json
