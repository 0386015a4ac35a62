import Mathlib.Data.List.Basic

/-! Trees with named branches: what a path leads to, and all that is at the end of a path. -/
namespace EvoHarness.PathTree

inductive Tree (ν α : Type) where
  | leaf (a : α)
  | dir (entries : List (ν × Tree ν α))

variable {ν α : Type}

def Tree.isDir : Tree ν α → Bool
  | .leaf _ => false
  | .dir _ => true

inductive Reaches : Tree ν α → List ν → α → Prop where
  | here (a : α) : Reaches (.leaf a) [] a
  | inside {entries : List (ν × Tree ν α)} {n : ν} {t : Tree ν α} {p : List ν} {a : α} (hn : (n, t) ∈ entries)
      (hp : Reaches t p a) : Reaches (.dir entries) (n :: p) a

/-- Every step of the way from the base along the path is kept; only the last one ends at a leaf. -/
def Kept (keep : List ν → Bool → Bool) (base p : List ν) : Prop :=
  ∀ n rest done, p = done ++ n :: rest → keep (base ++ done ++ [n]) (!rest.isEmpty) = true

theorem Kept.nil (keep : List ν → Bool → Bool) (base : List ν) : Kept keep base [] := by
  intro n rest done h
  cases done <;> exact nomatch h

theorem kept_cons {keep : List ν → Bool → Bool} {base p : List ν} {n : ν} :
    Kept keep base (n :: p) ↔ keep (base ++ [n]) (!p.isEmpty) = true ∧ Kept keep (base ++ [n]) p := by
  constructor
  · intro h
    constructor
    · simpa using h n p [] rfl
    · intro m rest done hp
      have hstep := h m rest (n :: done) (by rw [hp]; rfl)
      simpa using hstep
  · rintro ⟨hn, hp⟩ m rest done h
    cases done with
    | nil =>
      cases h
      simpa using hn
    | cons k done =>
      cases h
      simpa using hp m rest done rfl

theorem kept_names {keep : ν → Bool} {base p : List ν} :
    Kept (fun q _ => q.getLast?.all keep) base p ↔ ∀ n ∈ p, keep n = true := by
  induction p generalizing base with
  | nil => exact iff_of_true (Kept.nil _ _) fun _ h => nomatch h
  | cons n p ih => rw [kept_cons, ih, List.forall_mem_cons, List.getLast?_concat, Option.all_some]

mutual

def leaves (keep : List ν → Bool → Bool) (base : List ν) : Tree ν α → List (List ν × α)
  | .leaf a => [(base, a)]
  | .dir entries => leavesIn keep base entries

def leavesIn (keep : List ν → Bool → Bool) (base : List ν) : List (ν × Tree ν α) → List (List ν × α)
  | [] => []
  | (n, t) :: entries =>
    (if keep (base ++ [n]) t.isDir then leaves keep (base ++ [n]) t else []) ++ leavesIn keep base entries

end

theorem Reaches.isDir {t : Tree ν α} {p : List ν} {a : α} (h : Reaches t p a) : t.isDir = !p.isEmpty := by
  cases h <;> rfl

mutual

theorem mem_leaves {keep : List ν → Bool → Bool} {base : List ν} (t : Tree ν α) {p : List ν} {a : α} :
    (p, a) ∈ leaves keep base t ↔ ∃ q, p = base ++ q ∧ Reaches t q a ∧ Kept keep base q := by
  cases t with
  | leaf b =>
    rw [leaves, List.mem_singleton]
    constructor
    · intro h
      cases h
      exact ⟨[], (List.append_nil _).symm, .here a, Kept.nil _ _⟩
    · rintro ⟨q, rfl, h, -⟩
      cases h
      rw [List.append_nil]
  | dir entries =>
    rw [leaves, mem_leavesIn entries]
    constructor
    · rintro ⟨n, t, q, hn, rfl, hq, hkept⟩
      exact ⟨n :: q, rfl, .inside hn hq, hkept⟩
    · rintro ⟨q, rfl, h, hkept⟩
      cases h with
      | inside hn hp => exact ⟨_, _, _, hn, rfl, hp, hkept⟩

theorem mem_leavesIn {keep : List ν → Bool → Bool} {base : List ν} (entries : List (ν × Tree ν α)) {p : List ν} {a : α} :
    (p, a) ∈ leavesIn keep base entries ↔ ∃ n t q, (n, t) ∈ entries ∧ p = base ++ n :: q ∧ Reaches t q a ∧
      Kept keep base (n :: q) := by
  cases entries with
  | nil =>
    rw [leavesIn]
    exact iff_of_false List.not_mem_nil fun ⟨_, _, _, h, _⟩ => nomatch h
  | cons entry entries =>
    obtain ⟨n, t⟩ := entry
    rw [leavesIn, List.mem_append, mem_leavesIn entries]
    constructor
    · rintro (h | ⟨m, u, q, hm, rfl, hq, hkept⟩)
      · split at h
        · next hn =>
          obtain ⟨q, rfl, hreach, hkept⟩ := (mem_leaves t).mp h
          rw [hreach.isDir] at hn
          exact ⟨n, t, q, List.mem_cons_self, by rw [List.append_assoc]; rfl, hreach, kept_cons.mpr ⟨hn, hkept⟩⟩
        · exact nomatch h
      · exact ⟨m, u, q, List.mem_cons_of_mem _ hm, rfl, hq, hkept⟩
    · rintro ⟨m, u, q, hm, rfl, hq, hkept⟩
      rcases List.mem_cons.mp hm with heq | hm
      · cases heq
        obtain ⟨hn, hrest⟩ := kept_cons.mp hkept
        rw [hq.isDir, if_pos hn]
        exact .inl ((mem_leaves t).mpr ⟨q, by rw [List.append_assoc]; rfl, hq, hrest⟩)
      · exact .inr ⟨m, u, q, hm, rfl, hq, hkept⟩

end

def find [DecidableEq ν] : Tree ν α → List ν → Option (Tree ν α)
  | t, [] => some t
  | .leaf _, _ :: _ => none
  | .dir entries, n :: p => ((entries.find? (·.1 = n)).map (·.2)).bind (find · p)

theorem Reaches.of_find [DecidableEq ν] {t u : Tree ν α} {p q : List ν} {a : α} (h : find t p = some u)
    (hu : Reaches u q a) : Reaches t (p ++ q) a := by
  induction p generalizing t with
  | nil =>
    cases Option.some.inj (show some t = some u by rwa [find] at h)
    exact hu
  | cons n p ih =>
    cases t with
    | leaf b => exact nomatch h
    | dir entries =>
      rw [find, Option.bind_eq_some_iff] at h
      obtain ⟨v, hv, hrest⟩ := h
      obtain ⟨⟨m, w⟩, hfound, rfl⟩ := Option.map_eq_some_iff.mp hv
      have hname : m = n := by simpa using List.find?_some hfound
      subst hname
      exact .inside (List.mem_of_find?_eq_some hfound) (ih hrest)

inductive Sound (good : ν → Prop) : Tree ν α → Prop where
  | leaf (a : α) : Sound good (.leaf a)
  | dir {entries : List (ν × Tree ν α)} (once : (entries.map (·.1)).Nodup) (names : ∀ e ∈ entries, good e.1)
      (below : ∀ e ∈ entries, Sound good e.2) : Sound good (.dir entries)

theorem Sound.names_of_reaches {good : ν → Prop} {t : Tree ν α} {p : List ν} {a : α} (h : Sound good t)
    (hp : Reaches t p a) : ∀ n ∈ p, good n := by
  induction hp with
  | here a => exact fun _ hn => nomatch hn
  | inside hn _ ih =>
    cases h with
    | dir _ names below => exact List.forall_mem_cons.mpr ⟨names _ hn, ih (below _ hn)⟩

end EvoHarness.PathTree
