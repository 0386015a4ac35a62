import EvoHarness.Settled

/-! Propagation in any order: the queue runs empty however it, the rows of a goal and its parents
are enumerated, and the statuses it leaves do not depend on that. -/
namespace EvoHarness.Proof
open PyText Hoare

variable {n : ℤ} {budgetSpent : ℚ} {level : Text}

/-- One turn of the queue: some goal of it is visited, its rows in some order, and what the visit
returns is queued in some order. -/
inductive Turn (n : ℤ) (budgetSpent : ℚ) (level : Text) : Store × List GoalId → Store × List GoalId → Prop where
  | visit {w w' : World Unit} {pending rest ds parents queued} (i : GoalId) (hpick : pending.Perm (i :: rest))
      (hrows : ds.Perm (w.store.decompositionsOf i))
      (hvisit : visitRows n budgetSpent level i ds w = (.ok parents, w')) (hqueued : queued.Perm parents) :
      Turn n budgetSpent level (w.store, pending) (w'.store, queued ++ rest)

inductive Turns (n : ℤ) (budgetSpent : ℚ) (level : Text) : ℕ → Store × List GoalId → Store × List GoalId → Prop where
  | none (c) : Turns n budgetSpent level 0 c c
  | more {k c d e} : Turn n budgetSpent level c d → Turns n budgetSpent level k d e → Turns n budgetSpent level (k + 1) c e

def Store.recomputed (s : Store) (n : ℤ) (i : GoalId) : GoalStatus :=
  goalStatusFrom ((s.attemptsOf i).map (·.outcome)) (newStatuses s (s.decompositionsOf i)) n

theorem Turn.visited {c c' : Store × List GoalId} (h : Turn n budgetSpent level c c')
    (hlt : ∀ i ∈ c.2, i < c.1.goals.length) :
    ∃ i rest parents, c.2.Perm (i :: rest) ∧ Visited n c.1 c'.1 i parents ∧ c'.2.Perm (parents ++ rest) := by
  cases h with
  | @visit w w' pending rest ds parents queued i hpick hrows hvisit hqueued =>
    have hi : i < w.store.goals.length := hlt i (hpick.mem_iff.mpr List.mem_cons_self)
    have hexact : Triple (fun v : World Unit => v.store = w.store) (visitRows n budgetSpent level i ds)
        (fun parents v => Visited n w.store v.store i parents) (fun _ => False) := visitRows_exact i w.store hi hrows
    have hv := hexact w rfl
    rw [hvisit] at hv
    exact ⟨i, rest, parents, hpick, hv, hqueued.append_right rest⟩

theorem Turn.lt {c c' : Store × List GoalId} (h : Turn n budgetSpent level c c')
    (hlt : ∀ i ∈ c.2, i < c.1.goals.length) : ∀ i ∈ c'.2, i < c'.1.goals.length := by
  obtain ⟨i, rest, parents, hpick, hv, hqueued⟩ := h.visited hlt
  intro j hj
  rw [hv.advances.length_goals]
  cases List.mem_append.mp (hqueued.mem_iff.mp hj) with
  | inl hj => exact hv.parent_lt hj
  | inr hj => exact hlt j (hpick.mem_iff.mpr (List.mem_cons_of_mem i hj))

theorem Turn.exists {s : Store} {pending : List GoalId} (hlt : ∀ i ∈ pending, i < s.goals.length)
    (hne : pending ≠ []) : ∃ c, Turn n budgetSpent level (s, pending) c := by
  cases pending with
  | nil => exact (hne rfl).elim
  | cons i rest =>
    let w : World Unit := { store := s, env := () }
    have hexact : Triple (fun v : World Unit => v.store = s) (visitRows n budgetSpent level i (s.decompositionsOf i))
        (fun parents v => Visited n s v.store i parents) (fun _ => False) :=
      visitRows_exact i s (hlt i List.mem_cons_self) (List.Perm.refl _)
    have hv := hexact w rfl
    cases hrun : visitRows n budgetSpent level i (s.decompositionsOf i) w with
    | mk r w' =>
      rw [hrun] at hv
      cases r with
      | error e => exact hv.elim
      | ok parents => exact ⟨_, .visit i (List.Perm.refl _) (List.Perm.refl _) hrun (List.Perm.refl _)⟩

def acceptedRows (s : Store) : Finset DecompositionId :=
  (Finset.range s.decompositions.length).filter fun k => (s.decomposition k).map (·.status) = some .accepted

/-- The changes of a status that are still to come: the goals whose rows give another status, and the
rows that may complete. -/
def slack (n : ℤ) (s : Store) : ℕ := (underived n s).card + (acceptedRows s).card

theorem Advances.length_rows {s t : Store} (h : Advances s t) : t.decompositions.length = s.decompositions.length := by
  simpa using congrArg List.length h.rows

theorem Advances.accepted_subset {s t : Store} (h : Advances s t) : acceptedRows t ⊆ acceptedRows s := by
  intro k hk
  simp only [acceptedRows, Finset.mem_filter, Finset.mem_range, h.length_rows] at hk ⊢
  refine ⟨hk.1, ?_⟩
  obtain ⟨e, he, hacc⟩ := Option.map_eq_some_iff.mp hk.2
  obtain ⟨d, hd, _, _, _, hst⟩ := h.row_back he
  rw [hd]
  cases hst with
  | inl hst => exact congrArg some (hst.symm.trans hacc)
  | inr hst => exact congrArg some hst.1

namespace Visited
variable {s t : Store} {i j : GoalId} {parents : List GoalId}

theorem slack_le (h : Visited n s t i parents) : slack n t ≤ slack n s :=
  Nat.add_le_add (Finset.card_le_card h.underived_subset) (Finset.card_le_card h.advances.accepted_subset)

theorem accepted_ssubset (h : Visited n s t i parents) (hs : s.statusOf i = s.derived n i)
    (hne : t.statusOf i ≠ s.statusOf i) : acceptedRows t ⊂ acceptedRows s := by
  have hproved := h.changed_proved hs hne
  rw [h.status] at hproved
  have hnot : s.derived n i ≠ .proved := fun hp => hne ((h.status.trans hproved).trans (hs.trans hp).symm)
  rw [Ne, derived_proved_iff] at hnot
  rw [derived_proved_iff] at hproved
  rw [attemptsOf_congr h.advances] at hproved
  cases hproved with
  | inl ha => exact (hnot (.inl ha)).elim
  | inr hd =>
    obtain ⟨e, he, hcomp⟩ := hd
    obtain ⟨hmem, hg⟩ := mem_decompositionsOf.mp he
    obtain ⟨d, hd, hdg, _, _, hst⟩ := h.advances.row_back (Store.mem_decompositions_iff.mp hmem)
    have hdmem := List.mem_of_getElem? hd
    have hacc : d.status = .accepted := by
      cases hst with
      | inl hst => exact (hnot (.inr ⟨d, mem_decompositionsOf.mpr ⟨hdmem, hdg.symm.trans hg⟩, hst.symm.trans hcomp⟩)).elim
      | inr hst => exact hst.1
    refine Finset.ssubset_iff_subset_ne.mpr ⟨h.advances.accepted_subset, fun heq => ?_⟩
    have hin : e.id ∈ acceptedRows s := by
      simp only [acceptedRows, Finset.mem_filter, Finset.mem_range]
      have hrow := List.getElem?_eq_some_iff.mp hd
      exact ⟨hrow.1, by rw [hd]; exact congrArg some hacc⟩
    rw [← heq] at hin
    simp only [acceptedRows, Finset.mem_filter] at hin
    rw [Store.mem_decompositions_iff.mp hmem, Option.map_some, hcomp] at hin
    exact absurd hin.2 (by decide)

theorem slack_lt (h : Visited n s t i parents) (hi : i < s.goals.length) (hne : t.statusOf i ≠ s.statusOf i) :
    slack n t < slack n s := by
  by_cases hs : s.statusOf i = s.derived n i
  · exact Nat.add_lt_add_of_le_of_lt (Finset.card_le_card h.underived_subset)
      (Finset.card_lt_card (h.accepted_ssubset hs hne))
  · have hlt : underived n t ⊂ underived n s := by
      refine Finset.ssubset_iff_subset_ne.mpr ⟨h.underived_subset, fun heq => ?_⟩
      have hmem : i ∈ underived n s := by
        simp only [underived, Finset.mem_filter, Finset.mem_range]
        exact ⟨hi, hs⟩
      rw [← heq] at hmem
      simp only [underived, Finset.mem_filter] at hmem
      exact hmem.2 h.status
    exact Nat.add_lt_add_of_lt_of_le (Finset.card_lt_card hlt) (Finset.card_le_card h.advances.accepted_subset)

end Visited

def turnsLeft (n : ℤ) (c : Store × List GoalId) : ℕ := c.2.length + slack n c.1 * c.1.goals.length

theorem Turn.turnsLeft_lt {c c' : Store × List GoalId} (h : Turn n budgetSpent level c c')
    (hlt : ∀ i ∈ c.2, i < c.1.goals.length) : turnsLeft n c' < turnsLeft n c := by
  obtain ⟨i, rest, parents, hpick, hv, hqueued⟩ := h.visited hlt
  have hpicked := hpick.length_eq
  have hlength := hqueued.length_eq
  unfold turnsLeft
  rw [hv.advances.length_goals]
  rw [List.length_cons] at hpicked
  rw [List.length_append] at hlength
  cases hv.queued with
  | inl hq =>
    rw [hq.2, List.length_nil] at hlength
    have hle := Nat.mul_le_mul_right c.1.goals.length hv.slack_le
    omega
  | inr hq =>
    have hi : i < c.1.goals.length := hlt i (hpick.mem_iff.mpr List.mem_cons_self)
    have hmul := Nat.mul_le_mul_right c.1.goals.length (Nat.succ_le_of_lt (hv.slack_lt hi hq.1))
    have hparents := length_parentsOf_le c.1 i
    rw [Nat.succ_mul] at hmul
    rw [hq.2] at hlength
    omega

theorem Turns.bounded {k : ℕ} {c d : Store × List GoalId} (h : Turns n budgetSpent level k c d)
    (hlt : ∀ i ∈ c.2, i < c.1.goals.length) :
    k + turnsLeft n d ≤ turnsLeft n c ∧ ∀ i ∈ d.2, i < d.1.goals.length := by
  induction h with
  | none c => exact ⟨(Nat.zero_add _).le, hlt⟩
  | more hturn _ ih =>
    have hnext := ih (hturn.lt hlt)
    have hless := hturn.turnsLeft_lt hlt
    exact ⟨by omega, hnext.2⟩

theorem slack_le_size (s : Store) : slack n s ≤ s.decompositions.length + s.goals.length := by
  have hgoals := Finset.card_le_card (Finset.filter_subset (fun j => s.statusOf j ≠ s.derived n j) (Finset.range s.goals.length))
  have hrows := Finset.card_le_card (Finset.filter_subset
    (fun k => (s.decomposition k).map (·.status) = some .accepted) (Finset.range s.decompositions.length))
  rw [Finset.card_range] at hgoals hrows
  unfold slack underived acceptedRows
  omega

theorem turnsLeft_le_fuel (s : Store) (i : GoalId) : turnsLeft n (s, [i]) ≤ propagateFuel s := by
  have hmul := Nat.mul_le_mul_right s.goals.length (slack_le_size (n := n) s)
  unfold turnsLeft propagateFuel
  rw [Nat.mul_succ]
  simp only [List.length_singleton]
  omega

theorem moves_iff {d : DecompositionRow} {s : Store} :
    decompositionStatusFrom d.status (d.subgoalIds.map s.statusOf) = .completed ↔
      d.status = .completed ∨ (d.status = .accepted ∧ d.subgoalIds ≠ [] ∧ ∀ k ∈ d.subgoalIds, s.statusOf k = .proved) := by
  rw [decompositionStatusFrom_eq]
  constructor
  · intro h
    split at h
    · next hc =>
      refine .inr ⟨hc.1, fun hnil => hc.2.1 (by rw [hnil, List.map_nil]), fun k hk => ?_⟩
      exact hc.2.2 _ (List.mem_map_of_mem hk)
    · exact .inl h
  · intro h
    cases h with
    | inl h =>
      rw [h, if_neg (fun hc => absurd hc.1 (by decide))]
    | inr h =>
      refine if_pos ⟨h.1, fun hnil => h.2.1 (List.map_eq_nil_iff.mp hnil), fun st hst => ?_⟩
      obtain ⟨k, hk, heq⟩ := List.mem_map.mp hst
      exact heq ▸ h.2.2 k hk

theorem recomputed_proved_iff {s : Store} {i : GoalId} : s.recomputed n i = .proved ↔
    (∃ a ∈ s.attemptsOf i, a.outcome = .proved) ∨ ∃ d ∈ s.decompositionsOf i, d.status = .completed ∨
      (d.status = .accepted ∧ d.subgoalIds ≠ [] ∧ ∀ k ∈ d.subgoalIds, s.statusOf k = .proved) := by
  unfold Store.recomputed newStatuses
  rw [goalStatusFrom_proved_iff]
  simp only [List.mem_map, moves_iff]

theorem Advances.recomputed_proved {s t : Store} {i : GoalId} (h : Advances s t)
    (hmono : ∀ k, s.statusOf k = .proved → t.statusOf k = .proved) (hp : s.recomputed n i = .proved) :
    t.recomputed n i = .proved := by
  rw [recomputed_proved_iff] at hp ⊢
  cases hp with
  | inl ha =>
    rw [attemptsOf_congr h]
    exact .inl ha
  | inr hd =>
    obtain ⟨d, hd, hst⟩ := hd
    obtain ⟨hmem, hg⟩ := mem_decompositionsOf.mp hd
    obtain ⟨e, he, heg, hsub, _, hmove⟩ := h.row (Store.mem_decompositions_iff.mp hmem)
    refine .inr ⟨e, mem_decompositionsOf.mpr ⟨List.mem_of_getElem? he, heg.trans hg⟩, ?_⟩
    rw [hsub]
    cases hmove with
    | inl hsame =>
      rw [hsame]
      exact hst.imp_right fun hacc => ⟨hacc.1, hacc.2.1, fun k hk => hmono k (hacc.2.2 k hk)⟩
    | inr hmove => exact .inl hmove.2

theorem recomputed_of_derived {s : Store} {i : GoalId} (h : s.derived n i = .proved) : s.recomputed n i = .proved := by
  rw [derived_proved_iff] at h
  rw [recomputed_proved_iff]
  exact h.imp_right fun hd => hd.imp fun d hd => ⟨hd.1, .inl hd.2⟩

theorem recomputed_eq_derived {s : Store} {i : GoalId} (h : s.recomputed n i ≠ .proved) :
    s.recomputed n i = s.derived n i := by
  have hkeep : newStatuses s (s.decompositionsOf i) = (s.decompositionsOf i).map (·.status) := by
    refine List.map_congr_left fun d hd => ?_
    by_contra hmove
    obtain ⟨_, _, hcomp⟩ := moved_status hmove
    exact h (recomputed_proved_iff.mpr (.inr ⟨d, hd, moves_iff.mp hcomp⟩))
  unfold Store.recomputed Store.derived
  rw [hkeep]

namespace Visited
variable {s t : Store} {i j : GoalId} {parents : List GoalId}

theorem row (h : Visited n s t i parents) {d : DecompositionRow} (hd : d ∈ s.decompositionsOf i) :
    ∃ e ∈ t.decompositionsOf i, e.id = d.id ∧ e.subgoalIds = d.subgoalIds ∧
      e.status = decompositionStatusFrom d.status (d.subgoalIds.map s.statusOf) := by
  obtain ⟨hmem, hg⟩ := mem_decompositionsOf.mp hd
  obtain ⟨e, he, heg, hsub, _⟩ := h.advances.row (Store.mem_decompositions_iff.mp hmem)
  have hmoved := h.moved d hd
  rw [he] at hmoved
  exact ⟨e, mem_decompositionsOf.mpr ⟨List.mem_of_getElem? he, heg.trans hg⟩, Store.decomposition_id he, hsub, hmoved⟩

theorem row_back (h : Visited n s t i parents) {e : DecompositionRow} (he : e ∈ t.decompositionsOf i) :
    ∃ d ∈ s.decompositionsOf i, e.id = d.id ∧ e.subgoalIds = d.subgoalIds ∧
      e.status = decompositionStatusFrom d.status (d.subgoalIds.map s.statusOf) := by
  obtain ⟨hmem, hg⟩ := mem_decompositionsOf.mp he
  obtain ⟨d, hd, hdg, hsub, _⟩ := h.advances.row_back (Store.mem_decompositions_iff.mp hmem)
  have hid : d.id = e.id := Store.decomposition_id hd
  have hof : d ∈ s.decompositionsOf i := mem_decompositionsOf.mpr ⟨List.mem_of_getElem? hd, hdg.symm.trans hg⟩
  have hmoved := h.moved d hof
  rw [hid, Store.mem_decompositions_iff.mp hmem] at hmoved
  exact ⟨d, hof, hid.symm, hsub, hmoved⟩

theorem derived_eq (h : Visited n s t i parents) : t.derived n i = s.recomputed n i := by
  unfold Store.derived Store.recomputed newStatuses
  rw [attemptsOf_congr h.advances]
  refine goalStatusFrom_congr fun st _ => ?_
  simp only [List.mem_map]
  constructor
  · intro hex
    obtain ⟨e, he, heq⟩ := hex
    obtain ⟨d, hd, _, _, hst⟩ := h.row_back he
    exact ⟨d, hd, hst.symm.trans heq⟩
  · intro hex
    obtain ⟨d, hd, heq⟩ := hex
    obtain ⟨e, he, _, _, hst⟩ := h.row hd
    exact ⟨e, he, hst.trans heq⟩

end Visited

/-- What is PROVED would be found PROVED again, and every other status is the one the rows give. -/
structure Store.Firm (s : Store) (n : ℤ) : Prop where
  proved : ∀ i, s.statusOf i = .proved → s.recomputed n i = .proved
  others : ∀ i, s.statusOf i ≠ .proved → s.statusOf i = s.derived n i

namespace Visited
variable {s t : Store} {i j : GoalId} {parents : List GoalId}

theorem stays_proved (h : Visited n s t i parents) (hs : s.Firm n) (hp : s.statusOf j = .proved) :
    t.statusOf j = .proved := by
  by_cases hj : j = i
  · rw [hj, h.status, h.derived_eq, ← hj]
    exact hs.proved j hp
  · rw [h.statusOf_other hj, hp]

theorem turns_proved (h : Visited n s t i parents) (hs : s.Firm n) (hne : t.statusOf i ≠ s.statusOf i) :
    t.statusOf i = .proved := by
  by_cases hp : s.statusOf i = .proved
  · exact h.stays_proved hs hp
  · exact h.changed_proved (hs.others i hp) hne

theorem firm (h : Visited n s t i parents) (hs : s.Firm n) : t.Firm n := by
  constructor
  · intro j hp
    by_cases hj : j = i
    · rw [hj] at hp ⊢
      exact recomputed_of_derived (h.status ▸ hp)
    · rw [h.statusOf_other hj] at hp
      exact h.advances.recomputed_proved (fun k => h.stays_proved hs) (hs.proved j hp)
  · intro j hp
    by_cases hj : j = i
    · exact hj ▸ h.status
    · rw [h.statusOf_other hj] at hp ⊢
      rw [h.derived_other hj]
      exact hs.others j hp

end Visited

structure Store.Done (s : Store) (n : ℤ) (i : GoalId) : Prop where
  status : s.statusOf i = s.derived n i
  rows : ∀ d ∈ s.decompositionsOf i, d.status = .accepted → d.subgoalIds ≠ [] → ¬ ∀ k ∈ d.subgoalIds, s.statusOf k = .proved

/-- After a visit a goal that is not queued is done if it was, and the visited one is. -/
theorem Visited.done {s t : Store} {i j : GoalId} {parents : List GoalId} (h : Visited n s t i parents)
    (hj : j = i ∨ s.Done n j) (hnot : j ∉ parents) : t.Done n j := by
  have hwas : ∀ d ∈ s.decompositions, d.goalId = j → (∀ k ∈ d.subgoalIds, t.statusOf k = .proved) →
      ∀ k ∈ d.subgoalIds, s.statusOf k = .proved := by
    intro d hd hg ht
    by_contra hs
    refine hnot (hg ▸ h.newly_proved hd (fun k hk => Store.proved_iff_statusOf.mpr (ht k hk)) fun hall => hs ?_)
    exact fun k hk => Store.proved_iff_statusOf.mp (hall k hk)
  by_cases hji : j = i
  · refine ⟨hji ▸ h.status, fun e he hacc hne hall => ?_⟩
    rw [hji] at he
    obtain ⟨d, hd, _, hsub, hst⟩ := h.row_back he
    obtain ⟨hmem, hg⟩ := mem_decompositionsOf.mp hd
    rw [hsub] at hne hall
    have hold := hwas d hmem (hg.trans hji.symm) hall
    have hdacc : d.status = .accepted := by
      by_contra hother
      rw [hacc, decompositionStatusFrom_eq, if_neg (fun hc => hother hc.1)] at hst
      exact hother hst.symm
    have hcomp := moves_iff.mpr (.inr ⟨hdacc, hne, hold⟩)
    rw [hacc, hcomp] at hst
    cases hst
  · have hdone : s.Done n j := hj.resolve_left hji
    refine ⟨?_, fun d hd hacc hne hall => ?_⟩
    · rw [h.statusOf_other hji, h.derived_other hji]
      exact hdone.status
    · obtain ⟨hmem, hg⟩ := mem_decompositionsOf.mp hd
      have hold := (h.rows d (hg ▸ hji)).mp hmem
      exact hdone.rows d (mem_decompositionsOf.mpr ⟨hold, hg⟩) hacc hne (hwas d hold hg hall)

structure SameStatuses (s t : Store) : Prop where
  goals : ∀ i, s.statusOf i = t.statusOf i
  rows : ∀ k, (s.decomposition k).map (·.status) = (t.decomposition k).map (·.status)

/-- What a run that started at `first` knows: it only proves goals, and whoever was queued, or has a
subgoal whose status has changed, is queued still or done. -/
structure Ran (n : ℤ) (first c : Store × List GoalId) : Prop where
  advances : Advances first.1 c.1
  firm : c.1.Firm n
  stays : ∀ i, first.1.statusOf i = .proved → c.1.statusOf i = .proved
  turned : ∀ i, c.1.statusOf i ≠ first.1.statusOf i → c.1.statusOf i = .proved
  covered : ∀ i, (i ∈ first.2 ∨ ∃ x, i ∈ first.1.parentsOf x ∧ c.1.statusOf x ≠ first.1.statusOf x) →
    i ∈ c.2 ∨ c.1.Done n i
  lt : ∀ i ∈ c.2, i < c.1.goals.length

theorem Ran.start {c : Store × List GoalId} (hfirm : c.1.Firm n) (hlt : ∀ i ∈ c.2, i < c.1.goals.length) :
    Ran n c c where
  advances := .refl _
  firm := hfirm
  stays _ h := h
  turned _ h := (h rfl).elim
  covered i h := by
    cases h with
    | inl h => exact .inl h
    | inr h =>
      obtain ⟨x, _, hne⟩ := h
      exact (hne rfl).elim
  lt := hlt

theorem Ran.turn {first c d : Store × List GoalId} (h : Ran n first c) (hturn : Turn n budgetSpent level c d) :
    Ran n first d := by
  have hlt := hturn.lt h.lt
  obtain ⟨j, rest, parents, hpick, hv, hqueued⟩ := hturn.visited h.lt
  have hother : ∀ i, i ≠ j → d.1.statusOf i = c.1.statusOf i := fun i => hv.statusOf_other
  refine ⟨h.advances.trans hv.advances, hv.firm h.firm, fun i hi => hv.stays_proved h.firm (h.stays i hi), ?_, ?_, hlt⟩
  · intro i hne
    by_cases hsame : d.1.statusOf i = c.1.statusOf i
    · rw [hsame] at hne ⊢
      exact h.turned i hne
    · have hij : i = j := by
        by_contra hij
        exact hsame (hother i hij)
      rw [hij] at hsame ⊢
      exact hv.turns_proved h.firm hsame
  · intro i hi
    by_cases hparent : i ∈ parents
    · exact .inl (hqueued.mem_iff.mpr (List.mem_append_left rest hparent))
    · have hbefore : i ∈ first.2 ∨ ∃ x, i ∈ first.1.parentsOf x ∧ c.1.statusOf x ≠ first.1.statusOf x := by
        refine hi.imp_right fun hx => ?_
        obtain ⟨x, hx, hne⟩ := hx
        by_cases hsame : d.1.statusOf x = c.1.statusOf x
        · exact ⟨x, hx, hsame ▸ hne⟩
        · have hxj : x = j := by
            by_contra hxj
            exact hsame (hother x hxj)
          cases hv.queued with
          | inl hq => exact (hsame (hxj ▸ hq.1)).elim
          | inr hq =>
            rw [hq.2, parentsOf_congr h.advances, ← hxj] at hparent
            exact (hparent hx).elim
      have hdone : j = i ∨ i ∈ rest ∨ c.1.Done n i := by
        cases h.covered i hbefore with
        | inl hmem =>
          cases List.mem_cons.mp (hpick.mem_iff.mp hmem) with
          | inl heq => exact .inl heq.symm
          | inr hmem => exact .inr (.inl hmem)
        | inr hdone => exact .inr (.inr hdone)
      cases hdone with
      | inl heq => exact .inr (hv.done (.inl heq.symm) hparent)
      | inr hdone =>
        cases hdone with
        | inl hmem => exact .inl (hqueued.mem_iff.mpr (List.mem_append_right parents hmem))
        | inr hdone => exact .inr (hv.done (.inr hdone) hparent)

theorem Ran.turns {k : ℕ} {first c d : Store × List GoalId} (h : Ran n first c)
    (hturns : Turns n budgetSpent level k c d) : Ran n first d := by
  induction hturns with
  | none c => exact h
  | more hturn _ ih => exact ih (h.turn hturn)

/-- What holds of a run whose statuses stay below those of a store `u` that has nothing left to do. -/
structure Below (n : ℤ) (u : Store) (c : Store × List GoalId) : Prop where
  proved : ∀ i, c.1.statusOf i = .proved → u.statusOf i = .proved
  rows : ∀ d ∈ c.1.decompositions, d.status = .completed → ∃ e, u.decomposition d.id = some e ∧ e.status = .completed
  queued : ∀ i ∈ c.2, u.Done n i

theorem Advances.counterpart {s c u : Store} (hc : Advances s c) (hu : Advances s u) {d : DecompositionRow}
    (hd : d ∈ c.decompositions) : ∃ e, u.decomposition d.id = some e ∧ e.goalId = d.goalId ∧
      e.subgoalIds = d.subgoalIds ∧ (d.status = .accepted → e.status = .accepted ∨ e.status = .completed) := by
  obtain ⟨d₀, hd₀, hg₀, hsub₀, _, hst₀⟩ := hc.row_back (Store.mem_decompositions_iff.mp hd)
  obtain ⟨e, he, hg, hsub, _, hst⟩ := hu.row hd₀
  refine ⟨e, he, hg.trans hg₀.symm, hsub.trans hsub₀.symm, fun hacc => ?_⟩
  have hacc₀ : d₀.status = .accepted := by
    cases hst₀ with
    | inl h => exact h.symm.trans hacc
    | inr h => exact h.1
  cases hst with
  | inl h => exact .inl (h.trans hacc₀)
  | inr h => exact .inr h.2

/-- A row that a visit completes is completed in `u`, where its goal is done. -/
theorem Below.completed {s u : Store} {c : Store × List GoalId} (h : Below n u c) (hc : Advances s c.1)
    (hu : Advances s u) {t : Store} {j : GoalId} {parents : List GoalId} (hv : Visited n c.1 t j parents)
    (hj : u.Done n j) : ∀ d ∈ t.decompositions, d.status = .completed →
      ∃ e, u.decomposition d.id = some e ∧ e.status = .completed := by
  intro e he hcomp
  by_cases hg : e.goalId = j
  · obtain ⟨d, hd, hid, hsub, hst⟩ := hv.row_back (mem_decompositionsOf.mpr ⟨he, hg⟩)
    obtain ⟨hmem, hdg⟩ := mem_decompositionsOf.mp hd
    rw [hid]
    cases moves_iff.mp (hst.symm.trans hcomp) with
    | inl hwas => exact h.rows d hmem hwas
    | inr hmoves =>
      obtain ⟨e', he', hg', hsub', hst'⟩ := hc.counterpart hu hmem
      refine ⟨e', he', ?_⟩
      cases hst' hmoves.1 with
      | inr hcomp' => exact hcomp'
      | inl hacc' =>
        have hof : e' ∈ u.decompositionsOf j := mem_decompositionsOf.mpr ⟨List.mem_of_getElem? he', hg'.trans hdg⟩
        refine (hj.rows e' hof hacc' (hsub' ▸ hmoves.2.1) fun k hk => ?_).elim
        rw [hsub'] at hk
        exact h.proved k (hmoves.2.2 k hk)
  · exact h.rows e ((hv.rows e hg).mp he) hcomp

theorem Below.turn {s u : Store} {c d : Store × List GoalId} (h : Below n u c) (hc : Advances s c.1)
    (hu : Advances s u) (hfirm : c.1.Firm n) (hlt : ∀ i ∈ c.2, i < c.1.goals.length)
    (hparents : ∀ x i, i ∈ s.parentsOf x → c.1.statusOf x ≠ .proved → u.statusOf x = .proved → u.Done n i)
    (hturn : Turn n budgetSpent level c d) : Below n u d := by
  obtain ⟨j, rest, parents, hpick, hv, hqueued⟩ := hturn.visited hlt
  have hj : u.Done n j := h.queued j (hpick.mem_iff.mpr List.mem_cons_self)
  have hrows := h.completed hc hu hv hj
  have hproved : ∀ i, d.1.statusOf i = .proved → u.statusOf i = .proved := by
    intro i hi
    by_cases hij : i = j
    · rw [hij] at hi ⊢
      rw [hv.status, derived_proved_iff, attemptsOf_congr hv.advances, attemptsOf_congr hc] at hi
      rw [hj.status, derived_proved_iff, attemptsOf_congr hu]
      refine hi.imp_right fun hd => ?_
      obtain ⟨e, he, hcomp⟩ := hd
      obtain ⟨hmem, hg⟩ := mem_decompositionsOf.mp he
      obtain ⟨e', he', hcomp'⟩ := hrows e hmem hcomp
      obtain ⟨e'', he'', hg'', _⟩ := (hc.trans hv.advances).counterpart hu hmem
      have heq : e'' = e' := Option.some.inj (he''.symm.trans he')
      exact ⟨e', mem_decompositionsOf.mpr ⟨List.mem_of_getElem? he', (heq ▸ hg'').trans hg⟩, hcomp'⟩
    · rw [hv.statusOf_other hij] at hi
      exact h.proved i hi
  refine ⟨hproved, hrows, fun i hi => ?_⟩
  cases List.mem_append.mp (hqueued.mem_iff.mp hi) with
  | inr hi => exact h.queued i (hpick.mem_iff.mpr (List.mem_cons_of_mem j hi))
  | inl hi =>
    cases hv.queued with
    | inl hq =>
      rw [hq.2] at hi
      cases hi
    | inr hq =>
      rw [hq.2, parentsOf_congr hc] at hi
      have hturned := hv.turns_proved hfirm hq.1
      exact hparents j i hi (fun hp => hq.1 (hturned.trans hp.symm)) (hproved j hturned)

theorem Below.turns {s u : Store} {first c d : Store × List GoalId} {k : ℕ} (hs : Advances s first.1)
    (hu : Advances s u) (hran : Ran n first c) (h : Below n u c)
    (hparents : ∀ x i, i ∈ s.parentsOf x → first.1.statusOf x ≠ .proved → u.statusOf x = .proved → u.Done n i)
    (hturns : Turns n budgetSpent level k c d) : Below n u d := by
  induction hturns with
  | none c => exact h
  | more hturn _ ih =>
    refine ih (hran.turn hturn) (h.turn (hs.trans hran.advances) hu hran.firm hran.lt ?_ hturn)
    exact fun x i hi hne => hparents x i hi fun hp => hne (hran.stays x hp)

/-- Of two runs to the end from the same statuses, neither gets further than the other. -/
theorem below_of_turns {s : Store} {a b : Store × List GoalId} {t u : Store} {k m : ℕ} (ha : Advances s a.1)
    (hb : Advances s b.1) (hsame : SameStatuses a.1 b.1) (hqueue : ∀ i ∈ a.2, i ∈ b.2) (hafirm : a.1.Firm n)
    (hbfirm : b.1.Firm n) (halt : ∀ i ∈ a.2, i < a.1.goals.length) (hblt : ∀ i ∈ b.2, i < b.1.goals.length)
    (hruna : Turns n budgetSpent level k a (t, [])) (hrunb : Turns n budgetSpent level m b (u, [])) :
    Below n u (t, []) := by
  have hran := (Ran.start hbfirm hblt).turns hrunb
  have hdone : ∀ i, (i ∈ b.2 ∨ ∃ x, i ∈ b.1.parentsOf x ∧ u.statusOf x ≠ b.1.statusOf x) → u.Done n i := fun i hi =>
    (hran.covered i hi).resolve_left List.not_mem_nil
  have hbelow : Below n u a := by
    refine ⟨fun i hi => hran.stays i (hsame.goals i ▸ hi), fun d hd hcomp => ?_, fun i hi => hdone i (.inl (hqueue i hi))⟩
    have hrow := hsame.rows d.id
    rw [Store.mem_decompositions_iff.mp hd, Option.map_some, hcomp] at hrow
    obtain ⟨e, he, hst⟩ := Option.map_eq_some_iff.mp hrow.symm
    obtain ⟨e', he', _, _, _, hst'⟩ := hran.advances.row he
    refine ⟨e', he', ?_⟩
    cases hst' with
    | inl hkeep => exact hkeep.trans hst
    | inr hmove => exact hmove.2
  refine hbelow.turns ha (hb.trans hran.advances) (.start hafirm halt) (fun x i hi hne hp => hdone i (.inr ⟨x, ?_, ?_⟩)) hruna
  · rw [parentsOf_congr hb]
    exact hi
  · intro heq
    exact hne ((hsame.goals x).trans (heq.symm.trans hp))

theorem sameStatuses_of_below {s : Store} {a b : Store × List GoalId} {t u : Store} (hsame : SameStatuses a.1 b.1)
    (ht : Advances s t) (hu : Advances s u) (hran : Ran n a (t, [])) (hran' : Ran n b (u, []))
    (htu : Below n u (t, [])) (hut : Below n t (u, [])) : SameStatuses t u := by
  constructor
  · intro i
    by_cases hp : t.statusOf i = .proved
    · exact hp.trans (htu.proved i hp).symm
    · have hstill : t.statusOf i = a.1.statusOf i := by
        by_contra hne
        exact hp (hran.turned i hne)
      have hstill' : u.statusOf i = b.1.statusOf i := by
        by_contra hne
        exact hp (hut.proved i (hran'.turned i hne))
      rw [hstill, hstill', hsame.goals]
  · intro k
    cases hd : t.decomposition k with
    | none =>
      have hnone : u.decompositions[k]? = none := by
        rw [List.getElem?_eq_none_iff, hu.length_rows, ← ht.length_rows]
        exact List.getElem?_eq_none_iff.mp hd
      exact congrArg (Option.map (·.status)) hnone.symm
    | some d =>
      have hid := Store.decomposition_id hd
      have hmem : d ∈ t.decompositions := List.mem_of_getElem? hd
      obtain ⟨d₀, hd₀, _, _, _, hst₀⟩ := ht.row_back hd
      obtain ⟨e, he, _, _, _, hst⟩ := hu.row hd₀
      rw [he]
      refine congrArg some (show d.status = e.status from ?_)
      by_cases hcomp : d.status = .completed
      · obtain ⟨e', he', hcomp'⟩ := htu.rows d hmem hcomp
        rw [hid, he] at he'
        rw [hcomp, Option.some.inj he', hcomp']
      · by_cases hcomp' : e.status = .completed
        · obtain ⟨d', hd', hdcomp⟩ := hut.rows e (List.mem_of_getElem? he) hcomp'
          rw [Store.decomposition_id he, hd] at hd'
          exact (hcomp (Option.some.inj hd' ▸ hdcomp)).elim
        · have hkeep : d.status = d₀.status := hst₀.resolve_right fun h => hcomp h.2
          have hkeep' : e.status = d₀.status := hst.resolve_right fun h => hcomp' h.2
          rw [hkeep, hkeep']

/-- Every goal but the one propagation starts from has the status a visit would compute, and that one
has not lost what it was PROVED by. -/
structure Store.UpToDate (s : Store) (n : ℤ) (start : GoalId) : Prop where
  others : ∀ i, i ≠ start → s.statusOf i = s.recomputed n i
  start : s.statusOf start = .proved → s.recomputed n start = .proved

/-- Every goal but the one propagation starts from has the status its rows give as they are stored. -/
def Store.Recorded (s : Store) (n : ℤ) (start : GoalId) : Prop := ∀ i, i ≠ start → s.statusOf i = s.derived n i

theorem Visited.firm_of_upToDate {s t : Store} {start : GoalId} {parents : List GoalId}
    (h : Visited n s t start parents) (hs : s.UpToDate n start) : t.Firm n := by
  have hmono : ∀ k, s.statusOf k = .proved → t.statusOf k = .proved := by
    intro k hk
    by_cases hstart : k = start
    · rw [hstart] at hk ⊢
      rw [h.status, h.derived_eq]
      exact hs.start hk
    · rw [h.statusOf_other hstart, hk]
  constructor
  · intro i hi
    by_cases hstart : i = start
    · rw [hstart] at hi ⊢
      exact recomputed_of_derived (h.status ▸ hi)
    · rw [h.statusOf_other hstart, hs.others i hstart] at hi
      exact h.advances.recomputed_proved hmono hi
  · intro i hi
    by_cases hstart : i = start
    · exact hstart ▸ h.status
    · rw [h.statusOf_other hstart, hs.others i hstart] at hi ⊢
      rw [h.derived_other hstart]
      exact recomputed_eq_derived hi

theorem Visited.firm_of_recorded {s t : Store} {start : GoalId} {parents : List GoalId}
    (h : Visited n s t start parents) (hs : s.Recorded n start) : t.Firm n := by
  have hall : ∀ i, t.statusOf i = t.derived n i := by
    intro i
    by_cases hstart : i = start
    · exact hstart ▸ h.status
    · rw [h.statusOf_other hstart, h.derived_other hstart]
      exact hs i hstart
  exact ⟨fun i hi => recomputed_of_derived (hall i ▸ hi), fun i _ => hall i⟩

theorem Visited.sameStatuses {s t u : Store} {i : GoalId} {parents parents' : List GoalId}
    (h : Visited n s t i parents) (h' : Visited n s u i parents') : SameStatuses t u ∧ parents = parents' := by
  have hgoals : ∀ j, t.statusOf j = u.statusOf j := by
    intro j
    by_cases hj : j = i
    · rw [hj, h.status, h'.status, h.derived_eq, h'.derived_eq]
    · rw [h.statusOf_other hj, h'.statusOf_other hj]
  refine ⟨⟨hgoals, fun k => ?_⟩, ?_⟩
  · cases hs : s.decomposition k with
    | none =>
      have hlen : s.decompositions.length ≤ k := List.getElem?_eq_none_iff.mp hs
      have ht : t.decomposition k = none := List.getElem?_eq_none_iff.mpr (h.advances.length_rows ▸ hlen)
      have hu : u.decomposition k = none := List.getElem?_eq_none_iff.mpr (h'.advances.length_rows ▸ hlen)
      rw [ht, hu]
    | some d =>
      have hmem : d ∈ s.decompositions := List.mem_of_getElem? hs
      have hid := Store.decomposition_id hs
      by_cases hg : d.goalId = i
      · obtain ⟨e, he, heid, _, hst⟩ := h.row (mem_decompositionsOf.mpr ⟨hmem, hg⟩)
        obtain ⟨e', he', heid', _, hst'⟩ := h'.row (mem_decompositionsOf.mpr ⟨hmem, hg⟩)
        have ht := Store.mem_decompositions_iff.mp (mem_decompositionsOf.mp he).1
        have hu := Store.mem_decompositions_iff.mp (mem_decompositionsOf.mp he').1
        rw [heid, hid] at ht
        rw [heid', hid] at hu
        rw [ht, hu, Option.map_some, Option.map_some, hst, hst']
      · have ht := Store.mem_decompositions_iff.mp ((h.rows d hg).mpr hmem)
        have hu := Store.mem_decompositions_iff.mp ((h'.rows d hg).mpr hmem)
        rw [hid] at ht hu
        rw [ht, hu]
  · cases h.queued with
    | inl hq =>
      cases h'.queued with
      | inl hq' => rw [hq.2, hq'.2]
      | inr hq' => exact (hq'.1 ((hgoals i).symm.trans hq.1)).elim
    | inr hq =>
      cases h'.queued with
      | inl hq' => exact (hq.1 ((hgoals i).trans hq'.1)).elim
      | inr hq' => rw [hq.2, hq'.2]

def Store.Confluent (s : Store) (n : ℤ) (budgetSpent : ℚ) (level : Text) (start : GoalId) : Prop :=
  ∀ k m t u, Turns n budgetSpent level k (s, [start]) (t, []) → Turns n budgetSpent level m (s, [start]) (u, []) →
    SameStatuses t u

theorem Turn.exists_goal {s : Store} {start : GoalId} {c : Store × List GoalId}
    (h : Turn n budgetSpent level (s, [start]) c) : start < s.goals.length := by
  cases h with
  | @visit w w' pending rest ds parents queued i hpick hrows hvisit hqueued =>
    have hi : i = start := by
      have hmem : i ∈ [start] := hpick.mem_iff.mpr List.mem_cons_self
      exact List.mem_singleton.mp hmem
    by_contra hnot
    have hnone : w.store.goal i = none := List.getElem?_eq_none_iff.mpr (hi ▸ not_lt.mp hnot)
    have hraise : visitRows n budgetSpent level i ds w = (.error (Store.noSuchGoal i), w) := by
      unfold visitRows
      rw [Prog.bind_ok (show read w = (.ok w.store, w) from rfl), hnone]
      rfl
    rw [hraise] at hvisit
    cases hvisit

theorem confluent_of_firm {s : Store} {start : GoalId}
    (hfirm : ∀ t parents, Visited n s t start parents → t.Firm n) : s.Confluent n budgetSpent level start := by
  -- a run to the end starts with a turn of `start`
  have hfirst : ∀ k t, Turns n budgetSpent level k (s, [start]) (t, []) → ∃ k' a parents,
      Visited n s a.1 start parents ∧ a.2.Perm parents ∧ (∀ i ∈ a.2, i < a.1.goals.length) ∧
        Turns n budgetSpent level k' a (t, []) := by
    intro k t h
    cases h with
    | @more k' _ a _ hturn hrest =>
      have hlt : ∀ i ∈ [start], i < s.goals.length := fun i hi => List.mem_singleton.mp hi ▸ hturn.exists_goal
      obtain ⟨i, rest, parents, hpick, hv, hqueued⟩ := hturn.visited hlt
      have hone : [i] = [start] ∧ rest = [] := by
        have hlen := hpick.length_eq
        have hrest : rest = [] := List.length_eq_zero_iff.mp (by simpa using hlen)
        rw [hrest] at hpick
        exact ⟨(List.perm_singleton.mp hpick.symm), hrest⟩
      have hi : i = start := List.singleton_inj.mp hone.1
      rw [hone.2, List.append_nil] at hqueued
      exact ⟨k', a, parents, hi ▸ hv, hqueued, hturn.lt hlt, hrest⟩
  intro k m t u ht hu
  obtain ⟨k', a, parents, hva, hqa, halt, hruna⟩ := hfirst k t ht
  obtain ⟨m', b, parents', hvb, hqb, hblt, hrunb⟩ := hfirst m u hu
  obtain ⟨hsame, hparents⟩ := hva.sameStatuses hvb
  have hsame' : SameStatuses b.1 a.1 := ⟨fun i => (hsame.goals i).symm, fun k => (hsame.rows k).symm⟩
  have hqueue : ∀ i, i ∈ a.2 ↔ i ∈ b.2 := fun i => by rw [hqa.mem_iff, hqb.mem_iff, hparents]
  have hrana := (Ran.start (hfirm _ _ hva) halt).turns hruna
  have hranb := (Ran.start (hfirm _ _ hvb) hblt).turns hrunb
  refine sameStatuses_of_below hsame (hva.advances.trans hrana.advances) (hvb.advances.trans hranb.advances) hrana hranb ?_ ?_
  · exact below_of_turns hva.advances hvb.advances hsame (fun i => (hqueue i).mp) (hfirm _ _ hva) (hfirm _ _ hvb) halt hblt
      hruna hrunb
  · exact below_of_turns hvb.advances hva.advances hsame' (fun i => (hqueue i).mpr) (hfirm _ _ hvb) (hfirm _ _ hva) hblt
      halt hrunb hruna

/-- Every run has at most as many turns as the fuel of the loop, and a queue that is not empty goes on. -/
def Store.Terminates (s : Store) (n : ℤ) (budgetSpent : ℚ) (level : Text) (start : GoalId) : Prop :=
  ∀ k c, Turns n budgetSpent level k (s, [start]) c → k ≤ propagateFuel s ∧
    (start < s.goals.length → c.2 ≠ [] → ∃ d, Turn n budgetSpent level c d)

theorem terminates (s : Store) (start : GoalId) : s.Terminates n budgetSpent level start := by
  intro k c h
  by_cases hstart : start < s.goals.length
  · have hlt : ∀ i ∈ [start], i < s.goals.length := fun i hi => List.mem_singleton.mp hi ▸ hstart
    obtain ⟨hbound, hlt'⟩ := h.bounded hlt
    have hfuel := turnsLeft_le_fuel (n := n) s start
    exact ⟨by omega, fun _ hne => Turn.exists hlt' hne⟩
  · cases h with
    | none => exact ⟨Nat.zero_le _, fun h => (hstart h).elim⟩
    | more hturn _ => exact (hstart hturn.exists_goal).elim

/-- The loop of `propagate` is one of the runs, and with fuel enough it is run to the end. -/
theorem propagateLoop_turns (fuel : ℕ) (pending : List GoalId) (w : World Unit)
    (hlt : ∀ i ∈ pending, i < w.store.goals.length) (hfuel : turnsLeft n (w.store, pending) ≤ fuel) :
    ∃ k w', propagateLoop n budgetSpent level fuel pending w = (.ok [], w') ∧
      Turns n budgetSpent level k (w.store, pending) (w'.store, []) := by
  induction fuel generalizing pending w with
  | zero =>
    have hnil : pending = [] := by
      unfold turnsLeft at hfuel
      dsimp only at hfuel
      exact List.length_eq_zero_iff.mp (by omega)
    rw [hnil]
    exact ⟨0, w, rfl, .none _⟩
  | succ fuel ih =>
    cases pending with
    | nil => exact ⟨0, w, rfl, .none _⟩
    | cons i rest =>
      have hexact : Triple (fun v : World Unit => v.store = w.store) (visit n budgetSpent level i)
          (fun parents v => Visited n w.store v.store i parents) (fun _ => False) :=
        visit_exact i w.store (hlt i List.mem_cons_self)
      have hv := hexact w rfl
      cases hrun : visit n budgetSpent level i w with
      | mk r w' =>
        rw [hrun] at hv
        cases r with
        | error e => exact hv.elim
        | ok parents =>
          have hturn : Turn n budgetSpent level (w.store, i :: rest) (w'.store, parents.reverse ++ rest) :=
            .visit i (List.Perm.refl _) (List.Perm.refl _) ((visit_eq i w).symm.trans hrun) (List.reverse_perm parents)
          have hless := hturn.turnsLeft_lt hlt
          obtain ⟨k, w'', hloop, hturns⟩ := ih (parents.reverse ++ rest) w' (hturn.lt hlt) (by omega)
          refine ⟨k + 1, w'', ?_, .more hturn hturns⟩
          unfold propagateLoop
          rw [Prog.bind_ok hrun]
          exact hloop

theorem propagate_turns (w : World Unit) (start : GoalId) (hstart : start < w.store.goals.length) :
    ∃ k w', propagate n budgetSpent level start w = (.ok (), w') ∧
      Turns n budgetSpent level k (w.store, [start]) (w'.store, []) := by
  have hlt : ∀ i ∈ [start], i < w.store.goals.length := fun i hi => List.mem_singleton.mp hi ▸ hstart
  have hrun : ∃ k w', propagateLoop n budgetSpent level (propagateFuel w.store) [start] w = (.ok [], w') ∧
      Turns n budgetSpent level k (w.store, [start]) (w'.store, []) :=
    propagateLoop_turns _ _ w hlt (turnsLeft_le_fuel w.store start)
  obtain ⟨k, w', hloop, hturns⟩ := hrun
  refine ⟨k, w', ?_, hturns⟩
  unfold propagate
  rw [Prog.bind_ok (show read w = (.ok w.store, w) from rfl), Prog.bind_ok hloop]
  rfl

/-- Propagation ends on every store, in any order, and it is confluent from a store in which every goal
but the start has the status a visit computes, unless the start loses a PROVED status; or in which it has
the status its stored rows give. -/
theorem propagation_ends_and_agrees (s : Store) (n : ℤ) (budgetSpent : ℚ) (level : Text) (start : GoalId) :
    s.Terminates n budgetSpent level start ∧
      (s.UpToDate n start ∨ s.Recorded n start → s.Confluent n budgetSpent level start) := by
  refine ⟨terminates s start, fun h => confluent_of_firm fun t parents hv => ?_⟩
  cases h with
  | inl h => exact hv.firm_of_upToDate h
  | inr h => exact hv.firm_of_recorded h

def visitedStore (n : ℤ) (s : Store) (i : GoalId) : Store :=
  (visitRows n 0 [] i (s.decompositionsOf i) { store := s, env := () }).2.store

def visitedParents (n : ℤ) (s : Store) (i : GoalId) : List GoalId :=
  match (visitRows n 0 [] i (s.decompositionsOf i) { store := s, env := () }).1 with
  | .ok parents => parents
  | .error _ => []

theorem turn_visited {s : Store} {pending : List GoalId} (i : GoalId) (rest parents : List GoalId) (hi : i < s.goals.length)
    (hpick : pending.Perm (i :: rest)) (hparents : visitedParents n s i = parents) :
    Turn n 0 [] (s, pending) (visitedStore n s i, parents ++ rest) := by
  have hexact : Triple (fun v : World Unit => v.store = s) (visitRows n 0 [] i (s.decompositionsOf i))
      (fun parents v => Visited n s v.store i parents) (fun _ => False) := visitRows_exact i s hi (List.Perm.refl _)
  have hv := hexact { store := s, env := () } rfl
  cases hrun : visitRows n 0 [] i (s.decompositionsOf i) ({ store := s, env := () } : World Unit) with
  | mk r w' =>
    rw [hrun] at hv
    cases r with
    | error e => exact hv.elim
    | ok parents' =>
      unfold visitedParents at hparents
      unfold visitedStore
      rw [hrun] at hparents ⊢
      exact .visit i hpick (List.Perm.refl _) hrun (hparents ▸ List.Perm.refl _)

theorem recomputed_missing {s : Store} {i : GoalId} (h : s.goals.length ≤ i) : s.statusOf i = s.recomputed n i := by
  have hgoal : s.goal i = none := List.getElem?_eq_none_iff.mpr h
  have hattempts : s.attemptsOf i = [] := by
    refine List.filter_eq_nil_iff.mpr fun a ha heq => ?_
    have hlt := s.attempt_goal a ha
    rw [of_decide_eq_true heq] at hlt
    exact not_lt.mpr h hlt
  have hrows : s.decompositionsOf i = [] := by
    refine List.filter_eq_nil_iff.mpr fun d hd heq => ?_
    have hlt := Store.decomposition_goal_lt hd
    rw [of_decide_eq_true heq] at hlt
    exact not_lt.mpr h hlt
  unfold Store.recomputed Store.statusOf
  rw [hgoal, hattempts, hrows]
  by_cases hn : 0 < n <;> simp [goalStatusFrom, newStatuses, hn]

def lemmaGoal (i : ℕ) (status : GoalStatus) : Goal := ⟨i, [Char.ofNat (i + 97)], [], status, none, none, none, none, none⟩

def routeTo (i goal : ℕ) (subgoals : List GoalId) : DecompositionRow :=
  { id := i, goalId := goal, subgoalIds := subgoals, status := .accepted }

def threeRoutes : List DecompositionRow := [routeTo 0 1 [0], routeTo 1 2 [0], routeTo 2 2 [1]]

/-- Three PROVED goals, the first by nothing. The second has a route through the first, and the third
one through the first and one through the second. -/
def hollow : Store where
  goals := [lemmaGoal 0 .proved, lemmaGoal 1 .proved, lemmaGoal 2 .proved]
  decompositions := threeRoutes

def solved : Store where
  goals := [lemmaGoal 0 .opened, lemmaGoal 1 .opened, lemmaGoal 2 .opened]
  decompositions := threeRoutes
  attempts := [⟨0, 0, .proved, none, none, none, 0, []⟩]

theorem solved_upToDate : solved.UpToDate 3 0 := by
  refine ⟨fun i hi => ?_, by decide⟩
  by_cases hlen : i < 3
  · interval_cases i
    · exact (hi rfl).elim
    · decide
    · decide
  · exact recomputed_missing (not_lt.mp hlen)

theorem propagation_ends_and_agrees_solved :
    solved.Terminates 3 0 [] 0 ∧ solved.Confluent 3 0 [] 0 ∧ ∃ k w', propagate 3 0 [] 0 { store := solved, env := () } =
      (.ok (), w') ∧ Turns 3 0 [] k (solved, [0]) (w'.store, []) :=
  ⟨(propagation_ends_and_agrees solved 3 0 [] 0).1,
    (propagation_ends_and_agrees solved 3 0 [] 0).2 (.inl solved_upToDate), propagate_turns _ 0 (by decide)⟩

/-- What the order decides: whether the third goal completes its route through the second one while that
is still PROVED. -/
theorem hollow_not_confluent : ¬ ∀ (s : Store) (n : ℤ) (budgetSpent : ℚ) (level : Text) (start : GoalId),
    s.Terminates n budgetSpent level start ∧
      ((∀ i, i ≠ start → s.statusOf i = s.recomputed n i) → s.Confluent n budgetSpent level start) := by
  intro h
  have hothers : ∀ i, i ≠ 0 → hollow.statusOf i = hollow.recomputed 3 i := by
    intro i hi
    by_cases hlen : i < 3
    · interval_cases i
      · exact (hi rfl).elim
      · decide
      · decide
    · exact recomputed_missing (not_lt.mp hlen)
  -- the third goal before the second
  have hlast : Turns 3 0 [] 4 (hollow, [0]) (visitedStore 3 (visitedStore 3 (visitedStore 3 (visitedStore 3 hollow 0) 2) 1) 2, []) :=
    .more (turn_visited 0 [] [1, 2] (by decide) (by decide) (by decide))
      (.more (turn_visited 2 [1] [] (by decide) (by decide) (by decide))
        (.more (turn_visited 1 [] [2] (by decide) (by decide) (by decide))
          (.more (turn_visited 2 [] [] (by decide) (by decide) (by decide)) (.none _))))
  have hfirst : Turns 3 0 [] 4 (hollow, [0]) (visitedStore 3 (visitedStore 3 (visitedStore 3 (visitedStore 3 hollow 0) 1) 2) 2, []) :=
    .more (turn_visited 0 [] [1, 2] (by decide) (by decide) (by decide))
      (.more (turn_visited 1 [2] [2] (by decide) (by decide) (by decide))
        (.more (turn_visited 2 [2] [] (by decide) (by decide) (by decide))
          (.more (turn_visited 2 [] [] (by decide) (by decide) (by decide)) (.none _))))
  have hsame := ((h hollow 3 0 [] 0).2 hothers 4 4 _ _ hlast hfirst).goals 2
  exact absurd hsame (by decide)

end EvoHarness.Proof
