import EvoHarness.LeaseFrames
import EvoHarness.Library.Runs

/-! Workers that claim, release and recover on one graph. Every statement against the
database is a step of its own, and the clock only moves forward. -/
namespace EvoHarness.Proof.Leases
open PyText Runs

/-- Where a worker's `recover` stands: the goal in hand, as its scan saw it, and the rest
of the scan. -/
inductive Phase where
  | idle
  | recording (g : Goal) (rest : List Goal)
  | clearing (g : Goal) (rest : List Goal)
  | propagating (g : Goal) (rest : List Goal)

def Phase.next : List Goal → Phase
  | [] => .idle
  | g :: rest => .recording g rest

/-- `granted` is what the workers were told: until when a claim that returned True and was
not released is good. -/
structure Net (ω : Type) where
  store : Store
  now : ℚ
  phase : ω → Phase
  granted : ω → GoalId → Option ℚ

inductive Label (ω : Type) where
  | tick (t : ℚ)
  | claim (w : ω) (i : GoalId) (ttl : ℚ)
  | release (w : ω) (i : GoalId)
  | scan (w : ω)
  | record (w : ω)
  | clear (w : ω)
  | propagate (w : ω) (maxAttempts : ℤ) (level : Text)

variable {ω : Type} [DecidableEq ω]

def Net.grant (net : Net ω) (w : ω) (i : GoalId) (e : Option ℚ) : Net ω :=
  { net with granted := Function.update net.granted w (Function.update (net.granted w) i e) }

def Net.goto (net : Net ω) (w : ω) (ph : Phase) : Net ω :=
  { net with phase := Function.update net.phase w ph }

def step (owner : ω → Text) (net : Net ω) : Label ω → Option (Net ω)
  | .tick t => if net.now ≤ t then some { net with now := t } else none
  | .claim w i ttl =>
    match net.phase w with
    | .idle =>
      match net.store.claim i (owner w) ttl net.now with
      | (s, true) => some ({ net with store := s }.grant w i (some (net.now + ttl)))
      | (s, false) => some { net with store := s }
    | _ => none
  | .release w i =>
    match net.phase w with
    | .idle => some ({ net with store := net.store.release i (owner w) }.grant w i none)
    | _ => none
  | .scan w =>
    match net.phase w with
    | .idle => some (net.goto w (.next (net.store.staleLeases net.now)))
    | _ => none
  | .record w =>
    match net.phase w with
    | .recording g rest =>
      match net.store.recordAttempt
        ((AttemptResult.interrupted g.leaseRunDir (interruptedNote g)).toAttempt g.id) with
      | .ok s => some ({ net with store := s }.goto w (.clearing g rest))
      | .error _ => some (net.goto w .idle)
    | _ => none
  | .clear w =>
    match net.phase w with
    | .clearing g rest =>
      some ({ net with store := net.store.forceRelease g.id }.goto w (.propagating g rest))
    | _ => none
  | .propagate w maxAttempts level =>
    match net.phase w with
    | .propagating g rest =>
      some ({ net with store := net.store.propagated maxAttempts level g.id }.goto w (.next rest))
    | _ => none

def start (s : Store) (now : ℚ) : Net ω := ⟨s, now, fun _ => .idle, fun _ _ => none⟩

def Live (net : Net ω) (w : ω) (i : GoalId) : Prop := ∃ e, net.granted w i = some e ∧ net.now < e

def NeverTaken (owner : ω → Text) (net : Net ω) : Prop :=
  ∀ w i, Live net w i → (net.store.held i).map (·.owner) = some (owner w)

def Exclusive (net : Net ω) : Prop := ∀ w v i, Live net w i → Live net v i → w = v

/-- Every lease in the table was granted to a worker of that name, until the time it says. -/
def Backed (owner : ω → Text) (net : Net ω) : Prop :=
  ∀ i l, net.store.held i = some l →
    ∃ w e, owner w = l.owner ∧ l.expires = some e ∧ net.granted w i = some e

/-- `force_release` acts on a lease that is free or has run out by then. -/
def StillStale (net : Net ω) : Label ω → Prop
  | .clear w => ∀ g rest, net.phase w = .clearing g rest →
      ∀ l, net.store.held g.id = some l → l.freeAt net.now
  | _ => True

section
variable {owner : ω → Text} {net t : Net ω} {i : GoalId} {w v : ω} {e : Option ℚ}

@[simp] theorem grant_self : (net.grant w i e).granted w i = e := by simp [Net.grant]

theorem grant_other {j : GoalId} (h : v = w → j ≠ i) : (net.grant w i e).granted v j = net.granted v j := by
  by_cases hv : v = w
  · subst hv
    simp [Net.grant, h rfl]
  · simp [Net.grant, hv]

theorem step_cases {a : Label ω} (h : step owner net a = some t) :
    (net.now ≤ t.now ∧ (∀ i, t.store.held i = net.store.held i) ∧ t.granted = net.granted ∧
        ∀ w, a ≠ .clear w) ∨
    (∃ w i e, t.now = net.now ∧ (∀ l, net.store.held i = some l → l.freeAt net.now) ∧
        (∀ j, t.store.held j = if i = j then some ⟨owner w, some e, none⟩ else net.store.held j) ∧
        t.granted = (net.grant w i (some e)).granted ∧ ∀ w, a ≠ .clear w) ∨
    (∃ w i, t.now = net.now ∧
        (∀ j, t.store.held j = if i = j then (net.store.held j).filter (·.owner ≠ owner w)
          else net.store.held j) ∧
        t.granted = (net.grant w i none).granted ∧ ∀ w, a ≠ .clear w) ∨
    (∃ w g rest, a = .clear w ∧ net.phase w = .clearing g rest ∧ t.now = net.now ∧
        (∀ j, t.store.held j = if g.id = j then none else net.store.held j) ∧
        t.granted = net.granted) := by
  cases a with
  | tick t' =>
    simp only [step] at h
    split at h
    · next hle =>
      obtain rfl := Option.some.inj h
      exact Or.inl ⟨hle, fun _ => rfl, rfl, by simp⟩
    · simp at h
  | claim w i ttl =>
    simp only [step] at h
    split at h
    · cases Store.claim_cases net.store i (owner w) ttl net.now with
      | inl hc =>
        obtain ⟨hlt, hfree, hc⟩ := hc
        rw [hc] at h
        obtain rfl := Option.some.inj h
        exact Or.inr (Or.inl ⟨w, i, net.now + ttl, rfl, hfree, fun j => Store.held_setLease hlt, rfl, by simp⟩)
      | inr hc =>
        rw [hc] at h
        obtain rfl := Option.some.inj h
        exact Or.inl ⟨le_refl _, fun _ => rfl, rfl, by simp⟩
    · simp at h
  | release w i =>
    simp only [step] at h
    split at h
    · obtain rfl := Option.some.inj h
      exact Or.inr (Or.inr (Or.inl ⟨w, i, rfl, fun j => Store.held_release, rfl, by simp⟩))
    · simp at h
  | scan w =>
    simp only [step] at h
    split at h
    · obtain rfl := Option.some.inj h
      exact Or.inl ⟨le_refl _, fun _ => rfl, rfl, by simp⟩
    · simp at h
  | record w =>
    simp only [step] at h
    split at h
    · split at h
      · next s hs =>
        obtain rfl := Option.some.inj h
        exact Or.inl ⟨le_refl _, Store.held_recordAttempt hs, rfl, by simp⟩
      · obtain rfl := Option.some.inj h
        exact Or.inl ⟨le_refl _, fun _ => rfl, rfl, by simp⟩
    · simp at h
  | clear w =>
    simp only [step] at h
    split at h
    · next g rest hph =>
      obtain rfl := Option.some.inj h
      exact Or.inr (Or.inr (Or.inr ⟨w, g, rest, rfl, hph, rfl, fun j => Store.held_forceRelease, rfl⟩))
    · simp at h
  | propagate w n level =>
    simp only [step] at h
    split at h
    · obtain rfl := Option.some.inj h
      exact Or.inl ⟨le_refl _, (Store.sameLeases_propagated _ _ _ _).held, rfl, by simp⟩
    · simp at h

theorem backed_step (net : Net ω) (a : Label ω) (t : Net ω) (h : Backed owner net)
    (hs : step owner net a = some t) : Backed owner t := by
  intro j l hl
  obtain hsame | hclaim | hrelease | hclear := step_cases hs
  · obtain ⟨_, hheld, hgr, _⟩ := hsame
    rw [hheld] at hl
    rw [hgr]
    exact h j l hl
  · obtain ⟨w, i, e, _, _, hheld, hgr, _⟩ := hclaim
    rw [hheld] at hl
    rw [hgr]
    by_cases hij : i = j
    · subst hij
      obtain rfl := Option.some.inj ((if_pos rfl).symm.trans hl)
      exact ⟨w, e, rfl, rfl, grant_self⟩
    · rw [if_neg hij] at hl
      obtain ⟨v, e', hv, he, hg⟩ := h j l hl
      exact ⟨v, e', hv, he, (grant_other fun _ => Ne.symm hij).trans hg⟩
  · obtain ⟨w, i, _, hheld, hgr, _⟩ := hrelease
    rw [hheld] at hl
    rw [hgr]
    by_cases hij : i = j
    · rw [if_pos hij] at hl
      obtain ⟨hl, hne⟩ := Option.filter_eq_some_iff.mp hl
      obtain ⟨v, e', hv, he, hg⟩ := h j l hl
      have hvw : v ≠ w := by
        intro hvw
        simp [← hv, hvw] at hne
      exact ⟨v, e', hv, he, (grant_other fun h => absurd h hvw).trans hg⟩
    · rw [if_neg hij] at hl
      obtain ⟨v, e', hv, he, hg⟩ := h j l hl
      exact ⟨v, e', hv, he, (grant_other fun _ => Ne.symm hij).trans hg⟩
  · obtain ⟨_, g, _, _, _, _, hheld, hgr⟩ := hclear
    rw [hheld] at hl
    rw [hgr]
    by_cases hij : g.id = j
    · simp [hij] at hl
    · rw [if_neg hij] at hl
      exact h j l hl

omit [DecidableEq ω] in
theorem held_of_live (hinj : Function.Injective owner) (hb : Backed owner net) (hn : NeverTaken owner net)
    (hw : Live net w i) : ∃ l, net.store.held i = some l ∧ l.owner = owner w ∧ ¬ l.freeAt net.now := by
  obtain ⟨l, hl, ho⟩ := Option.map_eq_some_iff.mp (hn w i hw)
  obtain ⟨v, e, hv, he, hg⟩ := hb i l hl
  obtain rfl : v = w := hinj (hv.trans ho)
  obtain ⟨e', hg', hlt⟩ := hw
  obtain rfl := Option.some.inj (hg.symm.trans hg')
  refine ⟨l, hl, ho, fun hfree => ?_⟩
  have hle := hfree e he
  exact absurd hlt (not_lt.mpr hle)

omit [DecidableEq ω] in
theorem exclusive_of_neverTaken (hinj : Function.Injective owner) (h : NeverTaken owner net) : Exclusive net := by
  intro w v i hw hv
  have hwv := (h w i hw).symm.trans (h v i hv)
  exact hinj (Option.some.inj hwv)

theorem neverTaken_step_iff (net : Net ω) (a : Label ω) (t : Net ω) (hinj : Function.Injective owner)
    (hb : Backed owner net) (hn : NeverTaken owner net) (hs : step owner net a = some t) :
    NeverTaken owner t ↔ StillStale net a := by
  have hother : (∀ w, a ≠ .clear w) → StillStale net a := by
    intro ha
    cases a with
    | clear w => exact absurd rfl (ha w)
    | _ => trivial
  obtain hsame | hclaim | hrelease | hclear := step_cases hs
  · obtain ⟨hle, hheld, hgr, ha⟩ := hsame
    refine ⟨fun _ => hother ha, fun _ w j hw => ?_⟩
    obtain ⟨e, he, hlt⟩ := hw
    rw [hheld]
    exact hn w j ⟨e, by rw [← hgr]; exact he, lt_of_le_of_lt hle hlt⟩
  · obtain ⟨w, i, e, hnow, hfree, hheld, hgr, ha⟩ := hclaim
    refine ⟨fun _ => hother ha, fun _ v j hv => ?_⟩
    obtain ⟨e', he, hlt⟩ := hv
    rw [hgr] at he
    rw [hnow] at hlt
    rw [hheld]
    by_cases hij : i = j
    · subst hij
      by_cases hvw : v = w
      · subst hvw
        simp
      · -- a lease that was free was nobody's live one
        rw [grant_other fun h => absurd h hvw] at he
        obtain ⟨l, hl, _, hnot⟩ := held_of_live hinj hb hn ⟨e', he, hlt⟩
        exact absurd (hfree l hl) hnot
    · rw [if_neg hij]
      rw [grant_other fun _ => Ne.symm hij] at he
      exact hn v j ⟨e', he, hlt⟩
  · obtain ⟨w, i, hnow, hheld, hgr, ha⟩ := hrelease
    refine ⟨fun _ => hother ha, fun _ v j hv => ?_⟩
    obtain ⟨e', he, hlt⟩ := hv
    rw [hgr] at he
    rw [hnow] at hlt
    rw [hheld]
    by_cases hij : i = j
    · subst hij
      by_cases hvw : v = w
      · subst hvw
        simp at he
      · rw [grant_other fun h => absurd h hvw] at he
        obtain ⟨l, hl, ho, _⟩ := held_of_live hinj hb hn ⟨e', he, hlt⟩
        have hne : l.owner ≠ owner w := fun h => hvw (hinj (ho.symm.trans h))
        simp [hl, Option.filter_some, ho, hinj.eq_iff, hvw]
    · rw [if_neg hij]
      rw [grant_other fun _ => Ne.symm hij] at he
      exact hn v j ⟨e', he, hlt⟩
  · obtain ⟨w, g, rest, rfl, hph, hnow, hheld, hgr⟩ := hclear
    constructor
    · intro ht g' rest' hph' l hl
      obtain ⟨rfl, -⟩ := Phase.clearing.inj (hph.symm.trans hph')
      -- a lease that is not stale is a live one, and no longer in the table
      intro e he
      by_contra hlt
      obtain ⟨v, e', _, he', hg⟩ := hb g.id l hl
      obtain rfl := Option.some.inj (he.symm.trans he')
      have hlive : Live t v g.id := ⟨e, by rw [hgr]; exact hg, by rw [hnow]; exact not_le.mp hlt⟩
      have := ht v g.id hlive
      rw [hheld] at this
      simp at this
    · intro hok v j hv
      obtain ⟨e', he, hlt⟩ := hv
      rw [hgr] at he
      rw [hnow] at hlt
      obtain ⟨l, hl, ho, hnot⟩ := held_of_live hinj hb hn ⟨e', he, hlt⟩
      have hne : g.id ≠ j := fun h => hnot (hok g rest hph l (h ▸ hl))
      rw [hheld, if_neg hne]
      exact hn v j ⟨e', he, hlt⟩

end

/-- On every interleaving, a lease is never taken from its holder, and no two workers hold one
goal, exactly when each `force_release` finds the lease it clears free or run out. -/
theorem never_taken_iff_still_stale (owner : ω → Text) (hinj : Function.Injective owner) (s : Store)
    (hs : ∀ i, s.held i = none) (now : ℚ) (ls : List (Label ω)) :
    Everywhere (step owner) (fun net => NeverTaken owner net ∧ Exclusive net) (start s now) ls ↔
      Meets (step owner) StillStale (start s now) ls := by
  have hstart : NeverTaken owner (start s now : Net ω) := by
    intro w i hw
    obtain ⟨e, he, _⟩ := hw
    simp [start] at he
  have hbacked : Backed owner (start s now : Net ω) := by
    intro i l hl
    have hnone := hs i
    simp [start, hnone] at hl
  rw [← everywhere_iff_meets backed_step
    (fun net a t => neverTaken_step_iff net a t hinj) hbacked hstart]
  constructor
  · exact Everywhere.mono fun _ h => h.1
  · exact Everywhere.mono fun _ h => ⟨h, exclusive_of_neverTaken hinj h⟩

def oneGoal : Store := Store.empty.insertGoal "A".toList "theorem a : A".toList

def workerName (w : Fin 3) : Text := [['a'], ['b'], ['c']].getD w []

/-- The first lets its lease run out; the second scans, and clears what it saw only after the
third has taken the lease; then the first claims again. -/
def lateClear : List (Label (Fin 3)) :=
  [.claim 0 0 10, .tick 10, .scan 1, .claim 2 0 10, .record 1, .clear 1, .claim 0 0 10]

theorem never_taken_iff_still_stale_oneGoal :
    Everywhere (step workerName) (fun net => NeverTaken workerName net ∧ Exclusive net)
        (start oneGoal 0) lateClear ↔
      Meets (step workerName) StillStale (start oneGoal 0) lateClear :=
  never_taken_iff_still_stale workerName (by decide) oneGoal
    (fun i => by
      cases i with
      | zero => rfl
      | succ i => rfl) 0 lateClear

theorem late_clear_takes_lease :
    ¬ Everywhere (step workerName) (fun net => NeverTaken workerName net ∧ Exclusive net)
      (start oneGoal 0) lateClear := by
  intro h
  obtain ⟨t, ht, hend⟩ : ∃ t, run (step workerName) (start oneGoal 0) lateClear = some t ∧
      (t.now, t.granted 0 0, t.granted 2 0) = (10, some 20, some 20) := by
    have hrun : (run (step workerName) (start oneGoal 0) lateClear).map
        (fun t => (t.now, t.granted 0 0, t.granted 2 0)) = some (10, some 20, some 20) := by
      decide +kernel
    exact Option.map_eq_some_iff.mp hrun
  simp only [Prod.mk.injEq] at hend
  obtain ⟨hnow, h0, h2⟩ := hend
  have hlive : ∀ w, t.granted w 0 = some 20 → Live t w 0 := fun w hw => ⟨20, hw, by rw [hnow]; norm_num⟩
  have hsame := (everywhere_last h ht).2 0 2 0 (hlive 0 h0) (hlive 2 h2)
  exact absurd hsame (by decide)

end EvoHarness.Proof.Leases
