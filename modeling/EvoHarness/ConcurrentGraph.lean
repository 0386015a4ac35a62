import EvoHarness.Ancestors
import EvoHarness.Library.Runs

/-! Several processes calling `add_decomposition` on one graph. Each SELECT of a call and
its write transaction are steps of their own, and any other call may run between them. -/
namespace EvoHarness.Proof.ConcurrentGraph
open PyText Relation Dag Runs

structure Call where
  goalId : GoalId
  subgoals : List (Text × Text)
  sketch : Option Sketch := none
  status : DecompositionStatus := .proposed

/-- How far a call has come. `walking` holds what `ancestor_identities` has seen, what is
still on its stack, and the parents of the goal it has popped that are not yet looked up. -/
inductive Phase where
  | idle
  | called (c : Call)
  | walking (c : Call) (parent : Text) (scan : Search.Scan GoalId Text) (parents : List GoalId)
  | checked (c : Call)

/-- The next SELECT of a call, or the check once there is nothing left to read; a call that
raises is over. -/
def Phase.read (s : Store) : Phase → Option Phase
  | .called c =>
    match s.goal c.goalId with
    | none => some .idle
    | some g => some (.walking c g.identity ⟨[], [c.goalId]⟩ [])
  | .walking c a scan (p :: ps) =>
    match s.goal p with
    | none => some .idle
    | some g => some (.walking c a (Search.push (fun _ => g.identity) scan p) ps)
  | .walking c a scan [] =>
    match scan.frontier with
    | x :: rest => some (.walking c a ⟨scan.seen, rest⟩ (s.parentsOf x))
    | [] =>
      match checkAcyclic (a :: scan.seen) (c.subgoals.map Prod.fst) with
      | .ok () => some (.checked c)
      | .error _ => some .idle
  | _ => none

structure Net (ω : Type) where
  store : Store
  phase : ω → Phase

inductive Label (ω : Type) where
  | call (w : ω) (c : Call)
  | read (w : ω)
  | write (w : ω)

variable {ω : Type} [DecidableEq ω]

def Net.set (net : Net ω) (w : ω) (ph : Phase) : Net ω :=
  { net with phase := Function.update net.phase w ph }

def step (net : Net ω) : Label ω → Option (Net ω)
  | .call w c =>
    match net.phase w with
    | .idle => some (net.set w (if c.subgoals = [] then .idle else .called c))
    | _ => none
  | .read w => ((net.phase w).read net.store).map (net.set w)
  | .write w =>
    match net.phase w with
    | .checked c =>
      match net.store.writeDecomposition c.goalId c.subgoals c.sketch c.status with
      | .ok t => some ({ net with store := t }.set w .idle)
      | .error _ => some (net.set w .idle)
    | _ => none

def start (s : Store) : Net ω := ⟨s, fun _ => .idle⟩

/-- What is known of a call on its way: it proposes something, and its goal exists. -/
def Phase.Bounded (s : Store) : Phase → Prop
  | .idle => True
  | .called c => c.subgoals ≠ []
  | .walking c .. => c.subgoals ≠ [] ∧ c.goalId < s.goals.length
  | .checked c => c.subgoals ≠ [] ∧ c.goalId < s.goals.length

def Bounded (net : Net ω) : Prop := ∀ w, (net.phase w).Bounded net.store

def StillApart (net : Net ω) : Label ω → Prop
  | .write w => ∀ c, net.phase w = .checked c → net.store.checkDecomposition c.goalId c.subgoals = .ok ()
  | _ => True

section
variable {net t : Net ω} {s : Store}

theorem Phase.Bounded.mono {ph : Phase} {u : Store} (h : ph.Bounded s) (hle : s.goals.length ≤ u.goals.length) :
    ph.Bounded u := by
  cases ph with
  | idle => trivial
  | called c => exact h
  | walking c a scan ps => exact ⟨h.1, h.2.trans_le hle⟩
  | checked c => exact ⟨h.1, h.2.trans_le hle⟩

theorem Phase.Bounded.read {ph ph' : Phase} (h : ph.Bounded s) (hr : ph.read s = some ph') :
    ph'.Bounded s := by
  cases ph with
  | idle => simp [Phase.read] at hr
  | checked c => simp [Phase.read] at hr
  | called c =>
    simp only [Phase.read] at hr
    cases hg : s.goal c.goalId with
    | none =>
      obtain rfl := by simpa [hg] using hr
      trivial
    | some g =>
      obtain rfl := by simpa [hg] using hr
      exact ⟨h, Store.goal_lt hg⟩
  | walking c a scan ps =>
    cases ps with
    | cons p ps =>
      simp only [Phase.read] at hr
      cases hg : s.goal p with
      | none =>
        obtain rfl := by simpa [hg] using hr
        trivial
      | some g =>
        obtain rfl := by simpa [hg] using hr
        exact h
    | nil =>
      simp only [Phase.read] at hr
      cases hf : scan.frontier with
      | cons x rest =>
        obtain rfl := by simpa [hf] using hr
        exact h
      | nil =>
        cases hc : checkAcyclic (a :: scan.seen) (c.subgoals.map Prod.fst) with
        | ok u =>
          obtain rfl := by simpa [hf, hc] using hr
          exact h
        | error e =>
          obtain rfl := by simpa [hf, hc] using hr
          trivial

theorem Bounded.set (h : Bounded net) {w : ω} {ph : Phase} (hp : ph.Bounded net.store) :
    Bounded (net.set w ph) := by
  intro v
  by_cases hv : v = w
  · subst hv
    simpa [Net.set] using hp
  · simpa [Net.set, hv] using h v

theorem step_cases {a : Label ω} (h : step net a = some t) :
    t.store = net.store ∨ ∃ w c, a = .write w ∧ net.phase w = .checked c ∧
      net.store.writeDecomposition c.goalId c.subgoals c.sketch c.status = .ok t.store := by
  cases a with
  | call w c =>
    simp only [step] at h
    split at h
    · exact Or.inl (by rw [← Option.some.inj h]; rfl)
    · simp at h
  | read w =>
    obtain ⟨ph, _, rfl⟩ := Option.map_eq_some_iff.mp h
    exact Or.inl rfl
  | write w =>
    simp only [step] at h
    split at h
    · next c hc =>
      split at h
      · next u hu =>
        obtain rfl := Option.some.inj h
        exact Or.inr ⟨w, c, rfl, hc, hu⟩
      · exact Or.inl (by rw [← Option.some.inj h]; rfl)
    · simp at h

theorem length_le_write {goalId : GoalId} {ps : List (Text × Text)} {k : Option Sketch}
    {st : DecompositionStatus} {u : Store} (hw : s.writeDecomposition goalId ps k st = .ok u) :
    s.goals.length ≤ u.goals.length := by
  obtain ⟨v, ids, hgrow, _, _, hgoals, _⟩ := Store.writeDecomposition_spec hw
  rw [hgoals]
  exact hgrow.length_le

theorem bounded_step (net : Net ω) (a : Label ω) (t : Net ω) (h : Bounded net) (hs : step net a = some t) :
    Bounded t := by
  cases a with
  | call w c =>
    simp only [step] at hs
    split at hs
    · obtain rfl := Option.some.inj hs
      refine h.set ?_
      split
      · trivial
      · next hne => exact hne
    · simp at hs
  | read w =>
    obtain ⟨ph, hr, rfl⟩ := Option.map_eq_some_iff.mp hs
    exact h.set ((h w).read hr)
  | write w =>
    simp only [step] at hs
    split at hs
    · split at hs
      · next u hu =>
        obtain rfl := Option.some.inj hs
        have hgrown : Bounded { net with store := u } := fun v => (h v).mono (length_le_write hu)
        exact hgrown.set trivial
      · obtain rfl := Option.some.inj hs
        exact h.set trivial
    · simp at hs

omit [DecidableEq ω] in
theorem bounded_start : Bounded (start s : Net ω) := fun _ => trivial

theorem checkDecomposition_iff {goalId : GoalId} {ps : List (Text × Text)} (hne : ps ≠ [])
    (hg : goalId < s.goals.length) : s.checkDecomposition goalId ps = .ok () ↔
      ∀ a ∈ ps.map Prod.fst, a ∉ s.identityOf goalId :: s.ancestorIdentities goalId := by
  obtain ⟨g, hgoal⟩ := Store.exists_goal hg
  unfold Store.checkDecomposition
  simp only [hne, if_false, hgoal]
  rw [checkAcyclic_ok_iff, Store.identityOf_goal hgoal]

theorem acyclic_step_iff (net : Net ω) (a : Label ω) (t : Net ω) (hb : Bounded net)
    (hac : Acyclic net.store.Sub) (hs : step net a = some t) :
    Acyclic t.store.Sub ↔ StillApart net a := by
  have hold : t.store = net.store → Acyclic t.store.Sub := fun h => h ▸ hac
  cases a with
  | call w c =>
    cases step_cases hs with
    | inl h => exact ⟨fun _ => trivial, fun _ => hold h⟩
    | inr h =>
      obtain ⟨_, _, ha, _⟩ := h
      simp at ha
  | read w =>
    cases step_cases hs with
    | inl h => exact ⟨fun _ => trivial, fun _ => hold h⟩
    | inr h =>
      obtain ⟨_, _, ha, _⟩ := h
      simp at ha
  | write w =>
    simp only [step] at hs
    split at hs
    · next c hc =>
      have hbc := hb w
      rw [hc] at hbc
      obtain ⟨hne, hg⟩ := hbc
      split at hs
      · next u hu =>
        obtain rfl := Option.some.inj hs
        have hiff := Store.acyclic_writeDecomposition_iff hac hg hu
        rw [← checkDecomposition_iff hne hg] at hiff
        refine hiff.trans ⟨fun h c' hc' => ?_, fun h => h c hc⟩
        obtain rfl := Phase.checked.inj (hc.symm.trans hc')
        exact h
      · next e he =>
        obtain ⟨u, hu⟩ := Store.writeDecomposition_ok hg c.subgoals c.sketch c.status
        rw [hu] at he
        simp at he
    · simp at hs

end

/-- On every interleaving the graph is acyclic throughout exactly when at every write the
acyclicity check, made again in the graph as it then is, would pass. -/
theorem acyclic_iff_still_apart (s : Store) (hs : Acyclic s.Sub) (ls : List (Label ω)) :
    Everywhere step (fun net => Acyclic net.store.Sub) (start s) ls ↔
      Meets step StillApart (start s) ls :=
  everywhere_iff_meets bounded_step acyclic_step_iff bounded_start hs

def Reads (s : Store) : Phase → Phase → Prop := ReflTransGen fun ph ph' => ph.read s = some ph'

section
variable {s : Store} {c : Call} {a : Text}

theorem reads_parents {scan : Search.Scan GoalId Text} {ps : List GoalId} (hps : ∀ p ∈ ps, p < s.goals.length) :
    Reads s (.walking c a scan ps) (.walking c a (ps.foldl (Search.push s.identityOf) scan) []) := by
  induction ps generalizing scan with
  | nil => exact .refl
  | cons p ps ih =>
    obtain ⟨g, hg⟩ := Store.exists_goal (hps p (List.mem_cons_self ..))
    have hpush : Search.push (fun _ => g.identity) scan p = Search.push s.identityOf scan p := by
      simp only [Search.push, Store.identityOf_goal hg]
    have hread : (Phase.walking c a scan (p :: ps)).read s =
        some (.walking c a (Search.push s.identityOf scan p) ps) := by
      simp [Phase.read, hg, hpush]
    exact .head hread (ih fun q hq => hps q (List.mem_cons_of_mem p hq))

theorem reads_explore (n : ℕ) (scan : Search.Scan GoalId Text) :
    Reads s (.walking c a scan []) (.walking c a (Search.explore s.identityOf s.parentsOf n scan) []) := by
  induction n generalizing scan with
  | zero => exact .refl
  | succ n ih =>
    cases hf : scan.frontier with
    | nil =>
      simp only [Search.explore, hf]
      exact .refl
    | cons x rest =>
      simp only [Search.explore, hf]
      have hpop : (Phase.walking c a scan []).read s = some (.walking c a ⟨scan.seen, rest⟩ (s.parentsOf x)) := by
        simp [Phase.read, hf]
      have hparents : ∀ p ∈ s.parentsOf x, p < s.goals.length :=
        fun p hp => (Store.mem_parentsOf.mp hp).left_lt
      exact .head hpop ((reads_parents hparents).trans (ih _))

/-- Undisturbed, the reads make the check of `add_decomposition`. -/
theorem reads_check (hne : c.subgoals ≠ []) (hg : c.goalId < s.goals.length) :
    Reads s (.called c)
      (if s.checkDecomposition c.goalId c.subgoals = .ok () then .checked c else .idle) := by
  obtain ⟨g, hgoal⟩ := Store.exists_goal hg
  have hcall : (Phase.called c).read s = some (.walking c g.identity ⟨[], [c.goalId]⟩ []) := by
    simp [Phase.read, hgoal]
  refine .head hcall ((reads_explore (s.goals.length + 1) _).tail ?_)
  simp only [Phase.read, Store.frontier_ancestors hg, Store.checkDecomposition, hne, if_false, hgoal]
  change (match checkAcyclic (g.identity :: s.ancestorIdentities c.goalId) _ with
    | .ok () => _ | .error _ => _) = _
  cases checkAcyclic (g.identity :: s.ancestorIdentities c.goalId) (c.subgoals.map Prod.fst) with
  | ok u => simp
  | error e => simp

theorem checked_of_reads {c' : Call} (hne : c.subgoals ≠ []) (hg : c.goalId < s.goals.length)
    (h : Reads s (.called c) (.checked c')) :
    c' = c ∧ s.checkDecomposition c.goalId c.subgoals = .ok () := by
  have hunique : Relator.RightUnique fun ph ph' : Phase => ph.read s = some ph' :=
    fun _ _ _ h h' => Option.some.inj (h.symm.trans h')
  have hstuck : ∀ {ph ph' : Phase}, ph.read s = none → Reads s ph ph' → ph' = ph := by
    intro ph ph' hnone hr
    cases hr.cases_head with
    | inl h => exact h.symm
    | inr h =>
      obtain ⟨_, h, _⟩ := h
      simp [hnone] at h
  have hsame : (if s.checkDecomposition c.goalId c.subgoals = .ok () then Phase.checked c else .idle) =
      .checked c' := by
    cases ReflTransGen.total_of_right_unique hunique h (reads_check hne hg) with
    | inl h => exact hstuck rfl h
    | inr h => exact (hstuck (by split <;> rfl) h).symm
  split at hsame
  · next hok => exact ⟨(Phase.checked.inj hsame).symm, hok⟩
  · simp at hsame

end

def Alone (net : Net ω) : Label ω → Prop
  | .write w => ∀ v, v ≠ w → net.phase v = .idle
  | _ => True

def UpToDate (net : Net ω) : Prop :=
  ∀ w, net.phase w = .idle ∨ ∃ c, c.subgoals ≠ [] ∧ Reads net.store (.called c) (net.phase w)

theorem UpToDate.set {net : Net ω} (h : UpToDate net) {w : ω} {ph : Phase}
    (hp : ph = .idle ∨ ∃ c, c.subgoals ≠ [] ∧ Reads net.store (.called c) ph) : UpToDate (net.set w ph) := by
  intro v
  by_cases hv : v = w
  · subst hv
    simpa [Net.set] using hp
  · simpa [Net.set, hv] using h v

def Label.process : Label ω → ω
  | .call w _ => w
  | .read w => w
  | .write w => w

theorem phase_of_step {net t : Net ω} {a : Label ω} {v : ω} (hs : step net a = some t) (hv : v ≠ a.process) :
    t.phase v = net.phase v := by
  cases a with
  | call w c =>
    simp only [step] at hs
    split at hs
    · rw [← Option.some.inj hs]
      exact Function.update_of_ne hv _ _
    · simp at hs
  | read w =>
    obtain ⟨ph, -, rfl⟩ := Option.map_eq_some_iff.mp hs
    exact Function.update_of_ne hv _ _
  | write w =>
    simp only [step] at hs
    split at hs
    · split at hs
      · rw [← Option.some.inj hs]
        exact Function.update_of_ne hv _ _
      · rw [← Option.some.inj hs]
        exact Function.update_of_ne hv _ _
    · simp at hs

theorem upToDate_step (net : Net ω) (a : Label ω) (t : Net ω) (h : UpToDate net) (ha : Alone net a)
    (hs : step net a = some t) : UpToDate t := by
  cases a with
  | call w c =>
    simp only [step] at hs
    split at hs
    · obtain rfl := Option.some.inj hs
      refine h.set ?_
      split
      · exact Or.inl rfl
      · next hne => exact Or.inr ⟨c, hne, .refl⟩
    · simp at hs
  | read w =>
    obtain ⟨ph, hr, rfl⟩ := Option.map_eq_some_iff.mp hs
    refine h.set (Or.inr ?_)
    cases h w with
    | inl hidle => simp [hidle, Phase.read] at hr
    | inr h =>
      obtain ⟨c, hne, hc⟩ := h
      exact ⟨c, hne, hc.tail hr⟩
  | write w =>
    have hidle : ∀ v, (t.phase v) = .idle := by
      intro v
      by_cases hv : v = w
      · subst hv
        simp only [step] at hs
        split at hs
        · split at hs
          · rw [← Option.some.inj hs]
            simp [Net.set]
          · rw [← Option.some.inj hs]
            simp [Net.set]
        · simp at hs
      · have hkept : t.phase v = net.phase v := phase_of_step hs hv
        exact hkept.trans (ha v hv)
    exact fun v => Or.inl (hidle v)

/-- Where no other call is on its way at a write, the graph stays acyclic. -/
theorem acyclic_of_alone (s : Store) (hs : Acyclic s.Sub) (ls : List (Label ω))
    (h : Meets step Alone (start s) ls) : Everywhere step (fun net => Acyclic net.store.Sub) (start s) ls := by
  have hstep : ∀ (net : Net ω) a t, Bounded net ∧ Acyclic net.store.Sub ∧ UpToDate net → Alone net a →
      step net a = some t → Bounded t ∧ Acyclic t.store.Sub ∧ UpToDate t := by
    intro net a t ⟨hb, hac, hu⟩ ha hst
    refine ⟨bounded_step net a t hb hst, ?_, upToDate_step net a t hu ha hst⟩
    refine (acyclic_step_iff net a t hb hac hst).mpr ?_
    cases a with
    | call w c => trivial
    | read w => trivial
    | write w =>
      intro c hc
      have hbc := hb w
      rw [hc] at hbc
      cases hu w with
      | inl hidle => simp [hidle] at hc
      | inr h =>
        obtain ⟨c', hne, hr⟩ := h
        rw [hc] at hr
        have hg : c'.goalId < net.store.goals.length := by
          cases hr.cases_head with
          | inl h => simp at h
          | inr h =>
            obtain ⟨ph, hread, hrest⟩ := h
            cases hgoal : net.store.goal c'.goalId with
            | some g => exact Store.goal_lt hgoal
            | none =>
              obtain rfl : Phase.idle = ph := by simpa [Phase.read, hgoal] using hread
              cases hrest.cases_head with
              | inl h => simp at h
              | inr h =>
                obtain ⟨_, h, _⟩ := h
                simp [Phase.read] at h
        obtain ⟨rfl, hok⟩ := checked_of_reads hne hg hr
        exact hok
  exact (everywhere_of_meets hstep ⟨bounded_start, hs, fun _ => Or.inl rfl⟩ h).mono fun _ h => h.2.1

def twoGoals : Store :=
  (Store.empty.insertGoal "A".toList "theorem a : A".toList).insertGoal "B".toList "theorem b : B".toList

theorem acyclic_twoGoals : Acyclic twoGoals.Sub := by
  intro i hi
  obtain ⟨_, ⟨d, hd, _⟩, _⟩ := TransGen.head'_iff.mp hi
  have : twoGoals.decompositions = [] := by decide
  simp [this] at hd

def crossing : List (Label Bool) :=
  [.call true ⟨0, [("B".toList, "theorem b : B".toList)], none, .proposed⟩,
    .call false ⟨1, [("A".toList, "theorem a : A".toList)], none, .proposed⟩,
    .read true, .read true, .read true, .read false, .read false, .read false, .write true, .write false]

def inTurn : List (Label Bool) :=
  [.call true ⟨0, [("B".toList, "theorem b : B".toList)], none, .proposed⟩, .read true, .read true, .read true, .write true,
    .call false ⟨1, [("C".toList, "theorem c : C".toList)], none, .proposed⟩, .read false, .read false, .read false,
    .read false, .read false, .write false]

def othersIdle (net : Net Bool) : Label Bool → Bool
  | .write w => match net.phase !w with
    | .idle => true
    | _ => false
  | _ => true

theorem alone_of_othersIdle {net : Net Bool} {l : Label Bool} (h : othersIdle net l = true) : Alone net l := by
  cases l with
  | call w c => trivial
  | read w => trivial
  | write w =>
    intro v hv
    rw [Bool.eq_not_of_ne hv]
    cases hphase : net.phase !w with
    | idle => rfl
    | _ => simp [othersIdle, hphase] at h

theorem acyclic_of_alone_inTurn :
    (∃ t, run step (start twoGoals) inTurn = some t ∧
      t.store.decompositions.map (fun d => (d.goalId, d.subgoalIds)) = [(0, [1]), (1, [2])]) ∧
    Everywhere step (fun net => Acyclic net.store.Sub) (start twoGoals) inTurn := by
  constructor
  · have hrun : (run step (start twoGoals) inTurn).map (fun t =>
        t.store.decompositions.map fun d => (d.goalId, d.subgoalIds)) = some [(0, [1]), (1, [2])] := by
      decide +kernel
    exact Option.map_eq_some_iff.mp hrun
  · have hmeets : Meets step (fun net l => othersIdle net l = true) (start twoGoals) inTurn :=
      meets_of_check (by decide +kernel)
    have halone : Meets step Alone (start twoGoals) inTurn :=
      meets_of_meets (I := fun _ => True) (fun _ _ _ _ _ _ => trivial) (fun _ _ _ => alone_of_othersIdle) trivial hmeets
    exact acyclic_of_alone twoGoals acyclic_twoGoals inTurn halone

theorem acyclic_iff_still_apart_twoGoals :
    Everywhere step (fun net => Acyclic net.store.Sub) (start twoGoals) crossing ↔
      Meets step StillApart (start twoGoals) crossing :=
  acyclic_iff_still_apart twoGoals acyclic_twoGoals crossing

theorem crossing_closes_cycle :
    ¬ Everywhere step (fun net => Acyclic net.store.Sub) (start twoGoals) crossing := by
  intro h
  obtain ⟨t, ht, hsub⟩ : ∃ t, run step (start twoGoals) crossing = some t ∧
      t.store.decompositions.map (fun d => (d.goalId, d.subgoalIds)) = [(0, [1]), (1, [0])] := by
    have hrun : (run step (start twoGoals) crossing).map (fun t =>
        t.store.decompositions.map fun d => (d.goalId, d.subgoalIds)) = some [(0, [1]), (1, [0])] := by
      decide +kernel
    exact Option.map_eq_some_iff.mp hrun
  have hedge : ∀ i j, (i, [j]) ∈ t.store.decompositions.map (fun d => (d.goalId, d.subgoalIds)) →
      t.store.Sub i j := by
    intro i j hij
    obtain ⟨d, hd, heq⟩ := List.mem_map.mp hij
    obtain ⟨rfl, hids⟩ := Prod.mk.inj heq
    exact ⟨d, hd, rfl, by simp [hids]⟩
  have h01 := hedge 0 1 (by simp [hsub])
  have h10 := hedge 1 0 (by simp [hsub])
  exact everywhere_last h ht 0 (.head h01 (.single h10))

end EvoHarness.Proof.ConcurrentGraph
