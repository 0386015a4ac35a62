import EvoHarness.SolveLoop
import EvoHarness.NoFalseProved

/-! Which claims the attempt rows are for, when several controllers run `solve` and `recover`
on one graph, and any of them may die or its solver raise. -/
namespace EvoHarness.Proof.SolveLoop
open PyText Runs

structure Claim (ω : Type) where
  worker : ω
  goal : GoalId
  attacked : Bool := false
  dir : Option Text := none
  result : Option AttemptResult := none

/-- `order` tells, row by row, which claim the new attempts were recorded for. -/
structure Ledger (ω : Type) where
  claims : List (Claim ω) := []
  current : ω → Option ℕ := fun _ => none
  order : List ℕ := []

variable {ω : Type}

namespace Ledger

def unrecorded (L : Ledger ω) (i : GoalId) : List ℕ :=
  (List.range L.claims.length).filter fun n =>
    n ∉ L.order && (L.claims[n]?).any fun c => c.goal = i && c.attacked

def revise (L : Ledger ω) (w : ω) (f : Claim ω → Claim ω) : Ledger ω :=
  match L.current w with
  | none => L
  | some n => { L with claims := L.claims.modify n f }

def record (L : Ledger ω) (n : Option ℕ) : Ledger ω := { L with order := L.order ++ n.toList }

variable [DecidableEq ω]

def claim (L : Ledger ω) (w : ω) (i : GoalId) : Ledger ω :=
  { L with
    claims := L.claims ++ [{ worker := w, goal := i }]
    current := Function.update L.current w (some L.claims.length) }

def interrupted (L : Ledger ω) (g : Goal) : Option ℕ :=
  (L.unrecorded g.id).find? fun n => (L.claims[n]?).any fun c => c.dir = g.leaseRunDir

/-- What a step of `w` from `ph` to `ph'` adds to the ledger. -/
def observe (L : Ledger ω) (w : ω) (ph ph' : Phase) : Action → Ledger ω
  | .claim choice _ =>
    match ph' with
    | .working _ _ _ => L.claim w choice.id
    | _ => L
  | .attack => L.revise w fun c => { c with attacked := true }
  | .noteDir dir => L.revise w fun c => { c with dir := some dir }
  | .answer (.ok result) => L.revise w fun c => { c with result := some result }
  | .record =>
    match ph, ph' with
    | .working _ _ _, .working _ _ (.recorded _) => L.record (L.current w)
    | .recording g _, .clearing _ _ => L.record (L.interrupted g)
    | _, _ => L
  | _ => L

end Ledger

structure Audit (ω : Type) extends Net ω where
  ledger : Ledger ω := {}

def audit [DecidableEq ω] (party : ω → Party) (A : Audit ω) (l : ω × Action) : Option (Audit ω) :=
  (step party A.toNet l).map fun net =>
    { toNet := net, ledger := A.ledger.observe l.1 (A.phase l.1) (net.phase l.1) l.2 }

def opened (s : Store) : Audit ω := { toNet := start s }

/-- The row is the result of the solver on this claim, or an interruption that points to the
directory noted under it. -/
def Claim.Accounts (c : Claim ω) (a : Attempt) : Prop :=
  a.goalId = c.goal ∧
    ((∃ r, c.result = some r ∧ { a with id := 0 } = r.toAttempt c.goal) ∨
      (a.outcome = .interrupted ∧ a.runDir = c.dir))

/-- Row by row the attempts from `base` on are accounts of the claims in `order`. -/
def Ledger.Rows (L : Ledger ω) (order : List ℕ) (rows : List Attempt) : Prop :=
  List.Forall₂ (fun n a => ∃ c, L.claims[n]? = some c ∧ c.Accounts a) order rows

/-- Once no lease is held, the new attempt rows and the claims that reached the solver are in
one-to-one correspondence, each row the account of its claim. -/
def Accounted (base : ℕ) (A : Audit ω) : Prop :=
  (∀ i, A.store.held i = none) → ∃ order : List ℕ, order.Nodup ∧
    (∀ n, n ∈ order ↔ ∃ c, A.ledger.claims[n]? = some c ∧ c.attacked = true) ∧
    A.ledger.Rows order (A.store.attempts.drop base)

/-- Every attack ends up with the one that made it or with its lease: no attack raises; none
starts or is recorded once the lease is gone; and no lease that still stands for an attack
without a row is taken over, cleared, or recorded with another directory. -/
def orderly (party : ω → Party) (A : Audit ω) (l : ω × Action) : Bool :=
  match l.2, A.phase l.1 with
  | .claim choice now, .choosing _ _ _ =>
    !(A.store.claim choice.id (party l.1).owner (party l.1).leaseTtl now).2 ||
      (A.ledger.unrecorded choice.id).isEmpty
  | .attack, .working _ j _ => (A.store.held j.goal).map (·.owner) = some (party l.1).owner
  | .noteDir _, .working _ _ _ => (A.ledger.current l.1).all (· ∉ A.ledger.order)
  | .answer (.error _), .working _ _ _ => false
  | .record, .working _ _ _ => (A.ledger.current l.1).all (· ∉ A.ledger.order)
  | .record, .recording g _ => (A.ledger.interrupted g).isSome
  | .clear, .clearing g _ => (A.ledger.unrecorded g.id).isEmpty
  | _, _ => true

def Ledger.Unrecorded (L : Ledger ω) (n : ℕ) (c : Claim ω) : Prop :=
  L.claims[n]? = some c ∧ c.attacked = true ∧ n ∉ L.order

def Stage.early : Stage → Bool
  | .claimed | .ready => true
  | .asking first | .checking first _ | .writing first _ | .awaiting first _ | .ruled first _
  | .rescoping first _ => first
  | _ => false

def StageOk (L : Ledger ω) (n : ℕ) (c : Claim ω) : Stage → Prop
  | .attacking => c.attacked = true ∧ c.result = none
  | .returned result => c.attacked = true ∧ c.result = some result
  | stage => if stage.early then c.attacked = false ∧ c.result = none else c.attacked = true → n ∈ L.order

def PhaseOk (L : Ledger ω) (w : ω) : Phase → Prop
  | .working _ j stage => ∃ n c, L.current w = some n ∧ L.claims[n]? = some c ∧ c.worker = w ∧
      c.goal = j.goal ∧ StageOk L n c stage
  | .dead => True
  | _ => ∀ n c, L.Unrecorded n c → c.worker ≠ w

structure Ledger.Exact (L : Ledger ω) (base : ℕ) (attempts : List Attempt) : Prop where
  nodup : L.order.Nodup
  attacked : ∀ n ∈ L.order, ∃ c, L.claims[n]? = some c ∧ c.attacked = true
  rows : L.Rows L.order (attempts.drop base)
  old : base ≤ attempts.length

structure Inv (party : ω → Party) (base : ℕ) (s : Store) (phase : ω → Phase) (L : Ledger ω) : Prop where
  guarded : ∀ n c, L.Unrecorded n c → (s.held c.goal).map (·.owner) = some (party c.worker).owner
  current : ∀ n c, L.Unrecorded n c → L.current c.worker = some n
  exact : L.Exact base s.attempts
  phases : ∀ w, PhaseOk L w (phase w)

variable {party : ω → Party} {base : ℕ} {L L' : Ledger ω} {w v : ω} {n m : ℕ} {c d : Claim ω} {s s' : Store}
  {phase : ω → Phase} {ph ph' : Phase}

theorem Inv.accounted {A : Audit ω} (h : Inv party base A.store A.phase A.ledger) : Accounted base A := by
  intro hfree
  refine ⟨A.ledger.order, h.exact.nodup, fun n => ⟨h.exact.attacked n, fun hc => ?_⟩, h.exact.rows⟩
  obtain ⟨c, hc, hatt⟩ := hc
  by_contra hn
  have hheld := h.guarded n c ⟨hc, hatt, hn⟩
  rw [hfree] at hheld
  simp at hheld

theorem mem_unrecorded {i : GoalId} : n ∈ L.unrecorded i ↔ ∃ c, L.Unrecorded n c ∧ c.goal = i := by
  simp only [Ledger.unrecorded, List.mem_filter, List.mem_range, Bool.and_eq_true, decide_eq_true_eq,
    Option.any_eq_true]
  constructor
  · intro h
    obtain ⟨_, hn, c, hc, hg, hatt⟩ := h
    exact ⟨c, ⟨hc, hatt, hn⟩, hg⟩
  · intro h
    obtain ⟨c, ⟨hc, hatt, hn⟩, hg⟩ := h
    exact ⟨(List.getElem?_eq_some_iff.mp hc).1, hn, c, hc, hg, hatt⟩

theorem not_unrecorded {i : GoalId} (h : L.unrecorded i = []) (hu : L.Unrecorded n c) : c.goal ≠ i := by
  intro hg
  have hmem : n ∈ L.unrecorded i := mem_unrecorded.mpr ⟨c, hu, hg⟩
  rw [h] at hmem
  exact absurd hmem List.not_mem_nil

theorem StageOk.late {stage : Stage} (h : StageOk L n c stage) (ha : stage ≠ .attacking)
    (hr : ∀ r, stage ≠ .returned r) (hatt : c.attacked = true) : n ∈ L.order := by
  unfold StageOk at h
  split at h
  · exact absurd rfl ha
  · next r => exact absurd rfl (hr r)
  · split at h
    · rw [h.1] at hatt
      simp at hatt
    · exact h hatt

theorem stageOk_closing {again : Bool} (h : c.attacked = true → n ∈ L.order) :
    StageOk L n c (.closing again) := h

theorem stageOk_afterAttempt {me : Party} {l : Loop} {r : AttemptResult}
    (h : c.attacked = true → n ∈ L.order) : StageOk L n c (afterAttempt me l r).2 := by
  unfold afterAttempt
  split
  · split <;> exact h
  · split <;> exact h

theorem stageOk_afterDecomposition {first ok : Bool} (h : StageOk L n c (.rescoping first ok)) :
    StageOk L n c (afterDecomposition first ok) := by
  have hlate := h.late (by simp) (by simp)
  unfold afterDecomposition
  split
  · next hfirst =>
    rw [hfirst.1] at h
    exact h
  · exact stageOk_closing hlate

theorem PhaseOk.move {l l' : Loop} {j : Job} {stage stage' : Stage} (h : PhaseOk L w (.working l j stage))
    (hs : ∀ n c, StageOk L n c stage → StageOk L n c stage') : PhaseOk L w (.working l' j stage') := by
  obtain ⟨n, c, hcur, hc, hw, hg, hok⟩ := h
  exact ⟨n, c, hcur, hc, hw, hg, hs n c hok⟩

theorem phaseOk_next {gs : List Goal} (h : ∀ n c, L.Unrecorded n c → c.worker ≠ w) :
    PhaseOk L w (Phase.nextStale gs) := by
  cases gs <;> exact h

/-- The steps that touch neither a lease nor an attempt, and that the ledger does not see. -/
def Action.plain : Action → Bool
  | .claim _ _ | .attack | .noteDir _ | .answer _ | .record | .clear | .release => false
  | _ => true

theorem act_plain {me : Party} {a : Action}
    (h : act me s ph a = some (s', ph')) (ha : a.plain = true) (hph : PhaseOk L w ph) :
    Store.SameLeases s s' ∧ PhaseOk L w ph' := by
  cases a with
  | claim _ _ => simp [Action.plain] at ha
  | attack => simp [Action.plain] at ha
  | noteDir _ => simp [Action.plain] at ha
  | answer _ => simp [Action.plain] at ha
  | record => simp [Action.plain] at ha
  | clear => simp [Action.plain] at ha
  | release => simp [Action.plain] at ha
  | propagate =>
    simp only [act] at h
    split at h
    all_goals simp only [Option.some.injEq, Prod.mk.injEq, reduceCtorEq] at h
    all_goals obtain ⟨rfl, rfl⟩ := h
    all_goals refine ⟨Store.sameLeases_propagated _ _ _ _, ?_⟩
    · exact hph
    · exact phaseOk_next hph
    · exact hph.move fun _ _ hs => hs
    · exact hph.move fun _ _ hs => stageOk_afterAttempt (hs.late (by simp) (by simp))
  | write =>
    simp only [act] at h
    split at h
    · split at h
      all_goals simp only [Option.some.injEq, Prod.mk.injEq] at h
      all_goals obtain ⟨rfl, rfl⟩ := h
      · next hw => exact ⟨Store.sameLeases_writeDecomposition hw, hph.move fun _ _ hs => hs⟩
      · exact ⟨.refl s, hph.move fun _ _ hs => stageOk_closing (hs.late (by simp) (by simp))⟩
    · simp at h
  | rescope =>
    simp only [act] at h
    split at h
    · simp only [Option.some.injEq, Prod.mk.injEq] at h
      obtain ⟨rfl, rfl⟩ := h
      exact ⟨.refl s, hph.move fun _ _ => stageOk_afterDecomposition⟩
    · simp at h
  | checkAcyclic =>
    simp only [act] at h
    split at h
    · split at h
      all_goals simp only [Option.some.injEq, Prod.mk.injEq] at h
      all_goals obtain ⟨rfl, rfl⟩ := h
      · exact ⟨.refl s, hph.move fun _ _ hs => hs⟩
      · exact ⟨.refl s, hph.move fun _ _ hs => hs⟩
      · exact ⟨.refl s, hph.move fun _ _ hs => stageOk_closing (hs.late (by simp) (by simp))⟩
    · simp at h
  | _ =>
    simp only [act] at h
    repeat' split at h
    all_goals simp only [Option.some.injEq, Prod.mk.injEq, reduceCtorEq] at h
    all_goals obtain ⟨rfl, rfl⟩ := h
    all_goals refine ⟨?_, ?_⟩
    all_goals first
      | exact .refl s
      | exact Store.sameLeases_setDecompositionStatus _ _ _ _
      | exact hph
      | exact phaseOk_next hph
      | exact hph.move fun _ _ hs => hs
      | trivial

theorem rows_mono {order : List ℕ} {rows : List Attempt} (h : L.Rows order rows)
    (hc : ∀ n ∈ order, ∀ c a, L.claims[n]? = some c → c.Accounts a →
      ∃ d, L'.claims[n]? = some d ∧ d.Accounts a) : L'.Rows order rows := by
  unfold Ledger.Rows at h ⊢
  induction h with
  | nil => exact .nil
  | @cons n a order rows hna hrest ih =>
    obtain ⟨c, hcn, hacc⟩ := hna
    refine .cons (hc n (List.mem_cons_self ..) c a hcn hacc) (ih fun m hm => ?_)
    exact hc m (List.mem_cons_of_mem n hm)

theorem claims_revise {f : Claim ω → Claim ω} (hcur : L.current w = some n) :
    (L.revise w f).claims[m]? = if n = m then (L.claims[m]?).map f else L.claims[m]? := by
  unfold Ledger.revise
  simp only [hcur, List.getElem?_modify]
  split <;> simp

theorem order_revise {f : Claim ω → Claim ω} : (L.revise w f).order = L.order := by
  unfold Ledger.revise
  split <;> rfl

theorem current_revise {f : Claim ω → Claim ω} : (L.revise w f).current = L.current := by
  unfold Ledger.revise
  split <;> rfl

/-- What is left of the claim of `w` after it is revised, and of the others. -/
theorem unrecorded_revise {f : Claim ω → Claim ω} (hcur : L.current w = some n) (hc : L.claims[n]? = some c)
    (hu : (L.revise w f).Unrecorded m d) :
    (m = n ∧ d = f c ∧ d.attacked = true ∧ n ∉ L.order) ∨ (m ≠ n ∧ L.Unrecorded m d) := by
  obtain ⟨hd, hatt, hm⟩ := hu
  rw [claims_revise hcur] at hd
  rw [order_revise] at hm
  by_cases hnm : n = m
  · subst hnm
    rw [if_pos rfl, hc, Option.map_some] at hd
    exact Or.inl ⟨rfl, (Option.some.inj hd).symm, hatt, hm⟩
  · rw [if_neg hnm] at hd
    exact Or.inr ⟨Ne.symm hnm, hd, hatt, hm⟩

theorem unrecorded_record {k : Option ℕ} (h : (L.record k).Unrecorded n c) : L.Unrecorded n c := by
  obtain ⟨hc, hatt, hn⟩ := h
  refine ⟨hc, hatt, fun hmem => hn ?_⟩
  exact List.mem_append_left _ hmem

theorem StageOk.record {k : Option ℕ} {stage : Stage} (h : StageOk L n c stage) :
    StageOk (L.record k) n c stage := by
  unfold StageOk at h ⊢
  split
  · exact h
  · exact h
  · next ha hr =>
    simp only at h
    split
    · next he =>
      rw [if_pos he] at h
      exact h
    · next he =>
      rw [if_neg he] at h
      exact fun hatt => List.mem_append_left _ (h hatt)

theorem PhaseOk.record {k : Option ℕ} (h : PhaseOk L v ph) : PhaseOk (L.record k) v ph := by
  cases ph with
  | working l j stage =>
    obtain ⟨n, c, hcur, hc, hw, hg, hst⟩ := h
    exact ⟨n, c, hcur, hc, hw, hg, hst.record⟩
  | dead => trivial
  | _ => exact fun n c hu => h n c (unrecorded_record hu)

theorem Ledger.Exact.record {attempts : List Attempt} {a : Attempt} (h : L.Exact base attempts) (hn : n ∉ L.order)
    (hc : L.claims[n]? = some c) (hatt : c.attacked = true) (hacc : c.Accounts a) :
    (L.record (some n)).Exact base (attempts ++ [a]) where
  nodup := by
    refine List.Nodup.append h.nodup (List.nodup_singleton n) fun m hm hmn => hn ?_
    rw [← List.mem_singleton.mp hmn]
    exact hm
  attacked m hm := by
    cases List.mem_append.mp hm with
    | inl hm => exact h.attacked m hm
    | inr hm =>
      rw [List.mem_singleton.mp hm]
      exact ⟨c, hc, hatt⟩
  rows := by
    rw [List.drop_append_of_le_length h.old]
    exact List.rel_append h.rows (.cons ⟨c, hc, hacc⟩ .nil)
  old := by
    rw [List.length_append]
    exact Nat.le_add_right_of_le h.old

theorem Inv.settled (h : Inv party base s phase L) {l : Loop} {j : Job} {again : Bool}
    (hph : phase w = .working l j (.closing again)) (hu : L.Unrecorded m d) : d.worker ≠ w := by
  intro hw
  have hok := h.phases w
  rw [hph] at hok
  obtain ⟨n, c, hcur, hc, _, _, hst⟩ := hok
  have hm := h.current m d hu
  rw [hw, hcur] at hm
  obtain rfl := Option.some.inj hm
  obtain rfl := Option.some.inj (hc.symm.trans hu.1)
  exact hu.2.2 (hst hu.2.1)

theorem held_lt {i : GoalId} (h : (s.held i).map (·.owner) ≠ none) : i < s.goals.length := by
  cases hg : s.goal i with
  | none => simp [Store.held, hg] at h
  | some g => exact Store.goal_lt hg

theorem release_attempts {i : GoalId} {o : Text} : (s.release i o).attempts = s.attempts := by
  unfold Store.release
  split
  · rfl
  · split <;> rfl

theorem interrupted_spec {g : Goal} (h : L.interrupted g = some n) :
    ∃ c, L.Unrecorded n c ∧ c.goal = g.id ∧ c.dir = g.leaseRunDir := by
  obtain ⟨c, hu, hg⟩ := mem_unrecorded.mp (List.mem_of_find?_eq_some h)
  have hdir := List.find?_some h
  rw [hu.1] at hdir
  exact ⟨c, hu, hg, by simpa using hdir⟩

section
variable [DecidableEq ω]

theorem phases_update (h : ∀ v, PhaseOk L v (phase v)) (hself : PhaseOk L' w ph')
    (hother : ∀ v, v ≠ w → PhaseOk L v (phase v) → PhaseOk L' v (phase v)) (v : ω) :
    PhaseOk L' v (Function.update phase w ph' v) := by
  by_cases hv : v = w
  · subst hv
    rw [Function.update_self]
    exact hself
  · rw [Function.update_of_ne hv]
    exact hother v hv (h v)

theorem Inv.move (h : Inv party base s phase L) (hl : Store.SameLeases s s') (hph : PhaseOk L w ph') :
    Inv party base s' (Function.update phase w ph') L where
  guarded n c hu := by
    rw [hl.held]
    exact h.guarded n c hu
  current := h.current
  exact := hl.attempts ▸ h.exact
  phases := phases_update h.phases hph fun _ _ hv => hv

theorem claims_claim {i : GoalId} (hc : L.claims[n]? = some c) : (L.claim w i).claims[n]? = some c := by
  unfold Ledger.claim
  exact List.getElem?_append_left (List.getElem?_eq_some_iff.mp hc).1 ▸ hc

theorem claims_claim_new {i : GoalId} :
    (L.claim w i).claims[L.claims.length]? = some { worker := w, goal := i } :=
  List.getElem?_concat_length

theorem unrecorded_claim {i : GoalId} (h : (L.claim w i).Unrecorded n c) : L.Unrecorded n c := by
  obtain ⟨hc, hatt, hn⟩ := h
  by_cases hlt : n < L.claims.length
  · refine ⟨?_, hatt, hn⟩
    rw [← hc]
    exact (List.getElem?_append_left hlt).symm
  · have hle : n < L.claims.length + 1 := by
      have := (List.getElem?_eq_some_iff.mp hc).1
      simpa [Ledger.claim] using this
    obtain rfl : n = L.claims.length := by omega
    rw [claims_claim_new] at hc
    rw [← Option.some.inj hc] at hatt
    simp at hatt

theorem Inv.claim (h : Inv party base s phase L) {l : Loop} {i : GoalId} {o : Text} {e : Option ℚ} {r : Option Text}
    {readAt : Store} (hi : i < s.goals.length) (hfree : L.unrecorded i = [])
    (hidle : ∀ n c, L.Unrecorded n c → c.worker ≠ w) :
    Inv party base (s.setLease i (some o) e r)
      (Function.update phase w (.working l ⟨i, readAt, s⟩ .claimed)) (L.claim w i) where
  guarded n c hu := by
    have hold := unrecorded_claim hu
    have hne : i ≠ c.goal := fun hi => not_unrecorded hfree hold hi.symm
    rw [Store.held_setLease hi, if_neg hne]
    exact h.guarded n c hold
  current n c hu := by
    have hold := unrecorded_claim hu
    have hother : (L.claim w i).current c.worker = L.current c.worker :=
      Function.update_of_ne (hidle n c hold) _ _
    rw [hother]
    exact h.current n c hold
  exact := by
    refine ⟨h.exact.nodup, fun n hn => ?_, ?_, h.exact.old⟩
    · obtain ⟨c, hc, hatt⟩ := h.exact.attacked n hn
      exact ⟨c, claims_claim hc, hatt⟩
    · exact rows_mono h.exact.rows fun n _ c a hc hacc => ⟨c, claims_claim hc, hacc⟩
  phases := by
    refine phases_update h.phases ?_ fun v hv hok => ?_
    · refine ⟨L.claims.length, _, ?_, claims_claim_new, rfl, rfl, rfl, rfl⟩
      simp [Ledger.claim]
    · cases hphase : phase v with
      | working l' j stage =>
        rw [hphase] at hok
        obtain ⟨n, c, hcur, hc, hw, hg, hst⟩ := hok
        refine ⟨n, c, ?_, claims_claim hc, hw, hg, hst⟩
        simpa [Ledger.claim, Function.update_of_ne hv] using hcur
      | dead => trivial
      | _ =>
        rw [hphase] at hok
        exact fun n c hu => hok n c (unrecorded_claim hu)

/-- A worker's own claim is revised: it is attacked, notes its directory, or has its answer. -/
theorem Inv.revise (h : Inv party base s phase L) {f : Claim ω → Claim ω} {l : Loop} {j : Job} {stage : Stage}
    (hcur : L.current w = some n) (hc : L.claims[n]? = some c) (hw : c.worker = w) (hj : c.goal = j.goal)
    (hfw : (f c).worker = c.worker) (hfg : (f c).goal = c.goal)
    (howner : ∀ i, (s'.held i).map (·.owner) = (s.held i).map (·.owner)) (hattempts : s'.attempts = s.attempts)
    (hguard : (f c).attacked = true → n ∉ L.order → (s.held c.goal).map (·.owner) = some (party w).owner)
    (hatt : c.attacked = true → (f c).attacked = true)
    (hacc : n ∈ L.order → ∀ a, c.Accounts a → (f c).Accounts a) (hstage : StageOk L n (f c) stage) :
    Inv party base s' (Function.update phase w (.working l j stage)) (L.revise w f) where
  guarded m d hu := by
    rw [howner]
    cases unrecorded_revise hcur hc hu with
    | inl hself =>
      obtain ⟨rfl, rfl, hatt, hn⟩ := hself
      rw [hfg, hfw, hw]
      exact hguard hatt hn
    | inr hold => exact h.guarded m d hold.2
  current m d hu := by
    rw [current_revise]
    cases unrecorded_revise hcur hc hu with
    | inl hself =>
      obtain ⟨rfl, rfl, _⟩ := hself
      rw [hfw, hw]
      exact hcur
    | inr hold => exact h.current m d hold.2
  exact := by
    rw [hattempts]
    refine ⟨?_, fun m hm => ?_, ?_, h.exact.old⟩
    · rw [order_revise]
      exact h.exact.nodup
    · rw [order_revise] at hm
      obtain ⟨d, hd, hda⟩ := h.exact.attacked m hm
      rw [claims_revise hcur]
      by_cases hnm : n = m
      · subst hnm
        obtain rfl := Option.some.inj (hc.symm.trans hd)
        exact ⟨f c, by simp [hc], hatt hda⟩
      · exact ⟨d, by rw [if_neg hnm]; exact hd, hda⟩
    · rw [order_revise]
      refine rows_mono h.exact.rows fun m hm d a hd hda => ?_
      rw [claims_revise hcur]
      by_cases hnm : n = m
      · subst hnm
        obtain rfl := Option.some.inj (hc.symm.trans hd)
        exact ⟨f c, by simp [hc], hacc hm a hda⟩
      · exact ⟨d, by rw [if_neg hnm]; exact hd, hda⟩
  phases := by
    refine phases_update h.phases ?_ fun v hv hok => ?_
    · refine ⟨n, f c, ?_, by rw [claims_revise hcur]; simp [hc], hfw.trans hw, hfg.trans hj, ?_⟩
      · rw [current_revise]
        exact hcur
      unfold StageOk at hstage ⊢
      rw [order_revise]
      exact hstage
    · cases hphase : phase v with
      | working l' j' stage' =>
        rw [hphase] at hok
        obtain ⟨m, d, hcur', hd, hdw, hdg, hst⟩ := hok
        have hnm : n ≠ m := by
          intro hnm
          subst hnm
          obtain rfl := Option.some.inj (hc.symm.trans hd)
          exact hv (hdw.symm.trans hw)
        refine ⟨m, d, ?_, by rw [claims_revise hcur, if_neg hnm]; exact hd, hdw, hdg, ?_⟩
        · rw [current_revise]
          exact hcur'
        unfold StageOk at hst ⊢
        rw [order_revise]
        exact hst
      | dead => trivial
      | _ =>
        rw [hphase] at hok
        intro m d hu
        cases unrecorded_revise hcur hc hu with
        | inl hself =>
          obtain ⟨_, rfl, _⟩ := hself
          exact fun hdv => hv (hdv.symm.trans (hfw.trans hw))
        | inr hold => exact hok m d hold.2

theorem Inv.record (h : Inv party base s phase L) {a : Attempt} (hs : s.recordAttempt a = .ok s') (hn : n ∉ L.order)
    (hc : L.claims[n]? = some c) (hatt : c.attacked = true) (hacc : c.Accounts { a with id := s.attempts.length })
    (hph : PhaseOk (L.record (some n)) w ph') :
    Inv party base s' (Function.update phase w ph') (L.record (some n)) where
  guarded m d hu := by
    rw [Store.held_recordAttempt hs]
    exact h.guarded m d (unrecorded_record hu)
  current m d hu := h.current m d (unrecorded_record hu)
  exact := by
    obtain ⟨_, _, hattempts, _⟩ := Store.recordAttempt_spec hs
    rw [hattempts]
    exact h.exact.record hn hc hatt hacc
  phases := phases_update h.phases hph fun _ _ hv => hv.record

theorem Inv.cleared (h : Inv party base s phase L) {i : GoalId}
    (hheld : ∀ j, j ≠ i → s'.held j = s.held j) (hattempts : s'.attempts = s.attempts)
    (hfree : ∀ n c, L.Unrecorded n c → c.goal ≠ i) (hph : PhaseOk L w ph') :
    Inv party base s' (Function.update phase w ph') L where
  guarded n c hu := by
    rw [hheld _ (hfree n c hu)]
    exact h.guarded n c hu
  current := h.current
  exact := by
    rw [hattempts]
    exact h.exact
  phases := phases_update h.phases hph fun _ _ hv => hv

theorem observe_plain {a : Action} (ha : a.plain = true) : L.observe w ph ph' a = L := by
  cases a <;> first
    | rfl
    | simp [Action.plain] at ha

theorem audit_cases {A t : Audit ω} {a : Action} (h : audit party A (w, a) = some t) :
    ∃ s' ph', act (party w) A.store (A.phase w) a = some (s', ph') ∧ t.store = s' ∧
      t.phase = Function.update A.phase w ph' ∧ t.ledger = A.ledger.observe w (A.phase w) ph' a := by
  obtain ⟨net, hnet, ht⟩ := Option.map_eq_some_iff.mp h
  obtain ⟨s', ph', hact, hstore, hphase, _⟩ := step_cases hnet
  refine ⟨s', ph', hact, ht ▸ hstore, ht ▸ hphase, ?_⟩
  rw [← ht, hphase, Function.update_self]

inductive Marks (me : Party) (s : Store) : Phase → Action → Store → Phase → Prop
  | claimed {l : Loop} {seen s' : Store} {candidates : List Goal} {choice : Goal} {now : ℚ}
      (h : s.claim choice.id me.owner me.leaseTtl now = (s', true)) :
      Marks me s (.choosing l seen candidates) (.claim choice now) s'
        (.working { l with iterations := l.iterations + 1 } ⟨choice.id, seen, s⟩ .claimed)
  | refused {l : Loop} {seen s' : Store} {candidates : List Goal} {choice : Goal} {now : ℚ}
      (h : s.claim choice.id me.owner me.leaseTtl now = (s', false)) :
      Marks me s (.choosing l seen candidates) (.claim choice now) s'
        (.choosing l seen (candidates.filter (·.id ≠ choice.id)))
  | attacked {l : Loop} {j : Job} :
      Marks me s (.working l j .ready) .attack s (.working l j .attacking)
  | noted {l : Loop} {j : Job} {dir : Text} :
      Marks me s (.working l j .attacking) (.noteDir dir) (s.noteAttemptDir j.goal dir)
        (.working l j .attacking)
  | answered {l : Loop} {j : Job} {r : AttemptResult} :
      Marks me s (.working l j .attacking) (.answer (.ok r)) s (.working l j (.returned r))
  | raised {l : Loop} {j : Job} {e : Text} :
      Marks me s (.working l j .attacking) (.answer (.error e)) s (.working l j (.closing false))
  | interrupted {g : Goal} {rest : List Goal} {s' : Store}
      (h : s.recordAttempt ((AttemptResult.interrupted g.leaseRunDir (interruptedNote g)).toAttempt g.id) =
        .ok s') : Marks me s (.recording g rest) .record s' (.clearing g rest)
  | gone {g : Goal} {rest : List Goal} : Marks me s (.recording g rest) .record s .idle
  | recorded {l : Loop} {j : Job} {r : AttemptResult} {s' : Store}
      (h : s.recordAttempt (r.toAttempt j.goal) = .ok s') :
      Marks me s (.working l j (.returned r)) .record s' (.working l j (.recorded r))
  | missing {l : Loop} {j : Job} {r : AttemptResult} {e : Fault}
      (h : s.recordAttempt (r.toAttempt j.goal) = .error e) :
      Marks me s (.working l j (.returned r)) .record s (.working l j (.closing false))
  | cleared {g : Goal} {rest : List Goal} :
      Marks me s (.clearing g rest) .clear (s.forceRelease g.id) (.propagating g rest)
  | released {l : Loop} {j : Job} {again : Bool} :
      Marks me s (.working l j (.closing again)) .release (s.release j.goal me.owner)
        (if again = true then .between l else .idle)

theorem act_marks {me : Party} {a : Action} (h : act me s ph a = some (s', ph')) (ha : a.plain = false) :
    Marks me s ph a s' ph' := by
  cases a with
  | claim choice now =>
    simp only [act] at h
    split at h
    · split at h
      · split at h
        all_goals next hclaim =>
          simp only [Option.some.injEq, Prod.mk.injEq] at h
          obtain ⟨rfl, rfl⟩ := h
          first
            | exact .claimed hclaim
            | exact .refused hclaim
      · simp at h
    · simp at h
  | record =>
    simp only [act] at h
    split at h
    · split at h
      all_goals next hrec =>
        simp only [Option.some.injEq, Prod.mk.injEq] at h
        obtain ⟨rfl, rfl⟩ := h
        first
          | exact .interrupted hrec
          | exact .gone
    · split at h
      all_goals next hrec =>
        simp only [Option.some.injEq, Prod.mk.injEq] at h
        obtain ⟨rfl, rfl⟩ := h
        first
          | exact .recorded hrec
          | exact .missing hrec
    · simp at h
  | answer result =>
    simp only [act] at h
    split at h
    · cases result with
      | ok r =>
        simp only [Option.some.injEq, Prod.mk.injEq] at h
        obtain ⟨rfl, rfl⟩ := h
        exact .answered
      | error e =>
        simp only [Option.some.injEq, Prod.mk.injEq] at h
        obtain ⟨rfl, rfl⟩ := h
        exact .raised
    · simp at h
  | attack =>
    simp only [act] at h
    split at h
    · simp only [Option.some.injEq, Prod.mk.injEq] at h
      obtain ⟨rfl, rfl⟩ := h
      exact .attacked
    · simp at h
  | noteDir dir =>
    simp only [act] at h
    split at h
    · simp only [Option.some.injEq, Prod.mk.injEq] at h
      obtain ⟨rfl, rfl⟩ := h
      exact .noted
    · simp at h
  | clear =>
    simp only [act] at h
    split at h
    · simp only [Option.some.injEq, Prod.mk.injEq] at h
      obtain ⟨rfl, rfl⟩ := h
      exact .cleared
    · simp at h
  | release =>
    simp only [act] at h
    split at h
    · simp only [Option.some.injEq, Prod.mk.injEq] at h
      obtain ⟨rfl, rfl⟩ := h
      exact .released
    · simp at h
  | _ => simp [Action.plain] at ha

section
variable {A : Audit ω} {l : Loop} {j : Job} {g : Goal} {rest : List Goal} {r : AttemptResult}

theorem inv_claimed {seen : Store} {candidates : List Goal} {choice : Goal} {now : ℚ} {got : Bool}
    (h : Inv party base A.store A.phase A.ledger) (hok : orderly party A (w, .claim choice now) = true)
    (hph : A.phase w = .choosing l seen candidates)
    (hclaim : A.store.claim choice.id (party w).owner (party w).leaseTtl now = (s', got)) :
    Inv party base s'
      (Function.update A.phase w (if got = true then
        .working { l with iterations := l.iterations + 1 } ⟨choice.id, seen, A.store⟩ .claimed
        else .choosing l seen (candidates.filter (·.id ≠ choice.id))))
      (if got = true then A.ledger.claim w choice.id else A.ledger) := by
  have hw := h.phases w
  simp only [orderly, hph, Bool.or_eq_true, Bool.not_eq_true', List.isEmpty_iff] at hok
  rw [hph] at hw
  cases A.store.claim_cases choice.id (party w).owner (party w).leaseTtl now with
  | inl hc =>
    obtain ⟨hlt, _, hc⟩ := hc
    rw [hc] at hok
    obtain ⟨rfl, rfl⟩ := Prod.mk.inj (hc.symm.trans hclaim)
    exact h.claim hlt (hok.resolve_left (by simp)) hw
  | inr hc =>
    obtain ⟨rfl, rfl⟩ := Prod.mk.inj (hc.symm.trans hclaim)
    exact h.move (.refl _) hw

theorem inv_attacked (h : Inv party base A.store A.phase A.ledger) (hok : orderly party A (w, .attack) = true)
    (hph : A.phase w = .working l j .ready) :
    Inv party base A.store (Function.update A.phase w (.working l j .attacking))
      (A.ledger.revise w fun c => { c with attacked := true }) := by
  have hw := h.phases w
  simp only [orderly, hph, decide_eq_true_eq] at hok
  rw [hph] at hw
  obtain ⟨n, c, hcur, hc, hcw, hcj, hst⟩ := hw
  exact h.revise hcur hc hcw hcj rfl rfl (fun _ => rfl) rfl (fun _ _ => hcj ▸ hok) (fun _ => rfl)
    (fun _ _ hacc => hacc) ⟨rfl, hst.2⟩

theorem inv_noted {dir : Text} (h : Inv party base A.store A.phase A.ledger)
    (hok : orderly party A (w, .noteDir dir) = true) (hph : A.phase w = .working l j .attacking) :
    Inv party base (A.store.noteAttemptDir j.goal dir) (Function.update A.phase w (.working l j .attacking))
      (A.ledger.revise w fun c => { c with dir := some dir }) := by
  have hw := h.phases w
  rw [hph] at hw
  obtain ⟨n, c, hcur, hc, hcw, hcj, hst⟩ := hw
  simp only [orderly, hph, hcur, Option.all_some, decide_eq_true_eq] at hok
  refine h.revise hcur hc hcw hcj rfl rfl (fun i => ?_) rfl (fun hatt hn => ?_) id
    (fun hn => absurd hn hok) hst
  · rw [Store.held_noteAttemptDir]
    split
    · cases A.store.held i <;> rfl
    · rfl
  · exact hcw ▸ h.guarded n c ⟨hc, hatt, hn⟩

theorem inv_answered (h : Inv party base A.store A.phase A.ledger) (hph : A.phase w = .working l j .attacking) :
    Inv party base A.store (Function.update A.phase w (.working l j (.returned r)))
      (A.ledger.revise w fun c => { c with result := some r }) := by
  have hw := h.phases w
  rw [hph] at hw
  obtain ⟨n, c, hcur, hc, hcw, hcj, hatt, hnone⟩ := hw
  refine h.revise hcur hc hcw hcj rfl rfl (fun _ => rfl) rfl (fun _ hn => ?_) id (fun _ a hacc => ?_)
    ⟨hatt, rfl⟩
  · exact hcw ▸ h.guarded n c ⟨hc, hatt, hn⟩
  · -- a row written before the answer is an interruption
    refine ⟨hacc.1, hacc.2.imp (fun hr => ?_) id⟩
    obtain ⟨r', hr', _⟩ := hr
    rw [hnone] at hr'
    simp at hr'

theorem inv_interrupted (h : Inv party base A.store A.phase A.ledger) (hok : orderly party A (w, .record) = true)
    (hph : A.phase w = .recording g rest)
    (hrec : A.store.recordAttempt
      ((AttemptResult.interrupted g.leaseRunDir (interruptedNote g)).toAttempt g.id) = .ok s') :
    Inv party base s' (Function.update A.phase w (.clearing g rest))
      (A.ledger.record (A.ledger.interrupted g)) := by
  have hw := h.phases w
  simp only [orderly, hph] at hok
  rw [hph] at hw
  obtain ⟨n, hn⟩ := Option.isSome_iff_exists.mp hok
  obtain ⟨c, hu, hcg, hdir⟩ := interrupted_spec hn
  rw [hn]
  refine h.record hrec hu.2.2 hu.1 hu.2.1 ⟨hcg.symm, Or.inr ⟨rfl, hdir.symm⟩⟩ ?_
  exact fun m d hmd => hw m d (unrecorded_record hmd)

theorem inv_recorded (h : Inv party base A.store A.phase A.ledger) (hok : orderly party A (w, .record) = true)
    (hph : A.phase w = .working l j (.returned r)) :
    ∃ s', A.store.recordAttempt (r.toAttempt j.goal) = .ok s' ∧
      Inv party base s' (Function.update A.phase w (.working l j (.recorded r)))
        (A.ledger.record (A.ledger.current w)) := by
  have hw := h.phases w
  rw [hph] at hw
  obtain ⟨n, c, hcur, hc, hcw, hcj, hatt, hres⟩ := hw
  have hn : n ∉ A.ledger.order := by
    simpa only [orderly, hph, hcur, Option.all_some, decide_eq_true_eq] using hok
  have hguard := h.guarded n c ⟨hc, hatt, hn⟩
  have hlt : c.goal < A.store.goals.length := held_lt (by rw [hguard]; simp)
  obtain ⟨s', hrec⟩ := Store.recordAttempt_ok (s := A.store) (a := r.toAttempt j.goal) (hcj ▸ hlt)
  refine ⟨s', hrec, ?_⟩
  rw [hcur]
  refine h.record hrec hn hc hatt ⟨hcj.symm, Or.inl ⟨r, hres, hcj ▸ rfl⟩⟩ ?_
  exact ⟨n, c, hcur, hc, hcw, hcj, fun _ => List.mem_append_right _ (List.mem_singleton.mpr rfl)⟩

theorem inv_cleared (h : Inv party base A.store A.phase A.ledger) (hok : orderly party A (w, .clear) = true)
    (hph : A.phase w = .clearing g rest) :
    Inv party base (A.store.forceRelease g.id) (Function.update A.phase w (.propagating g rest)) A.ledger := by
  have hw := h.phases w
  simp only [orderly, hph, List.isEmpty_iff] at hok
  rw [hph] at hw
  refine h.cleared (i := g.id) (fun k hk => ?_) rfl (fun n c hu => not_unrecorded hok hu) hw
  rw [Store.held_forceRelease, if_neg (Ne.symm hk)]

theorem inv_released {again : Bool} (hinj : Function.Injective fun w => (party w).owner)
    (h : Inv party base A.store A.phase A.ledger) (hph : A.phase w = .working l j (.closing again)) :
    Inv party base (A.store.release j.goal (party w).owner)
      (Function.update A.phase w (if again = true then .between l else .idle)) A.ledger := by
  have hmine : ∀ m d, A.ledger.Unrecorded m d → d.worker ≠ w := fun m d hu => h.settled hph hu
  have hfree : PhaseOk A.ledger w (if again = true then .between l else .idle) := by
    split <;> exact hmine
  by_cases howner : (A.store.held j.goal).map (·.owner) = some (party w).owner
  · refine h.cleared (i := j.goal) (fun k hk => ?_) release_attempts (fun m d hu hg => ?_) hfree
    · rw [Store.held_release, if_neg (Ne.symm hk)]
    · have hguard := h.guarded m d hu
      rw [hg, howner] at hguard
      exact hmine m d hu (hinj (Option.some.inj hguard)).symm
  · refine h.move ⟨fun k => ?_, release_attempts⟩ hfree
    rw [Store.held_release]
    split
    · next hk =>
      subst hk
      cases hheld : A.store.held j.goal with
      | none => rfl
      | some le =>
        have hne : le.owner ≠ (party w).owner := by
          intro heq
          rw [hheld] at howner
          exact howner (by simp [heq])
        simp [Option.filter_some, hne]
    · rfl

theorem inv_marks {ph ph' : Phase} {a : Action} (hinj : Function.Injective fun w => (party w).owner)
    (h : Inv party base A.store A.phase A.ledger) (hok : orderly party A (w, a) = true) (hph : A.phase w = ph)
    (hm : Marks (party w) A.store ph a s' ph') :
    Inv party base s' (Function.update A.phase w ph') (A.ledger.observe w ph ph' a) := by
  cases hm with
  | claimed hclaim => exact inv_claimed h hok hph hclaim
  | refused hclaim => exact inv_claimed h hok hph hclaim
  | attacked => exact inv_attacked h hok hph
  | noted => exact inv_noted h hok hph
  | answered => exact inv_answered h hph
  | raised => simp [orderly, hph] at hok
  | interrupted hrec => exact inv_interrupted h hok hph hrec
  | gone =>
    have hw := h.phases w
    rw [hph] at hw
    exact h.move (.refl _) hw
  | recorded hrec =>
    obtain ⟨s'', hrec', hinv⟩ := inv_recorded h hok hph
    rw [hrec'] at hrec
    exact Except.ok.inj hrec ▸ hinv
  | missing hrec =>
    obtain ⟨s'', hrec', _⟩ := inv_recorded h hok hph
    rw [hrec'] at hrec
    simp at hrec
  | cleared => exact inv_cleared h hok hph
  | released => exact inv_released hinj h hph

theorem inv_step (hinj : Function.Injective fun w => (party w).owner) (A : Audit ω) (l : ω × Action) (t : Audit ω)
    (h : Inv party base A.store A.phase A.ledger) (hok : orderly party A l = true) (ht : audit party A l = some t) :
    Inv party base t.store t.phase t.ledger := by
  obtain ⟨w, a⟩ := l
  obtain ⟨s', ph', hact, hstore, hphase, hledger⟩ := audit_cases ht
  rw [hstore, hphase, hledger]
  by_cases ha : a.plain = true
  · obtain ⟨hsame, hok'⟩ := act_plain hact ha (h.phases w)
    rw [observe_plain ha]
    exact h.move hsame hok'
  · exact inv_marks hinj h hok rfl (act_marks hact (Bool.eq_false_of_not_eq_true ha))

end

/-- Every orderly run accounts for its attacks: no attempt is lost and none is invented. -/
theorem accounted_of_orderly (party : ω → Party) (hinj : Function.Injective fun w => (party w).owner)
    (s : Store) (ls : List (ω × Action)) (h : Meets (audit party) (fun A l => orderly party A l) (opened s) ls) :
    Everywhere (audit party) (Accounted s.attempts.length) (opened s) ls := by
  have hstart : Inv party s.attempts.length (opened s : Audit ω).store (opened s : Audit ω).phase
      (opened s : Audit ω).ledger := by
    refine ⟨fun n c hu => ?_, fun n c hu => ?_, ⟨List.nodup_nil, fun n hn => ?_, ?_, le_refl _⟩, fun w n c hu => ?_⟩
    · simp [Ledger.Unrecorded, opened] at hu
    · simp [Ledger.Unrecorded, opened] at hu
    · simp [opened] at hn
    · simp [Ledger.Rows, opened, start]
    · simp [Ledger.Unrecorded, opened] at hu
  exact (everywhere_of_meets (I := fun A => Inv party s.attempts.length A.store A.phase A.ledger)
    (inv_step hinj) hstart h).mono fun A hA => hA.accounted

end

/-- The first dies in the middle of its attack; the second finds the lease run out, records the
interruption, and then proves the goal. -/
def resumed : List (Fin 2 × Action) :=
  [(workerA, .recover), (workerA, .scan 0), (workerA, .enter 0 1 9), (workerA, .check), (workerA, .read), (workerA, .claim theGoal 0), (workerA, .decide),
    (workerA, .attack), (workerA, .noteDir "runs/0".toList), (workerA, .die),
    (workerB, .recover), (workerB, .scan 700), (workerB, .record), (workerB, .clear), (workerB, .propagate), (workerB, .enter 0 1 9), (workerB, .check),
    (workerB, .read), (workerB, .claim theGoal 700), (workerB, .decide), (workerB, .attack), (workerB, .answer (.ok trivialProof)), (workerB, .record),
    (workerB, .propagate), (workerB, .release)]

theorem accounted_of_orderly_resumed :
    Everywhere (audit twoParties) (Accounted 0) (opened oneGoal) resumed :=
  accounted_of_orderly twoParties (by decide) oneGoal resumed (meets_of_check (by decide +kernel))

/-- The second is past its recovery when the lease of the first runs out, and claims the goal. -/
def takenOver : List (Fin 2 × Action) :=
  [(workerB, .recover), (workerB, .scan 0), (workerB, .enter 0 1 9), (workerB, .check), (workerB, .read),
    (workerA, .recover), (workerA, .scan 0), (workerA, .enter 0 1 9), (workerA, .check), (workerA, .read), (workerA, .claim theGoal 0), (workerA, .decide),
    (workerA, .attack), (workerA, .noteDir "runs/0".toList), (workerA, .die),
    (workerB, .claim theGoal 700), (workerB, .decide), (workerB, .attack), (workerB, .answer (.ok trivialProof)),
    (workerB, .record), (workerB, .propagate), (workerB, .release)]

theorem taken_over_is_lost :
    ¬ Everywhere (audit twoParties) (Accounted 0) (opened oneGoal) takenOver := by
  intro h
  obtain ⟨t, ht, hend⟩ : ∃ t, run (audit twoParties) (opened oneGoal) takenOver = some t ∧
      (t.store.goals.map Goal.lease, t.ledger.claims.map (·.attacked), t.store.attempts.length) =
        ([none], [true, true], 1) := by
    have hrun : (run (audit twoParties) (opened oneGoal) takenOver).map (fun t =>
        (t.store.goals.map Goal.lease, t.ledger.claims.map (·.attacked), t.store.attempts.length)) =
          some ([none], [true, true], 1) := by
      decide +kernel
    exact Option.map_eq_some_iff.mp hrun
  simp only [Prod.mk.injEq] at hend
  obtain ⟨hleases, hclaims, hrows⟩ := hend
  have hfree : ∀ i, t.store.held i = none := by
    intro i
    have hi := congrArg (·[i]?) hleases
    simp only [List.getElem?_map] at hi
    unfold Store.held Store.goal
    cases hg : t.store.goals[i]? with
    | none => rfl
    | some g =>
      rw [hg] at hi
      cases i with
      | zero => simpa using hi
      | succ i => simp at hi
  obtain ⟨order, _, hmem, hall⟩ := everywhere_last h ht hfree
  have hattacked : ∀ n < 2, n ∈ order := by
    intro n hn
    have hc := congrArg (·[n]?) hclaims
    simp only [List.getElem?_map] at hc
    obtain ⟨c, hc, hatt⟩ := Option.map_eq_some_iff.mp (hc.trans (show [true, true][n]? = some true by
      cases n with
      | zero => rfl
      | succ n =>
        obtain rfl : n = 0 := by omega
        rfl))
    exact (hmem n).mpr ⟨c, hc, hatt⟩
  have hlen : order.length = 1 := by
    rw [List.Forall₂.length_eq hall, List.drop_zero, hrows]
  obtain ⟨m, rfl⟩ := List.length_eq_one_iff.mp hlen
  have h0 := List.mem_singleton.mp (hattacked 0 (by omega))
  have h1 := List.mem_singleton.mp (hattacked 1 (by omega))
  omega

end EvoHarness.Proof.SolveLoop
