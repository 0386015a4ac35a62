import EvoHarness.Core.Agent.Limits

/-! What the client answered to a run of the native agent runtime, call by call, and what becomes of
the answer that the account is empty. -/
namespace EvoHarness.Core.Agent
open PyText Hoare

inductive ClientCall where
  | paid (cost : ℚ≥0)
  | billing (error : Text)
  | failed

def Answer.call : Answer → ClientCall
  | .response r => .paid r.cost
  | .billing error => .billing error
  | _ => .failed

def ClientCall.isBilling : ClientCall → Bool
  | .billing _ => true
  | _ => false

def Billed (heard : List ClientCall) : Prop := ∃ c ∈ heard, c.isBilling = true

instance (heard : List ClientCall) : Decidable (Billed heard) := by
  unfold Billed
  infer_instance

theorem not_billed_nil : ¬ Billed [] := by
  intro h
  obtain ⟨c, hc, _⟩ := h
  cases hc

theorem billed_append {xs ys : List ClientCall} : Billed (xs ++ ys) ↔ Billed xs ∨ Billed ys := by
  constructor
  · intro h
    obtain ⟨c, hc, hb⟩ := h
    cases List.mem_append.mp hc with
    | inl hx => exact .inl ⟨c, hx, hb⟩
    | inr hy => exact .inr ⟨c, hy, hb⟩
  · intro h
    cases h with
    | inl h =>
      obtain ⟨c, hc, hb⟩ := h
      exact ⟨c, List.mem_append_left _ hc, hb⟩
    | inr h =>
      obtain ⟨c, hc, hb⟩ := h
      exact ⟨c, List.mem_append_right _ hc, hb⟩

section
variable (b : NativeToolAgentBackend) (env : ℕ → Reply) (limits : AgentSessionLimits)

/-- The call that `queryModel` makes, unless the deadline has passed. -/
def queryHeard (w : World) : List ClientCall :=
  let asked := (clock env w).2
  if w.run.deadline ≤ asked.now then [] else [(env asked.asked).answer.call]

def turnHeard (w : World) : List ClientCall :=
  match admission b env limits w with
  | (.ok none, w') => queryHeard env w'
  | _ => []

def roundsHeard : ℕ → World → List ClientCall
  | 0, _ => []
  | n + 1, w => turnHeard b env limits w ++
      match turn b env limits w with
      | (.ok none, w') => roundsHeard n w'
      | _ => []

def sessionHeard (opened : AgentEventKind) (fuel : ℕ) (w : World) : List ClientCall :=
  match recordEvent env opened none none [] w with
  | (.ok _, w') => if w'.run.sinkError = none then roundsHeard b env limits fuel w' else []
  | _ => []

def Host.heard (host : Host) (request : AgentSessionRequest) (fuel : ℕ) : List ClientCall :=
  match openSession b host.sessions request (env host.asked).isDir (env (host.asked + 1)).freshId with
  | .error _ => []
  | .ok s => sessionHeard b env request.limits (openedEvent request) fuel (startWorld env host request s)

/-- The run of which `m` is a part was told that the account is empty only if `m` says so. -/
def Names {α : Type} (r : Except Fault α) (heard : List ClientCall) : Prop :=
  Billed heard → ∃ error, r = .error (.billing error)

variable {b env limits}

theorem queryModel_names (w : World) : Names (queryModel b env limits w).1 (queryHeard env w) := by
  intro h
  have hclock : clock env w = (.ok (clock env w).2.now, (clock env w).2) := rfl
  unfold queryHeard at h
  unfold queryModel
  rw [Prog.bind_ok (Prog.get_run (w := w)), Prog.bind_ok hclock]
  by_cases hd : w.run.deadline ≤ (clock env w).2.now
  · simp only [hd, if_true] at h
    exact (not_billed_nil h).elim
  · simp only [hd, if_false] at h ⊢
    obtain ⟨c, hc, hb⟩ := h
    have hcall : c = (env (clock env w).2.asked).answer.call := List.mem_singleton.mp hc
    have hquery : query env (clock env w).2 = (.ok (env (clock env w).2.asked).answer, (query env (clock env w).2).2) :=
      rfl
    rw [Prog.bind_ok hquery]
    cases ha : (env (clock env w).2.asked).answer with
    | billing error => exact ⟨error, rfl⟩
    | response r => rw [hcall, ha] at hb; cases hb
    | malformed error => rw [hcall, ha] at hb; cases hb
    | protocolError error => rw [hcall, ha] at hb; cases hb
    | transient error => rw [hcall, ha] at hb; cases hb
    | other described => rw [hcall, ha] at hb; cases hb

theorem turn_names (w : World) : Names (turn b env limits w).1 (turnHeard b env limits w) := by
  intro h
  unfold turnHeard at h
  unfold turn
  cases ha : admission b env limits w with
  | mk r w' =>
    rw [ha] at h
    cases r with
    | error e => exact (not_billed_nil h).elim
    | ok admitted =>
      rw [Prog.bind_ok ha]
      cases admitted with
      | some r => exact (not_billed_nil h).elim
      | none => exact queryModel_names w' h

theorem rounds_name (fuel : ℕ) (w : World) : Names (rounds b env limits fuel w).1 (roundsHeard b env limits fuel w) := by
  induction fuel generalizing w with
  | zero => exact fun h => (not_billed_nil h).elim
  | succ n ih =>
    intro h
    have hturn : Names (turn b env limits w).1 (turnHeard b env limits w) := turn_names w
    unfold roundsHeard at h
    unfold rounds
    cases ht : turn b env limits w with
    | mk r w' =>
      rw [ht] at h hturn
      cases r with
      | error e =>
        rw [List.append_nil] at h
        obtain ⟨error, he⟩ := hturn h
        rw [Prog.bind_error ht]
        exact ⟨error, congrArg Except.error (Except.error.inj he)⟩
      | ok again =>
        rw [Prog.bind_ok ht]
        cases billed_append.mp h with
        | inl h =>
          obtain ⟨error, he⟩ := hturn h
          cases he
        | inr h =>
          cases again with
          | some r => exact (not_billed_nil h).elim
          | none => exact ih w' h

theorem runSession_names (opened : AgentEventKind) (fuel : ℕ) (w : World) :
    Names (runSession b env limits opened fuel w).1 (sessionHeard b env limits opened fuel w) := by
  intro h
  unfold sessionHeard at h
  unfold runSession
  cases hr : recordEvent env opened none none [] w with
  | mk r w' =>
    rw [hr] at h
    cases r with
    | error e => exact (not_billed_nil h).elim
    | ok _ =>
      rw [Prog.bind_ok hr]
      unfold orSinkError
      rw [Prog.bind_ok (Prog.get_run (w := w'))]
      cases hs : w'.run.sinkError with
      | some error =>
        simp only [hs, reduceCtorEq, if_false] at h
        exact (not_billed_nil h).elim
      | none =>
        simp only [hs, if_true] at h
        exact rounds_name fuel w' h

/-- Whenever the client says that the account is empty, the run raises that and nothing else. -/
theorem Host.run_names (host : Host) (request : AgentSessionRequest) (fuel : ℕ) :
    Names (host.run b env request fuel).1 (host.heard b env request fuel) := by
  unfold Host.run Host.heard
  cases openSession b host.sessions request (env host.asked).isDir (env (host.asked + 1)).freshId with
  | error e => exact fun h => (not_billed_nil h).elim
  | ok s => exact runSession_names (openedEvent request) fuel (startWorld env host request s)

end
end EvoHarness.Core.Agent
