import EvoHarness.Library.Hoare

/-! Triples that see which exception was raised, and programs that are run with a bound on their steps. -/
namespace EvoHarness.Hoare
variable {ω ε α β : Type}

def Prog.ofExcept (x : Except ε α) : Prog ω ε α := fun w => (x, w)

theorem Prog.ofExcept_run (x : Except ε α) (w : ω) : (Prog.ofExcept x : Prog ω ε α) w = (x, w) := rfl

theorem Prog.ofExcept_bind {x : Except ε α} {a : α} (h : x = .ok a) (f : α → Prog ω ε β) :
    (Prog.ofExcept x >>= f) = f a := by
  subst h
  rfl

theorem Prog.bind_pure_snd {m : Prog ω ε α} (b : β) (w : ω) : ((m >>= fun _ => Pure.pure b) w).2 = (m w).2 := by
  cases hm : m w with
  | mk r w' =>
    cases r with
    | ok a => rw [Prog.bind_ok hm, Prog.pure_run]
    | error e => rw [Prog.bind_error hm]

/-- From a state in `P`, a return leaves `Q` and an exception `e` leaves `E e`. -/
def Prog.Ends (P : ω → Prop) (m : Prog ω ε α) (Q : α → ω → Prop) (E : ε → ω → Prop) : Prop :=
  ∀ w, P w → match m w with
    | (.ok a, w') => Q a w'
    | (.error e, w') => E e w'

variable {P P' : ω → Prop} {Q Q' : α → ω → Prop} {E E' : ε → ω → Prop} {S : β → ω → Prop}

namespace Prog.Ends

theorem pure {a : α} (h : ∀ w, P w → Q a w) : Ends P (Pure.pure a : Prog ω ε α) Q E := h

theorem raise {e : ε} (h : ∀ w, P w → E e w) : Ends P (Prog.raise e : Prog ω ε α) Q E := h

theorem ofExcept {x : Except ε α} (hok : ∀ a, x = .ok a → ∀ w, P w → Q a w)
    (herror : ∀ e, x = .error e → ∀ w, P w → E e w) : Ends P (Prog.ofExcept x : Prog ω ε α) Q E := by
  intro w hw
  rw [Prog.ofExcept_run]
  cases x with
  | ok a => exact hok a rfl w hw
  | error e => exact herror e rfl w hw

theorem get {Q : ω → ω → Prop} (h : ∀ w, P w → Q w w) : Ends P (Prog.get : Prog ω ε ω) Q E := h

theorem modify {f : ω → ω} {Q : Unit → ω → Prop} (h : ∀ w, P w → Q () (f w)) :
    Ends P (Prog.modify f : Prog ω ε Unit) Q E := h

theorem bind {m : Prog ω ε α} {f : α → Prog ω ε β} (hm : Ends P m Q E) (hf : ∀ a, Ends (Q a) (f a) S E) :
    Ends P (m >>= f) S E := by
  intro w hw
  have h := hm w hw
  cases hmw : m w with
  | mk r w' =>
    rw [hmw] at h
    cases r with
    | ok a =>
      rw [Prog.bind_ok hmw]
      exact hf a w' h
    | error e =>
      rw [Prog.bind_error hmw]
      exact h

theorem conseq {m : Prog ω ε α} (h : Ends P m Q E) (hP : ∀ w, P' w → P w) (hQ : ∀ a w, Q a w → Q' a w)
    (hE : ∀ e w, E e w → E' e w) : Ends P' m Q' E' := by
  intro w hw
  have h := h w (hP w hw)
  cases hmw : m w with
  | mk r w' =>
    rw [hmw] at h
    cases r with
    | ok a => exact hQ a w' h
    | error e => exact hE e w' h

theorem attempt {m : Prog ω ε α} (h : Ends P m Q E) :
    Ends P (Prog.attempt m : Prog ω ε (Except ε α)) (fun r w => match r with
      | .ok a => Q a w
      | .error e => E e w) E' := by
  intro w hw
  have h := h w hw
  show match (m w).1 with
    | .ok a => Q a (m w).2
    | .error e => E e (m w).2
  cases hmw : m w with
  | mk r w' =>
    rw [hmw] at h
    cases r with
    | ok a => exact h
    | error e => exact h

theorem assume {m : Prog ω ε α} {p : Prop} (h : p → Ends P m Q E) : Ends (fun w => p ∧ P w) m Q E :=
  fun w hw => h hw.1 w hw.2

end Prog.Ends

theorem Triple.ofExcept {x : Except ε α} {R : ω → Prop} (hok : ∀ a, x = .ok a → ∀ w, P w → Q a w) (herror : ∀ w, P w → R w) :
    Triple P (Prog.ofExcept x : Prog ω ε α) Q R :=
  Prog.Ends.ofExcept (E := fun _ => R) hok fun _ _ => herror

def Prog.Settles (cut : ε) (m : ℕ → Prog ω ε α) (w : ω) : Prop :=
  ∃ n out, out.1 ≠ .error cut ∧ ∀ k, n ≤ k → m k w = out

namespace Prog.Settles
variable {cut : ε} {w : ω}

theorem const {m : Prog ω ε α} (h : (m w).1 ≠ .error cut) : Settles cut (fun _ => m) w :=
  ⟨0, m w, h, fun _ _ => rfl⟩

theorem succ {m : ℕ → Prog ω ε α} (h : Settles cut (fun k => m (k + 1)) w) : Settles cut m w := by
  obtain ⟨n, out, hout, hrun⟩ := h
  refine ⟨n + 1, out, hout, ?_⟩
  intro k hk
  cases k with
  | zero => exact absurd hk (Nat.not_succ_le_zero n)
  | succ k => exact hrun k (Nat.le_of_succ_le_succ hk)

theorem bind {m : ℕ → Prog ω ε α} {f : ℕ → α → Prog ω ε β} (hm : Settles cut m w)
    (hf : ∀ a w', (∃ k, m k w = (.ok a, w')) → Settles cut (fun k => f k a) w') :
    Settles cut (fun k => m k >>= f k) w := by
  obtain ⟨n, ⟨r, w'⟩, hout, hrun⟩ := hm
  cases r with
  | error e =>
    refine ⟨n, (.error e, w'), fun h => hout (congrArg _ (Except.error.inj h)), ?_⟩
    intro k hk
    exact Prog.bind_error (hrun k hk)
  | ok a =>
    obtain ⟨n', out, hout', hrun'⟩ := hf a w' ⟨n, hrun n (Nat.le_refl n)⟩
    refine ⟨max n n', out, hout', ?_⟩
    intro k hk
    show (m k >>= f k) w = out
    rw [Prog.bind_ok (hrun k (Nat.le_trans (Nat.le_max_left _ _) hk))]
    exact hrun' k (Nat.le_trans (Nat.le_max_right _ _) hk)

theorem attempt {m : ℕ → Prog ω ε α} {f : ℕ → Except ε α → Prog ω ε β} (hm : Settles cut m w)
    (hf : ∀ r w', r ≠ .error cut → (∃ k, m k w = (r, w')) → Settles cut (fun k => f k r) w') :
    Settles cut (fun k => Prog.attempt (m k) >>= f k) w := by
  obtain ⟨n, ⟨r, w'⟩, hout, hrun⟩ := hm
  obtain ⟨n', out, hout', hrun'⟩ := hf r w' hout ⟨n, hrun n (Nat.le_refl n)⟩
  refine ⟨max n n', out, hout', ?_⟩
  intro k hk
  have hattempt : Prog.attempt (m k) w = (.ok r, w') := by
    rw [Prog.attempt, hrun k (Nat.le_trans (Nat.le_max_left _ _) hk)]
  show (Prog.attempt (m k) >>= f k) w = out
  rw [Prog.bind_ok hattempt]
  exact hrun' k (Nat.le_trans (Nat.le_max_right _ _) hk)

end Prog.Settles

end EvoHarness.Hoare
