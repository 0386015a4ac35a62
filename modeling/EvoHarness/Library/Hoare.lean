import Mathlib.Data.List.Basic

/-! Programs that read and write one state and may raise, with the triples that
say what they leave behind: on return, and when they raise. -/
namespace EvoHarness.Hoare

theorem ok_of_bind {α β ε : Type} {x : Except ε α} {f : α → Except ε β} {b : β} (h : (x >>= f) = .ok b) :
    ∃ a, x = .ok a ∧ f a = .ok b := by
  cases x with
  | error e => simp [bind, Except.bind] at h
  | ok a => exact ⟨a, rfl, h⟩

theorem bind_ok_iff {α β ε : Type} {x : Except ε α} {f : α → Except ε β} {b : β} :
    (x >>= f) = .ok b ↔ ∃ a, x = .ok a ∧ f a = .ok b := by
  constructor
  · exact ok_of_bind
  · intro h
    obtain ⟨a, rfl, hb⟩ := h
    exact hb

def Prog (ω ε α : Type) : Type := ω → Except ε α × ω

variable {ω ε α β : Type}

namespace Prog

def pure (a : α) : Prog ω ε α := fun w => (.ok a, w)

def bind (m : Prog ω ε α) (f : α → Prog ω ε β) : Prog ω ε β := fun w =>
  match m w with
  | (.ok a, w') => f a w'
  | (.error e, w') => (.error e, w')

instance : Monad (Prog ω ε) where
  pure := pure
  bind := bind

def get : Prog ω ε ω := fun w => (.ok w, w)
def modify (f : ω → ω) : Prog ω ε Unit := fun w => (.ok (), f w)
def raise (e : ε) : Prog ω ε α := fun w => (.error e, w)

/-- Run a step that also answers, such as a call to something outside the program. -/
def call (f : ω → α × ω) : Prog ω ε α := fun w => (.ok (f w).1, (f w).2)

/-- `try: m finally: last`. An exception of `last` replaces the one of `m`. -/
def ensure (m : Prog ω ε α) (last : Prog ω ε Unit) : Prog ω ε α := fun w =>
  match m w with
  | (r, w') => match last w' with
    | (.ok _, w'') => (r, w'')
    | (.error e, w'') => (.error e, w'')

/-- `try: m except E: handle`, for the exceptions `caught` picks out. -/
def rescue (m : Prog ω ε α) (caught : ε → Option (Prog ω ε α)) : Prog ω ε α := fun w =>
  match m w with
  | (.ok a, w') => (.ok a, w')
  | (.error e, w') => match caught e with
    | some handle => handle w'
    | none => (.error e, w')

/-- `try: …  except Exception as e: …`, with what was raised handed on. -/
def attempt (m : Prog ω ε α) : Prog ω ε (Except ε α) := fun w => (.ok (m w).1, (m w).2)

def mapError {ε' : Type} (f : ε → ε') (m : Prog ω ε α) : Prog ω ε' α := fun w => ((m w).1.mapError f, (m w).2)

def forEach : List β → (β → Prog ω ε Unit) → Prog ω ε Unit
  | [], _ => Pure.pure ()
  | b :: bs, f => f b >>= fun _ => forEach bs f

variable {m : Prog ω ε α} {f : α → Prog ω ε β} {w w' : ω}

@[simp] theorem pure_run (a : α) : (Pure.pure a : Prog ω ε α) w = (.ok a, w) := rfl
@[simp] theorem get_run : (get : Prog ω ε ω) w = (.ok w, w) := rfl
@[simp] theorem modify_run (g : ω → ω) : (modify g : Prog ω ε Unit) w = (.ok (), g w) := rfl
@[simp] theorem raise_run (e : ε) : (raise e : Prog ω ε α) w = (.error e, w) := rfl
@[simp] theorem call_run (g : ω → α × ω) : (call g : Prog ω ε α) w = (.ok (g w).1, (g w).2) := rfl

theorem bind_ok {a : α} (h : m w = (.ok a, w')) : (m >>= f) w = f a w' := by
  show Prog.bind m f w = f a w'
  unfold Prog.bind
  rw [h]

theorem bind_error {e : ε} (h : m w = (.error e, w')) : (m >>= f) w = (.error e, w') := by
  show Prog.bind m f w = (.error e, w')
  unfold Prog.bind
  rw [h]

theorem bind_returns {b : β} {w'' : ω} (h : (m >>= f) w = (.ok b, w'')) :
    ∃ a w', m w = (.ok a, w') ∧ f a w' = (.ok b, w'') := by
  cases hm : m w with
  | mk r v =>
    cases r with
    | ok a =>
      rw [bind_ok hm] at h
      exact ⟨a, v, rfl, h⟩
    | error e =>
      rw [bind_error hm] at h
      cases h

theorem bind_pure_self {α : Type} (m : Prog ω ε α) : bind m pure = m := by
  funext w
  unfold bind
  cases hm : m w with
  | mk r w' => cases r <;> rfl

theorem bind_bind {α β γ : Type} (m : Prog ω ε α) (f : α → Prog ω ε β) (g : β → Prog ω ε γ) :
    bind (bind m f) g = bind m fun a => bind (f a) g := by
  funext w
  unfold bind
  cases hm : m w with
  | mk r w' => cases r <;> rfl

instance : LawfulMonad (Prog ω ε) :=
  LawfulMonad.mk' _ (fun m => bind_pure_self m) (fun _ _ => rfl) (fun m f g => bind_bind m f g)

theorem forEach_append (bs cs : List β) (f : β → Prog ω ε Unit) :
    forEach (bs ++ cs) f = forEach bs f >>= fun _ => forEach cs f := by
  induction bs with
  | nil => rfl
  | cons b bs ih => simp only [List.cons_append, forEach, ih, bind_assoc]

theorem forEach_flatMap (bs : List β) (g : β → List α) (f : α → Prog ω ε Unit) :
    forEach (bs.flatMap g) f = forEach bs fun b => forEach (g b) f := by
  induction bs with
  | nil => rfl
  | cons b bs ih => rw [List.flatMap_cons, forEach_append, ih, forEach]

end Prog
open Prog

def Prog.Moves (R : ω → ω → Prop) (m : Prog ω ε α) : Prop := ∀ w, R w (m w).2

section
variable {R : ω → ω → Prop} {m : Prog ω ε α} {f : α → Prog ω ε β}

theorem Prog.Moves.pure (hrefl : ∀ w, R w w) (a : α) : Moves R (Pure.pure a : Prog ω ε α) := hrefl

theorem Prog.Moves.get (hrefl : ∀ w, R w w) : Moves R (Prog.get : Prog ω ε ω) := hrefl

theorem Prog.Moves.raise (hrefl : ∀ w, R w w) (e : ε) : Moves R (Prog.raise e : Prog ω ε α) := hrefl

theorem Prog.Moves.bind_then (htrans : ∀ u v w, R u v → R v w → R u w) (hm : Moves R m)
    (hf : ∀ w a w', m w = (.ok a, w') → R w' (f a w').2) : Moves R (m >>= f) := by
  intro w
  have hfirst := hm w
  cases hmw : m w with
  | mk r w' =>
    rw [hmw] at hfirst
    cases r with
    | ok a =>
      rw [Prog.bind_ok hmw]
      exact htrans _ _ _ hfirst (hf w a w' hmw)
    | error e =>
      rw [Prog.bind_error hmw]
      exact hfirst

theorem Prog.Moves.bind (htrans : ∀ u v w, R u v → R v w → R u w) (hm : Moves R m) (hf : ∀ a, Moves R (f a)) :
    Moves R (m >>= f) :=
  hm.bind_then htrans fun _ a w' _ => hf a w'

theorem Prog.Moves.attempt (hm : Moves R m) : Moves R (Prog.attempt m) := hm

theorem Prog.Moves.rescue (htrans : ∀ u v w, R u v → R v w → R u w) {caught : ε → Option (Prog ω ε α)}
    (hm : Moves R m) (hc : ∀ e handle, caught e = some handle → Moves R handle) : Moves R (Prog.rescue m caught) := by
  intro w
  have hfirst := hm w
  unfold Prog.rescue
  cases hmw : m w with
  | mk r w' =>
    rw [hmw] at hfirst
    cases r with
    | ok a => exact hfirst
    | error e =>
      cases he : caught e with
      | none => simpa only [he] using hfirst
      | some handle => simpa only [he] using htrans _ _ _ hfirst (hc e handle he w')

theorem Prog.Moves.forEach (hrefl : ∀ w, R w w) (htrans : ∀ u v w, R u v → R v w → R u w)
    {f : β → Prog ω ε Unit} (hf : ∀ b, Moves R (f b)) (bs : List β) : Moves R (Prog.forEach bs f) := by
  induction bs with
  | nil => exact Prog.Moves.pure hrefl ()
  | cons b bs ih => exact Prog.Moves.bind htrans (hf b) fun _ => ih

end

/-- From a state in `P`, a return leaves `Q` and an exception leaves `R`. -/
def Triple (P : ω → Prop) (m : Prog ω ε α) (Q : α → ω → Prop) (R : ω → Prop) : Prop :=
  ∀ w, P w → match m w with
    | (.ok a, w') => Q a w'
    | (.error _, w') => R w'

variable {P P' : ω → Prop} {Q Q' : α → ω → Prop} {R R' : ω → Prop} {S : β → ω → Prop}

theorem Triple.pure {a : α} (h : ∀ w, P w → Q a w) : Triple P (Pure.pure a : Prog ω ε α) Q R := h

theorem Triple.raise {e : ε} (h : ∀ w, P w → R w) : Triple P (Prog.raise e : Prog ω ε α) Q R := h

theorem Triple.modify {f : ω → ω} {Q : Unit → ω → Prop} (h : ∀ w, P w → Q () (f w)) :
    Triple P (Prog.modify f : Prog ω ε Unit) Q R := h

theorem Triple.call {f : ω → α × ω} (h : ∀ w, P w → Q (f w).1 (f w).2) :
    Triple P (Prog.call f : Prog ω ε α) Q R := h

theorem Triple.get {Q : ω → ω → Prop} (h : ∀ w, P w → Q w w) :
    Triple P (Prog.get : Prog ω ε ω) Q R := h

theorem Triple.read {f : ω → Prog ω ε β} (h : ∀ v, P v → Triple (fun w => w = v) (f v) S R) :
    Triple P (Prog.get >>= f) S R := fun w hw => h w hw w rfl

theorem Triple.each {κ : Type} {m : Prog ω ε α} {I : κ → ω → Prop} (h : ∀ k, Triple (I k) m Q R) :
    Triple (fun w => ∃ k, I k w) m Q R := fun w hw => hw.elim fun k hk => h k w hk

theorem Triple.bind {m : Prog ω ε α} {f : α → Prog ω ε β} (hm : Triple P m Q R)
    (hf : ∀ a, Triple (Q a) (f a) S R) : Triple P (m >>= f) S R := by
  intro w hw
  have h := hm w hw
  show match Prog.bind m f w with
    | (.ok a, w') => S a w'
    | (.error _, w') => R w'
  unfold Prog.bind
  cases hmw : m w with
  | mk r w' =>
    rw [hmw] at h
    cases r with
    | ok a => exact hf a w' h
    | error e => exact h

/-- Whatever `m` returns, and in whatever state, `C` holds of it. -/
def Prog.Then (m : Prog ω ε α) (C : α → ω → Prop) (w : ω) : Prop :=
  ∀ a w', m w = (.ok a, w') → C a w'

theorem Triple.bind_then {m : Prog ω ε α} {f : α → Prog ω ε β} {C : α → ω → Prop} (hm : Triple P m Q R)
    (hf : ∀ a, Triple (fun w => Q a w ∧ C a w) (f a) S R) :
    Triple (fun w => P w ∧ m.Then C w) (m >>= f) S R := by
  intro w hw
  have hfirst : Triple (fun v => v = w) m (fun a v => Q a v ∧ C a v) R := by
    intro v hv
    have h := hm w hw.1
    cases hmw : m w with
    | mk r w' =>
      rw [hmw] at h
      cases r with
      | ok a =>
        rw [hv, hmw]
        exact ⟨h, hw.2 a w' hmw⟩
      | error e =>
        rw [hv, hmw]
        exact h
  exact Triple.bind hfirst hf w rfl

theorem Triple.conseq {m : Prog ω ε α} (h : Triple P m Q R) (hP : ∀ w, P' w → P w)
    (hQ : ∀ a w, Q a w → Q' a w) (hR : ∀ w, R w → R' w) : Triple P' m Q' R' := by
  intro w hw
  have h := h w (hP w hw)
  cases hmw : m w with
  | mk r w' =>
    rw [hmw] at h
    cases r with
    | ok a => exact hQ a w' h
    | error e => exact hR w' h

theorem Triple.weaken {m : Prog ω ε α} (h : Triple P m Q R) (hP : ∀ w, P' w → P w) :
    Triple P' m Q R :=
  h.conseq hP (fun _ _ => id) fun _ => id

theorem Triple.strengthen {m : Prog ω ε α} (h : Triple P m Q R)
    (hQ : ∀ a w, Q a w → Q' a w) : Triple P m Q' R :=
  h.conseq (fun _ => id) hQ fun _ => id

theorem Triple.raising {m : Prog ω ε α} (R' : ω → Prop) (h : Triple P m Q R) (hR : ∀ w, R w → R' w) :
    Triple P m Q R' :=
  h.conseq (fun _ => id) (fun _ _ => id) hR

theorem Triple.assume {m : Prog ω ε α} {p : Prop} (h : p → Triple P m Q R) :
    Triple (fun w => p ∧ P w) m Q R :=
  fun w hw => h hw.1 w hw.2

theorem Triple.ensure {m : Prog ω ε α} {last : Prog ω ε Unit} (hm : Triple P m Q R)
    (hQ : ∀ a, Triple (Q a) last (fun _ => Q' a) R') (hR : Triple R last (fun _ => R') R') :
    Triple P (Prog.ensure m last) Q' R' := by
  intro w hw
  have h := hm w hw
  unfold Prog.ensure
  cases hmw : m w with
  | mk r w' =>
    rw [hmw] at h
    cases r with
    | ok a =>
      have hl := hQ a w' h
      cases hlw : last w' with
      | mk r' w'' => rw [hlw] at hl; cases r' <;> simpa [hlw] using hl
    | error e =>
      have hl := hR w' h
      cases hlw : last w' with
      | mk r' w'' => rw [hlw] at hl; cases r' <;> simpa [hlw] using hl

theorem Triple.rescue {m : Prog ω ε α} {caught : ε → Option (Prog ω ε α)} (hm : Triple P m Q R)
    (hc : ∀ e handle, caught e = some handle → Triple R handle Q R) :
    Triple P (Prog.rescue m caught) Q R := by
  intro w hw
  have h := hm w hw
  unfold Prog.rescue
  cases hmw : m w with
  | mk r w' =>
    rw [hmw] at h
    cases r with
    | ok a => exact h
    | error e =>
      cases he : caught e with
      | none => simpa [he] using h
      | some handle => simpa [he] using hc e handle he w' h

theorem Triple.attempt {m : Prog ω ε α} (R' : ω → Prop) (hm : Triple P m Q R) :
    Triple P (Prog.attempt m) (fun r w => (∃ a, r = .ok a ∧ Q a w) ∨ ∃ e, r = .error e ∧ R w) R' := by
  intro w hw
  have h := hm w hw
  show (∃ a, (m w).1 = .ok a ∧ Q a (m w).2) ∨ ∃ e, (m w).1 = .error e ∧ R (m w).2
  cases hmw : m w with
  | mk r w' =>
    rw [hmw] at h
    cases r with
    | ok a => exact .inl ⟨a, rfl, h⟩
    | error e => exact .inr ⟨e, rfl, h⟩

theorem Triple.attempt_bind {m : Prog ω ε α} {f : Except ε α → Prog ω ε β} (hm : Triple P m Q R)
    (hok : ∀ a, Triple (Q a) (f (.ok a)) S R') (herror : ∀ e, Triple R (f (.error e)) S R') :
    Triple P (Prog.attempt m >>= f) S R' := by
  intro w hw
  have h := hm w hw
  rw [Prog.bind_ok (show Prog.attempt m w = (.ok (m w).1, (m w).2) from rfl)]
  cases hmw : m w with
  | mk r w' =>
    rw [hmw] at h
    cases r with
    | ok a => exact hok a w' h
    | error e => exact herror e w' h

theorem Triple.mapError {ε' : Type} {f : ε → ε'} {m : Prog ω ε α} (h : Triple P m Q R) :
    Triple P (Prog.mapError f m) Q R := by
  intro w hw
  have h := h w hw
  unfold Prog.mapError
  cases hmw : m w with
  | mk r w' =>
    rw [hmw] at h
    cases r <;> exact h

theorem Triple.of_same {κ : Type} {part : ω → κ} {m : Prog ω ε α} (hm : Prog.Moves (fun w w' => part w' = part w) m)
    (P : κ → Prop) : Triple (fun w => P (part w)) m (fun _ w => P (part w)) fun w => P (part w) := by
  intro w hw
  have h := hm w
  cases hmw : m w with
  | mk r w' =>
    rw [hmw] at h
    cases r with
    | ok a => exact (congrArg P h).mpr hw
    | error e => exact (congrArg P h).mpr hw

theorem Triple.forEach {f : β → Prog ω ε Unit} (I : List β → ω → Prop)
    (hf : ∀ b bs, Triple (I (b :: bs)) (f b) (fun _ => I bs) R) (bs : List β) :
    Triple (I bs) (Prog.forEach bs f) (fun _ => I []) R := by
  induction bs with
  | nil => exact Triple.pure fun _ => id
  | cons b bs ih => exact Triple.bind (hf b bs) fun _ => ih

end EvoHarness.Hoare
