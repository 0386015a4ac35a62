import Mathlib.Data.List.Basic

/-! Finite runs of a partial step function, the invariant rule, and the rule
for runs all of whose steps meet a guard. Labels carry every choice of a step,
so an interleaving of several parties is a list of labels. -/
namespace EvoHarness.Runs
variable {σ α : Type*}

def run (step : σ → α → Option σ) : σ → List α → Option σ
  | s, [] => some s
  | s, a :: as => (step s a).bind fun t => run step t as

/-- Every step the run takes is taken in a state where `ok` allows it. -/
def Meets (step : σ → α → Option σ) (ok : σ → α → Prop) : σ → List α → Prop
  | _, [] => True
  | s, a :: as => ∀ t, step s a = some t → ok s a ∧ Meets step ok t as

/-- `I` holds of every state the run passes through, both ends included. -/
def Everywhere (step : σ → α → Option σ) (I : σ → Prop) : σ → List α → Prop
  | s, [] => I s
  | s, a :: as => I s ∧ ∀ t, step s a = some t → Everywhere step I t as

variable {step : σ → α → Option σ} {ok : σ → α → Prop} {I : σ → Prop}

@[simp] theorem run_nil (s : σ) : run step s [] = some s := rfl

theorem run_cons {s u : σ} {a : α} {as : List α} :
    run step s (a :: as) = some u ↔ ∃ t, step s a = some t ∧ run step t as = some u := by
  simp [run, Option.bind_eq_some_iff]

theorem run_append {s u : σ} {as bs : List α} :
    run step s (as ++ bs) = some u ↔ ∃ t, run step s as = some t ∧ run step t bs = some u := by
  induction as generalizing s with
  | nil => simp
  | cons a as ih =>
    simp only [List.cons_append, run_cons, ih]
    constructor
    · rintro ⟨t, ht, v, hv, hu⟩
      exact ⟨v, ⟨t, ht, hv⟩, hu⟩
    · rintro ⟨v, ⟨t, ht, hv⟩, hu⟩
      exact ⟨t, ht, v, hv, hu⟩

theorem run_invariant (hstep : ∀ s a t, I s → step s a = some t → I t)
    {s t : σ} {as : List α} (hs : I s) (hrun : run step s as = some t) : I t := by
  induction as generalizing s with
  | nil => simpa using (Option.some.inj hrun) ▸ hs
  | cons a as ih =>
    obtain ⟨u, hu, hrest⟩ := run_cons.mp hrun
    exact ih (hstep s a u hs hu) hrest

theorem everywhere_of_meets (hstep : ∀ s a t, I s → ok s a → step s a = some t → I t)
    {s : σ} {as : List α} (hs : I s) (hok : Meets step ok s as) : Everywhere step I s as := by
  induction as generalizing s with
  | nil => exact hs
  | cons a as ih =>
    refine ⟨hs, fun t ht => ?_⟩
    obtain ⟨ha, hrest⟩ := hok t ht
    exact ih (hstep s a t hs ha ht) hrest

theorem meets_of_meets {P : σ → α → Prop} (hstep : ∀ s a t, I s → ok s a → step s a = some t → I t)
    (hP : ∀ s a, I s → ok s a → P s a) {s : σ} {as : List α} (hs : I s) (hok : Meets step ok s as) :
    Meets step P s as := by
  induction as generalizing s with
  | nil => trivial
  | cons a as ih =>
    intro t ht
    obtain ⟨ha, hrest⟩ := hok t ht
    exact ⟨hP s a hs ha, ih (hstep s a t hs ha ht) hrest⟩

theorem everywhere_first {s : σ} {as : List α} (h : Everywhere step I s as) : I s := by
  cases as with
  | nil => exact h
  | cons a as => exact h.1

theorem Everywhere.mono {I' : σ → Prop} (hI : ∀ s, I s → I' s) {s : σ} {as : List α}
    (h : Everywhere step I s as) : Everywhere step I' s as := by
  induction as generalizing s with
  | nil => exact hI s h
  | cons a as ih => exact ⟨hI s h.1, fun t ht => ih (h.2 t ht)⟩

def check (step : σ → α → Option σ) (ok : σ → α → Bool) : σ → List α → Bool
  | _, [] => true
  | s, a :: as =>
    match step s a with
    | none => true
    | some t => ok s a && check step ok t as

theorem meets_of_check {ok : σ → α → Bool} {s : σ} {as : List α} (h : check step ok s as = true) :
    Meets step (fun s a => ok s a) s as := by
  induction as generalizing s with
  | nil => trivial
  | cons a as ih =>
    intro t ht
    simp only [check, ht, Bool.and_eq_true] at h
    exact ⟨h.1, ih h.2⟩

/-- If a step out of a good state is good exactly when the guard holds, then a run
is good everywhere exactly when it meets the guard at every step it takes. `J` is what
every step keeps anyway. -/
theorem everywhere_iff_meets {J : σ → Prop} (hJ : ∀ s a t, J s → step s a = some t → J t)
    (hstep : ∀ s a t, J s → I s → step s a = some t → (I t ↔ ok s a))
    {s : σ} {as : List α} (hj : J s) (hs : I s) : Everywhere step I s as ↔ Meets step ok s as := by
  induction as generalizing s with
  | nil => exact ⟨fun _ => trivial, fun _ => hs⟩
  | cons a as ih =>
    constructor
    · intro h t ht
      have hI : I t := everywhere_first (h.2 t ht)
      exact ⟨(hstep s a t hj hs ht).mp hI, (ih (hJ s a t hj ht) hI).mp (h.2 t ht)⟩
    · intro h
      refine ⟨hs, fun t ht => ?_⟩
      obtain ⟨ha, hrest⟩ := h t ht
      exact (ih (hJ s a t hj ht) ((hstep s a t hj hs ht).mpr ha)).mpr hrest

theorem everywhere_last {s t : σ} {as : List α} (h : Everywhere step I s as)
    (hrun : run step s as = some t) : I t := by
  induction as generalizing s with
  | nil => exact (Option.some.inj hrun) ▸ h
  | cons a as ih =>
    obtain ⟨u, hu, hrest⟩ := run_cons.mp hrun
    exact ih (h.2 u hu) hrest

theorem run_length {μ : σ → ℕ} (hstep : ∀ s a t, I s → step s a = some t → I t ∧ μ t < μ s) {s t : σ} {as : List α}
    (hs : I s) (hrun : run step s as = some t) : as.length + μ t ≤ μ s := by
  induction as generalizing s with
  | nil => simp [Option.some.inj hrun]
  | cons a as ih =>
    obtain ⟨u, hu, hrest⟩ := run_cons.mp hrun
    obtain ⟨hi, hlower⟩ := hstep s a u hs hu
    have hlength := ih hi hrest
    rw [List.length_cons]
    omega

end EvoHarness.Runs
