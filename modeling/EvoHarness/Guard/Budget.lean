import EvoHarness.Library.JsonReading
import EvoHarness.Library.Runs
import Mathlib.Data.Rat.Denumerable

/-! The budget meter: what it charges, the file it keeps, and what is left of it when the process dies. Amounts are
exact. -/
namespace EvoHarness.Guard
open PyText Json

/-- How amounts are written in the file; `amount` and `count` are `float` and `int` of a value that was read. -/
structure MoneyFormat where
  written : ℚ → Numeral
  amount : Value → Option ℚ
  count : Value → Option ℤ
  amount_written : ∀ q, amount (.number (written q)) = some q
  count_ofInt : ∀ z, count (.number (.ofInt z)) = some z

structure BudgetMeter where
  spentUsd : ℚ := 0
  nCharges : ℤ := 0

variable (fm : MoneyFormat) (hardCapUsd : ℚ)

def BudgetMeter.stateJson (m : BudgetMeter) (updatedAt : Numeral) : List (Text × Value) :=
  [("spent_usd".toList, .number (fm.written m.spentUsd)), ("hard_cap_usd".toList, .number (fm.written hardCapUsd)),
    ("n_charges".toList, .number (.ofInt m.nCharges)), ("updated_at".toList, .number updatedAt)]

/-- The text that `_persist` writes in the place of the file. -/
def BudgetMeter.stateText (m : BudgetMeter) (updatedAt : Numeral) : Text :=
  render (.object (m.stateJson fm hardCapUsd updatedAt))

/-- `BudgetMeter(hard_cap_usd, state_path)`, or `none` where it raises. -/
def openMeter : Option Text → Option BudgetMeter
  | none => some {}
  | some text =>
    match loads text with
    | some (.object state) =>
      match (get state "spent_usd".toList).bind fm.amount with
      | none => none
      | some spent =>
        ((get state "n_charges".toList).elim (some 0) fm.count).map fun n => { spentUsd := spent, nCharges := n }
    | _ => none

def BudgetMeter.charged (m : BudgetMeter) (usd : ℚ) : BudgetMeter where
  spentUsd := m.spentUsd + usd
  nCharges := m.nCharges + 1

def BudgetMeter.shouldStop (m : BudgetMeter) : Bool := hardCapUsd ≤ m.spentUsd

/-- Where a charge dies: before the file is opened, which empties it, or when this much of the text is in it. -/
inductive DiedAt where
  | beforeOpen
  | writing (n : ℕ)

def DiedAt.leaves (file : Option Text) (text : Text) : DiedAt → Option Text
  | .beforeOpen => file
  | .writing n => some (text.take n)

/-- A charge of a strict meter that crosses the cap raises when it has been stored; it counts as one that came back. -/
inductive BudgetEvent where
  | opened
  | charge (usd : ℚ) (updatedAt : Numeral)
  | died
  | diedCharging (usd : ℚ) (updatedAt : Numeral) (point : DiedAt)

/-- The file and the meter of the process that lives. Of the past: the sum of the charges that came back, the sum of
those that a death interrupted, the most that was ever spent, and whether the meter ever said stop. -/
structure BudgetRun where
  file : Option Text := none
  meter : Option BudgetMeter := none
  returned : ℚ := 0
  interrupted : ℚ := 0
  highest : ℚ := 0
  stopped : Bool := false

def BudgetRun.observe (s : BudgetRun) (m : BudgetMeter) : BudgetRun :=
  { s with
    meter := some m
    highest := max s.highest m.spentUsd
    stopped := s.stopped || m.shouldStop hardCapUsd }

def budgetStep (s : BudgetRun) : BudgetEvent → Option BudgetRun
  | .opened => (openMeter fm s.file).map (s.observe hardCapUsd)
  | .charge usd updatedAt =>
    match s.meter with
    | none => none
    | some m =>
      if usd < 0 then none
      else
        some ({ s with
          file := some ((m.charged usd).stateText fm hardCapUsd updatedAt)
          returned := s.returned + usd }.observe hardCapUsd (m.charged usd))
  | .died => some { s with meter := none }
  | .diedCharging usd updatedAt point =>
    match s.meter with
    | none => none
    | some m =>
      if usd < 0 then none
      else
        some { s with
          file := point.leaves s.file ((m.charged usd).stateText fm hardCapUsd updatedAt)
          meter := none
          interrupted := s.interrupted + usd }

/-- After several deaths what was spent may have every charge that one of them interrupted. -/
structure Accounts (s : BudgetRun) (m : BudgetMeter) : Prop where
  atLeast : s.returned ≤ m.spentUsd
  atMost : m.spentUsd ≤ s.returned + s.interrupted
  highest : s.highest ≤ m.spentUsd
  stopped : s.stopped = true → m.shouldStop hardCapUsd = true

/-- The meter that lives is right, or, where none lives, the file opens to one that is. -/
def Survives (s : BudgetRun) : Prop :=
  ∃ m, (s.meter = some m ∨ (s.meter = none ∧ openMeter fm s.file = some m)) ∧ Accounts hardCapUsd s m

def WholeWrites (s : BudgetRun) : BudgetEvent → Prop
  | .diedCharging usd updatedAt (.writing n) =>
    ∀ m, s.meter = some m → ((m.charged usd).stateText fm hardCapUsd updatedAt).length ≤ n
  | _ => True

variable {fm hardCapUsd}

theorem distinct_stateJson (m : BudgetMeter) (updatedAt : Numeral) :
    Distinct (.object (m.stateJson fm hardCapUsd updatedAt)) :=
  ⟨(by decide : ["spent_usd".toList, "hard_cap_usd".toList, "n_charges".toList, "updated_at".toList].Nodup), trivial,
    trivial, trivial, trivial, trivial⟩

theorem openMeter_stateText (m : BudgetMeter) (updatedAt : Numeral) :
    openMeter fm (some (m.stateText fm hardCapUsd updatedAt)) = some m := by
  have hspent : get (m.stateJson fm hardCapUsd updatedAt) "spent_usd".toList = some (.number (fm.written m.spentUsd)) := rfl
  have hcharges : get (m.stateJson fm hardCapUsd updatedAt) "n_charges".toList = some (.number (.ofInt m.nCharges)) := rfl
  simp only [openMeter, BudgetMeter.stateText, loads_render (distinct_stateJson m updatedAt), hspent, hcharges,
    Option.bind_some, Option.elim_some, fm.amount_written, fm.count_ofInt, Option.map_some]

theorem openMeter_cut {m : BudgetMeter} {updatedAt : Numeral} {n : ℕ}
    (h : n < (m.stateText fm hardCapUsd updatedAt).length) :
    openMeter fm (some ((m.stateText fm hardCapUsd updatedAt).take n)) = none := by
  have hrest : (m.stateText fm hardCapUsd updatedAt).drop n ≠ [] := by
    rw [ne_eq, List.drop_eq_nil_iff]
    omega
  have hcut : loads ((m.stateText fm hardCapUsd updatedAt).take n) = none :=
    loads_render_cut (distinct_stateJson m updatedAt) ⟨_, rfl⟩ (List.take_append_drop n _) hrest
  rw [openMeter, hcut]

/-- What is kept: the file always opens to a meter that is right, and to the one that lives. -/
def Stored (fm : MoneyFormat) (hardCapUsd : ℚ) (s : BudgetRun) : Prop :=
  ∃ m, openMeter fm s.file = some m ∧ (s.meter = none ∨ s.meter = some m) ∧ Accounts hardCapUsd s m

theorem Stored.survives {s : BudgetRun} (h : Stored fm hardCapUsd s) : Survives fm hardCapUsd s := by
  obtain ⟨m, hfile, hmeter, haccounts⟩ := h
  refine ⟨m, ?_, haccounts⟩
  rcases hmeter with hnone | hsome
  · exact .inr ⟨hnone, hfile⟩
  · exact .inl hsome

theorem Accounts.observe {s : BudgetRun} {m : BudgetMeter} (h : Accounts hardCapUsd s m) :
    Accounts hardCapUsd (s.observe hardCapUsd m) m where
  atLeast := h.atLeast
  atMost := h.atMost
  highest := max_le h.highest le_rfl
  stopped := by
    intro hstop
    rcases Bool.or_eq_true_iff.mp hstop with hbefore | hnow
    · exact h.stopped hbefore
    · exact hnow

theorem Accounts.charged {s : BudgetRun} {m : BudgetMeter} (h : Accounts hardCapUsd s m) {usd : ℚ} (husd : 0 ≤ usd)
    (file : Option Text) :
    Accounts hardCapUsd { s with file := file, returned := s.returned + usd } (m.charged usd) where
  atLeast := by
    have := h.atLeast
    simp only [BudgetMeter.charged]
    linarith
  atMost := by
    have := h.atMost
    simp only [BudgetMeter.charged]
    linarith
  highest := by
    have := h.highest
    simp only [BudgetMeter.charged]
    linarith
  stopped := by
    intro hstop
    have hbefore : hardCapUsd ≤ m.spentUsd := of_decide_eq_true (h.stopped hstop)
    refine decide_eq_true ?_
    simp only [BudgetMeter.charged]
    linarith

theorem Accounts.interrupted {s : BudgetRun} {m : BudgetMeter} (h : Accounts hardCapUsd s m) {usd : ℚ} (husd : 0 ≤ usd)
    (file : Option Text) :
    Accounts hardCapUsd { s with file := file, meter := none, interrupted := s.interrupted + usd } m ∧
      Accounts hardCapUsd { s with file := file, meter := none, interrupted := s.interrupted + usd } (m.charged usd) := by
  have hmost := h.atMost
  have hcharged := h.charged husd file
  refine ⟨⟨h.atLeast, ?_, h.highest, h.stopped⟩, ⟨?_, ?_, hcharged.highest, hcharged.stopped⟩⟩
  · change m.spentUsd ≤ s.returned + (s.interrupted + usd)
    linarith
  · have hleast := h.atLeast
    simp only [BudgetMeter.charged]
    linarith
  · simp only [BudgetMeter.charged]
    linarith

theorem stored_step {s t : BudgetRun} {e : BudgetEvent} (hs : Stored fm hardCapUsd s) (hok : WholeWrites fm hardCapUsd s e)
    (hstep : budgetStep fm hardCapUsd s e = some t) : Stored fm hardCapUsd t := by
  obtain ⟨m, hfile, hmeter, haccounts⟩ := hs
  have hlive : ∀ m', s.meter = some m' → m' = m := by
    intro m' h
    rcases hmeter with hnone | hsome
    · rw [hnone] at h
      exact nomatch h
    · exact Option.some.inj (h.symm.trans hsome)
  cases e with
  | opened =>
    simp only [budgetStep, hfile, Option.map_some] at hstep
    cases hstep
    exact ⟨m, hfile, .inr rfl, haccounts.observe⟩
  | died =>
    cases hstep
    exact ⟨m, hfile, .inl rfl, haccounts.atLeast, haccounts.atMost, haccounts.highest, haccounts.stopped⟩
  | charge usd updatedAt =>
    rw [budgetStep] at hstep
    cases hm : s.meter with
    | none => rw [hm] at hstep; exact nomatch hstep
    | some m' =>
      rw [hm, hlive m' hm] at hstep
      dsimp only at hstep
      split at hstep
      · exact nomatch hstep
      · next husd =>
        cases hstep
        exact ⟨m.charged usd, openMeter_stateText _ _, .inr rfl, (haccounts.charged (not_lt.mp husd) _).observe⟩
  | diedCharging usd updatedAt point =>
    rw [budgetStep] at hstep
    cases hm : s.meter with
    | none => rw [hm] at hstep; exact nomatch hstep
    | some m' =>
      rw [hm, hlive m' hm] at hstep
      dsimp only at hstep
      split at hstep
      · exact nomatch hstep
      · next husd =>
        cases hstep
        cases point with
        | beforeOpen => exact ⟨m, hfile, .inl rfl, (haccounts.interrupted (not_lt.mp husd) _).1⟩
        | writing n =>
          have hlength := hok m' hm
          rw [hlive m' hm] at hlength
          refine ⟨m.charged usd, ?_, .inl rfl, (haccounts.interrupted (not_lt.mp husd) _).2⟩
          simp only [DiedAt.leaves, List.take_of_length_le hlength]
          exact openMeter_stateText _ _

theorem stored_start : Stored fm hardCapUsd {} :=
  ⟨{}, rfl, .inl rfl, le_rfl, by simp, le_rfl, fun h => nomatch h⟩

theorem wholeWrites_of_survives {s t : BudgetRun} {e : BudgetEvent} (hstep : budgetStep fm hardCapUsd s e = some t)
    (ht : Survives fm hardCapUsd t) : WholeWrites fm hardCapUsd s e := by
  cases e with
  | opened | charge | died => trivial
  | diedCharging usd updatedAt point =>
    cases point with
    | beforeOpen => trivial
    | writing n =>
      intro m hm
      by_contra hshort
      rw [budgetStep, hm] at hstep
      dsimp only at hstep
      split at hstep
      · exact nomatch hstep
      · cases hstep
        obtain ⟨m', hopen, -⟩ := ht
        have hcut : openMeter fm (some (((m.charged usd).stateText fm hardCapUsd updatedAt).take n)) = some m' :=
          (hopen.resolve_left fun h => nomatch h).2
        rw [openMeter_cut (not_le.mp hshort)] at hcut
        exact nomatch hcut

theorem meets_of_everywhere {s : BudgetRun} {events : List BudgetEvent}
    (h : Runs.Everywhere (budgetStep fm hardCapUsd) (Survives fm hardCapUsd) s events) :
    Runs.Meets (budgetStep fm hardCapUsd) (WholeWrites fm hardCapUsd) s events := by
  induction events generalizing s with
  | nil => trivial
  | cons e events ih =>
    intro t hstep
    exact ⟨wholeWrites_of_survives hstep (Runs.everywhere_first (h.2 t hstep)), ih (h.2 t hstep)⟩

variable (fm hardCapUsd)

/-- The budget survives exactly the runs in which no process dies in the middle of a write. -/
theorem budget_survives_iff (events : List BudgetEvent) :
    Runs.Everywhere (budgetStep fm hardCapUsd) (Survives fm hardCapUsd) {} events ↔
      Runs.Meets (budgetStep fm hardCapUsd) (WholeWrites fm hardCapUsd) {} events := by
  constructor
  · exact meets_of_everywhere
  · intro h
    exact Runs.Everywhere.mono (fun _ => Stored.survives)
      (Runs.everywhere_of_meets (fun _ _ _ hs hok hstep => stored_step hs hok hstep) stored_start h)

/-- One dollar is written as Python writes it, other amounts by their number in a list of all. -/
def oneDollar : MoneyFormat where
  written q := if q = 1 then ⟨"1.0".toList, isNumeral_one⟩ else .ofNat (Encodable.encode q)
  amount
    | .number k => if k.text = "1.0".toList then some 1 else k.toInt?.bind fun z => Encodable.decode z.toNat
    | _ => none
  count
    | .number k => k.toInt?
    | _ => none
  amount_written q := by
    by_cases hq : q = 1
    · simp [hq]
    · have htext : (Numeral.ofNat (Encodable.encode q)).text ≠ "1.0".toList := by
        intro h
        have hpoint : '.' ∈ (Numeral.ofNat (Encodable.encode q)).text := by
          rw [h]
          decide
        exact absurd (toDigits_digits _ '.' hpoint) (by decide)
      simp only [if_neg hq, if_neg htext, toInt?_ofNat, Option.bind_some, Int.toNat_natCast, Encodable.encodek]
  count_ofInt z := toInt?_ofInt z

theorem empty_file_stays : ¬ Runs.Everywhere (budgetStep oneDollar 1) (Survives oneDollar 1) {}
    [.opened, .diedCharging 1 (.ofNat 0) (.writing 0)] := by
  intro h
  have hafter := h.2 _ rfl
  obtain ⟨m, hopen, -⟩ := Runs.everywhere_first (hafter.2 _ rfl)
  have hempty : openMeter oneDollar (some []) = some m := (hopen.resolve_left fun h => nomatch h).2
  exact nomatch hempty

end EvoHarness.Guard
