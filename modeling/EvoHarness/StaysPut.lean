import EvoHarness.CliFrames

/-! When a command that fails leaves the board where it was. -/
namespace EvoHarness.Proof
open PyText Hoare

structure SameBoard (w w' : Workspace) : Prop where
  retired : w'.retired = w.retired
  header : w'.header = w.header
  graph : (w'.graph.map fun b => (b.scope, b.store.goals)) = w.graph.map fun b => (b.scope, b.store.goals)

theorem SameBoard.refl (w : Workspace) : SameBoard w w := ⟨rfl, rfl, rfl⟩

variable {σ : Type} (o : Outside σ) (f : Flags) (c : CliCommand) (s : Session σ)

def StaysPut : Prop := (main o f c s).1 = some 1 → SameBoard s.work (main o f c s).2.work

def Moves (w : Workspace) : Prop :=
  movesAside o f c.preamble w = .ok true ∧ (w.graph.isSome = true ∨ w.header.isSome = true)

/-- An `open` that no refusal stands in the way of where there is no board. -/
def OpensAnew : Prop :=
  ∃ statement label text ctx hasher, c = .opening statement label (some text) ∧
    preambleContext (strip text) = .ok ctx ∧ requestedHasher f = .ok hasher

def freshDesk (wanted : GraphScope) : Desk σ where
  board := { s.work.graph.getD {} with scope := some wanted }
  header := s.work.header
  env := s.env

structure Careful : Prop where
  moved : c.unreadable = none → Moves o f c s.work → OpensAnew f c
  recorded : c.unreadable = none → ¬ Moves o f c s.work →
    (∃ aside, movesAside o f c.preamble s.work = .ok aside) → s.work.readScope = none →
    ((s.work.graph.getD {}).store.goals = [] ∨ f.adoptScope = true) →
    ∀ wanted, wantedScope o f c.preamble s.work = .ok wanted →
      ¬ Refused o wanted (freshDesk s wanted) c

def AttackAnswers : Prop :=
  ∀ b scope, s.work.graph = some b → b.scope = some scope →
    ControllerAnswers o { board := b, header := s.work.header, env := s.env } c

variable {o f c s}

theorem main_unreadable {e : Failure} (h : c.unreadable = some e) : main o f c s = (some 1, s) := by
  have he : e.caught = true := by
    unfold CliCommand.unreadable at h
    repeat' split at h
    all_goals first
      | (obtain rfl := Option.some.inj h; rfl)
      | simp at h
  simp [main, invoke, h, exitCode, he]

section
variable {stated : Option Text} {w : Workspace} {aside : Bool}

theorem movesAside_error {e : Failure} (h : movesAside o f stated w = .error e) :
    openStore o f stated w = (.error e, w) := by
  simp [openStore, h]

theorem openStore_begun (h : movesAside o f stated w = .ok aside) :
    openStore o f stated w = openUnder o f stated (if aside then w.retire else w) := by
  simp [openStore, h]

theorem retire_of_empty (h : ¬ (w.graph.isSome = true ∨ w.header.isSome = true)) : w.retire = w := by
  have hg : w.graph.isNone = true ∧ w.header.isNone = true := by
    cases hgraph : w.graph <;> cases hheader : w.header <;> simp [hgraph, hheader] at h ⊢
  simp [Workspace.retire, hg]

theorem retire_of_some (h : w.graph.isSome = true ∨ w.header.isSome = true) :
    w.retire = { retired := (w.graph, w.header) :: w.retired } := by
  have hg : (w.graph.isNone && w.header.isNone) = false := by
    cases hgraph : w.graph <;> cases hheader : w.header <;> simp [hgraph, hheader] at h ⊢
  simp [Workspace.retire, hg]

theorem settleScope_new (wanted : GraphScope) {adopt : Bool} {b : Board} (hs : b.scope = none)
    (hb : b.store.goals = [] ∨ adopt = true) :
    settleScope wanted adopt b = .ok (wanted, { b with scope := some wanted }) := by
  have hnot : ¬ (b.store.goals ≠ [] ∧ adopt = false) := by
    intro h
    cases hb with
    | inl hb => exact h.1 hb
    | inr hb => simp [hb] at h
  simp [settleScope, hs, hnot]

theorem settleScope_stored {wanted stored : GraphScope} {adopt : Bool} {b : Board}
    {opened : GraphScope × Board} (hs : b.scope = some stored)
    (h : settleScope wanted adopt b = .ok opened) :
    opened = (stored, b) ∧ adopt = false ∧ stored.diff wanted = [] := by
  unfold settleScope at h
  rw [hs] at h
  simp only at h
  split at h
  · simp at h
  · next hadopt =>
    split at h
    · simp at h
    · next hdiff =>
      exact ⟨(Except.ok.inj h).symm, by simpa using hadopt, by simpa using hdiff⟩

theorem settleScope_unscoped {wanted : GraphScope} {adopt : Bool} {b : Board}
    {opened : GraphScope × Board} (hs : b.scope = none)
    (h : settleScope wanted adopt b = .ok opened) :
    opened = (wanted, { b with scope := some wanted }) ∧ (b.store.goals = [] ∨ adopt = true) := by
  by_cases hb : b.store.goals = [] ∨ adopt = true
  · rw [settleScope_new _ hs hb] at h
    exact ⟨(Except.ok.inj h).symm, hb⟩
  · rw [not_or] at hb
    have hadopt : adopt = false := by simpa using hb.2
    simp [settleScope, hs, hb.1, hadopt] at h

def Headed (stated : Option Text) (w : Workspace) : Prop :=
  (stated.isNone && w.readScope.isNone && !w.hasGoals) = false

theorem wantedScope_context {m : Text} (hb : Headed stated w)
    (h : preambleContext (readPreamble stated w.header) = .error m) :
    wantedScope o f stated w = .error (.valueError m) := by
  unfold Headed at hb
  simp [wantedScope, hb, h]

theorem wantedScope_hasher {ctx : PreambleContext} {e : Failure} (hb : Headed stated w)
    (h : preambleContext (readPreamble stated w.header) = .ok ctx) (hh : requestedHasher f = .error e) :
    wantedScope o f stated w = .error e := by
  unfold Headed at hb
  simp [wantedScope, hb, h, hh]

theorem wantedScope_stated {ctx : PreambleContext} {hasher : Option HasherName} (hb : Headed stated w)
    (h : preambleContext (readPreamble stated w.header) = .ok ctx) (hh : requestedHasher f = .ok hasher) :
    wantedScope o f stated w = .ok (GraphScope.resolve w.readScope o.environment
      (preambleSha256 o.sha256 (readPreamble stated w.header)) hasher f.minimumTrust) := by
  unfold Headed at hb
  simp [wantedScope, hb, h, hh]

theorem openUnder_refused {e : Failure} (h : wantedScope o f stated w = .error e) :
    openUnder o f stated w = (.error e, w) := by
  simp [openUnder, h]

theorem openUnder_wanted {wanted : GraphScope} (h : wantedScope o f stated w = .ok wanted) :
    (∃ e, settleScope wanted f.adoptScope (w.graph.getD {}) = .error e ∧
      openUnder o f stated w = (.error e, w)) ∨
    ∃ opened, settleScope wanted f.adoptScope (w.graph.getD {}) = .ok opened ∧
      openUnder o f stated w = (.ok opened, { w with graph := some opened.2 }) := by
  cases hs : settleScope wanted f.adoptScope (w.graph.getD {}) with
  | error e => exact Or.inl ⟨e, rfl, by simp [openUnder, h, hs]⟩
  | ok opened => exact Or.inr ⟨opened, rfl, by simp [openUnder, h, hs]⟩

theorem retired_openUnder : (openUnder o f stated w).2.retired = w.retired := by
  cases h : wantedScope o f stated w with
  | error e => rw [openUnder_refused h]
  | ok wanted =>
    cases openUnder_wanted h with
    | inl hs =>
      obtain ⟨e, _, hopen⟩ := hs
      rw [hopen]
    | inr hs =>
      obtain ⟨opened, _, hopen⟩ := hs
      rw [hopen]

end

section
variable {w : Workspace} {e : Failure} {opened : GraphScope × Board}

theorem main_refused (hc : c.unreadable = none) (h : openStore o f c.preamble s.work = (.error e, w)) :
    main o f c s = (exitCode (.error e), { s with work := w }) := by
  simp [main, invoke, hc, h]

theorem main_opened (hc : c.unreadable = none)
    (h : openStore o f c.preamble s.work = (.ok opened, w)) :
    let r := body o opened.1 c { board := opened.2, header := w.header, env := s.env }
    main o f c s =
      (exitCode r.1, { work := { w with graph := some r.2.board, header := r.2.header }, env := r.2.env }) := by
  simp [main, invoke, hc, h]

theorem retired_main (hc : c.unreadable = none) :
    (main o f c s).2.work.retired = (openStore o f c.preamble s.work).2.retired := by
  cases h : openStore o f c.preamble s.work with
  | mk r w =>
    cases r with
    | error e => rw [main_refused hc h]
    | ok opened => rw [main_opened hc h]

end

/-- Where there is no board and no header, only an `open` with a usable preamble goes through. -/
theorem exit_anew {w : Workspace} (hc : c.unreadable = none) (hgraph : w.graph = none)
    (hopen : openStore o f c.preamble s.work = openUnder o f c.preamble w) :
    (main o f c s).1 = some 1 ↔ ¬ OpensAnew f c := by
  have hscope : w.readScope = none := by simp [Workspace.readScope, hgraph]
  have hrefused : ∀ m, wantedScope o f c.preamble w = .error (.valueError m) → (main o f c s).1 = some 1 := by
    intro m hm
    rw [main_refused hc (hopen.trans (openUnder_refused hm))]
    rfl
  cases hp : c.preamble with
  | none =>
    have hgoals : w.hasGoals = false := by simp [Workspace.hasGoals, hgraph]
    constructor
    · intro _ h
      obtain ⟨_, _, text, _, _, rfl, _⟩ := h
      simp [CliCommand.preamble] at hp
    · intro _
      apply hrefused
      rw [hp, wantedScope]
      simp only [hscope, hgoals, Option.isNone_none, Bool.not_false, Bool.and_self, if_true]
      rfl
  | some text =>
    have hb : Headed (some text) w := rfl
    rw [hp] at hrefused
    cases hctx : preambleContext (strip text) with
    | error m =>
      constructor
      · intro _ h
        obtain ⟨_, _, text', _, _, rfl, hok, _⟩ := h
        obtain rfl : text' = text := by simpa [CliCommand.preamble] using hp
        simp [hctx] at hok
      · intro _
        exact hrefused m (wantedScope_context hb hctx)
    | ok ctx =>
      cases hh : requestedHasher f with
      | error e =>
        constructor
        · intro _ h
          obtain ⟨_, _, _, _, _, _, _, hok⟩ := h
          simp [hh] at hok
        · intro _
          have he : e = hashersContradict := by
            unfold requestedHasher at hh
            repeat' split at hh
            all_goals first
              | exact (Except.error.inj hh).symm
              | simp at hh
          rw [he] at hh
          exact hrefused _ (wantedScope_hasher hb hctx hh)
      | ok hasher =>
        rw [hp] at hopen
        cases openUnder_wanted (o := o) (wantedScope_stated hb hctx hh) with
        | inl hs =>
          obtain ⟨e, hs, _⟩ := hs
          rw [hgraph, settleScope_new _ rfl (Or.inl rfl)] at hs
          simp at hs
        | inr hs =>
          obtain ⟨opened, hs, hunder⟩ := hs
          rw [hgraph, settleScope_new _ rfl (Or.inl rfl)] at hs
          obtain rfl := (Except.ok.inj hs).symm
          rw [main_opened hc (by rw [hp]; exact hopen.trans hunder)]
          rw [(body_does c _).refused_iff]
          cases c with
          | opening st lb p =>
            obtain rfl : p = some text := hp
            constructor
            · intro h
              exact h.elim
            · intro h
              exact (h ⟨st, lb, text, ctx, hasher, rfl, hctx, hh⟩).elim
          | sketch i proposal p flags =>
            constructor
            · intro _ h
              obtain ⟨_, _, _, _, _, heq, _⟩ := h
              simp at heq
            · intro _
              exact Or.inl rfl
          | attack i budget n p allow flags =>
            constructor
            · intro _ h
              obtain ⟨_, _, _, _, _, heq, _⟩ := h
              simp at heq
            · intro _
              exact Or.inl rfl
          | status i => simp [CliCommand.preamble] at hp
          | attempt i id code => simp [CliCommand.preamble] at hp
          | assemble i out routes => simp [CliCommand.preamble] at hp

theorem staysPut_of_moves (hc : c.unreadable = none) (hm : Moves o f c s.work) :
    StaysPut o f c s ↔ OpensAnew f c := by
  have hopen : openStore o f c.preamble s.work = openUnder o f c.preamble s.work.retire :=
    openStore_begun hm.1
  have hretire := retire_of_some hm.2
  have hexit : (main o f c s).1 = some 1 ↔ ¬ OpensAnew f c := by
    apply exit_anew hc _ hopen
    rw [hretire]
  have hgone : ¬ SameBoard s.work (main o f c s).2.work := by
    intro h
    have hr := h.retired
    rw [retired_main hc, hopen, retired_openUnder, hretire] at hr
    have hlen := congrArg List.length hr
    simp at hlen
  constructor
  · intro h
    by_contra hnot
    exact hgone (h (hexit.mpr hnot))
  · intro h hone
    exact ((hexit.mp hone) h).elim

theorem openStore_of_not_moves {aside : Bool} (hm : ¬ Moves o f c s.work)
    (h : movesAside o f c.preamble s.work = .ok aside) :
    openStore o f c.preamble s.work = openUnder o f c.preamble s.work := by
  rw [openStore_begun h]
  cases aside with
  | false => rfl
  | true =>
    have hempty : ¬ (s.work.graph.isSome = true ∨ s.work.header.isSome = true) := fun hs => hm ⟨h, hs⟩
    simp [retire_of_empty hempty]

theorem readScope_eq (w : Workspace) : w.readScope = (w.graph.getD {}).scope := by
  cases h : w.graph <;> simp [Workspace.readScope, h]

theorem staysPut_of_records {wanted : GraphScope} (hc : c.unreadable = none)
    (hscope : s.work.readScope = none)
    (hopen : openStore o f c.preamble s.work =
      (.ok (wanted, (freshDesk s wanted).board), { s.work with graph := some (freshDesk s wanted).board })) :
    StaysPut o f c s ↔ ¬ Refused o wanted (freshDesk s wanted) c := by
  have hdoes : Does o wanted (freshDesk s wanted) c (body o wanted c (freshDesk s wanted)) := body_does c _
  have hmain := main_opened hc hopen
  have hexit : (main o f c s).1 = some 1 ↔ Refused o wanted (freshDesk s wanted) c := by
    rw [hmain]
    exact hdoes.refused_iff
  have hnew : ¬ SameBoard s.work (main o f c s).2.work := by
    intro h
    have hg := h.graph
    rw [hmain] at hg
    have hbody : (body o wanted c (freshDesk s wanted)).2.board.scope = some wanted := hdoes.sameScope
    cases hgraph : s.work.graph with
    | none => simp [hgraph] at hg
    | some b =>
      rw [hgraph] at hg
      have hb : (body o wanted c (freshDesk s wanted)).2.board.scope = b.scope :=
        (Prod.mk.inj (Option.some.inj hg)).1
      rw [readScope_eq, hgraph] at hscope
      rw [hbody] at hb
      simp [← hb] at hscope
  constructor
  · intro h hr
    exact hnew (h (hexit.mpr hr))
  · intro h hone
    exact (h (hexit.mp hone)).elim

theorem staysPut_of_scoped {b : Board} {stored : GraphScope} (hc : c.unreadable = none)
    (hgraph : s.work.graph = some b)
    (hopen : openStore o f c.preamble s.work = (.ok (stored, b), { s.work with graph := some b }))
    (hanswers : ControllerAnswers o { board := b, header := s.work.header, env := s.env } c) :
    StaysPut o f c s := by
  let d : Desk σ := { board := b, header := s.work.header, env := s.env }
  have hdoes : Does o stored d c (body o stored c d) := body_does c d
  have hmain := main_opened hc hopen
  intro hone
  rw [hmain] at hone ⊢
  obtain ⟨hheader, hboard⟩ := hdoes.kept hone
  have hsame := hboard hanswers
  refine ⟨rfl, hheader, ?_⟩
  rw [hgraph]
  exact congrArg (fun b : Board => some (b.scope, b.store.goals)) hsame

theorem staysPut_of_not_moves (hc : c.unreadable = none) (hm : ¬ Moves o f c s.work) :
    (Careful o f c s → AttackAnswers o c s → StaysPut o f c s) ∧ (StaysPut o f c s → Careful o f c s) := by
  have hrefused : ∀ e, openStore o f c.preamble s.work = (.error e, s.work) → StaysPut o f c s := by
    intro e h _
    rw [main_refused hc h]
    exact SameBoard.refl _
  cases haside : movesAside o f c.preamble s.work with
  | error e =>
    refine ⟨fun _ _ => hrefused e (movesAside_error haside), fun _ => ⟨fun _ h => (hm h).elim, ?_⟩⟩
    intro _ _ h
    obtain ⟨aside, h⟩ := h
    simp [haside] at h
  | ok aside =>
    have hunder := openStore_of_not_moves hm haside
    have hopen : ∀ wanted, wantedScope o f c.preamble s.work = .ok wanted → s.work.readScope = none →
        ((s.work.graph.getD {}).store.goals = [] ∨ f.adoptScope = true) →
        (StaysPut o f c s ↔ ¬ Refused o wanted (freshDesk s wanted) c) := by
      intro wanted hwanted hscope hgoals
      apply staysPut_of_records hc hscope
      have hsettle := settleScope_new wanted (readScope_eq s.work ▸ hscope) hgoals
      rw [hunder]
      simp [openUnder, hwanted, hsettle, freshDesk]
    constructor
    · intro hcareful hanswers
      cases hwanted : wantedScope o f c.preamble s.work with
      | error e => exact hrefused e (hunder.trans (openUnder_refused hwanted))
      | ok wanted =>
        cases openUnder_wanted (o := o) hwanted with
        | inl h =>
          obtain ⟨e, _, h⟩ := h
          exact hrefused e (hunder.trans h)
        | inr h =>
          obtain ⟨opened, hsettle, h⟩ := h
          cases hscope : s.work.readScope with
          | none =>
            have hgoals := (settleScope_unscoped (readScope_eq s.work ▸ hscope) hsettle).2
            rw [hopen wanted hwanted hscope hgoals]
            exact hcareful.recorded hc hm ⟨aside, haside⟩ hscope hgoals wanted hwanted
          | some stored =>
            obtain ⟨b, hgraph, hb⟩ := Option.bind_eq_some_iff.mp hscope
            rw [hgraph] at hsettle
            obtain ⟨rfl, _, _⟩ := settleScope_stored hb hsettle
            exact staysPut_of_scoped hc hgraph (hunder.trans h) (hanswers b stored hgraph hb)
    · intro h
      refine ⟨fun _ hmoves => (hm hmoves).elim, ?_⟩
      intro _ _ _ hscope hgoals wanted hwanted
      exact (hopen wanted hwanted hscope hgoals).mp h

/-- A command that fails leaves the board where it was exactly if it is careful; for an
attack on a board with its scope this asks that the controller's work raises nothing. -/
theorem stays_put_iff_careful (o : Outside σ) (f : Flags) (c : CliCommand) (s : Session σ) :
    (AttackAnswers o c s → (StaysPut o f c s ↔ Careful o f c s)) ∧
      (StaysPut o f c s → Careful o f c s) := by
  cases hc : c.unreadable with
  | some e =>
    have hput : StaysPut o f c s := by
      intro _
      rw [main_unreadable hc]
      exact SameBoard.refl _
    have hcareful : Careful o f c s := ⟨by simp [hc], by simp [hc]⟩
    exact ⟨fun _ => ⟨fun _ => hcareful, fun _ => hput⟩, fun _ => hcareful⟩
  | none =>
    by_cases hm : Moves o f c s.work
    · have hiff : StaysPut o f c s ↔ Careful o f c s := by
        rw [staysPut_of_moves hc hm]
        constructor
        · intro h
          exact ⟨fun _ _ => h, fun _ hnot => (hnot hm).elim⟩
        · intro h
          exact h.moved hc hm
      exact ⟨fun _ => hiff, hiff.mp⟩
    · have h := staysPut_of_not_moves hc hm
      exact ⟨fun hanswers => ⟨h.2, fun hcareful => h.1 hcareful hanswers⟩, h.2⟩

def bareOutside : Outside Unit where
  sha256 := id
  environment := "local:bare".toList
  env := twoRoutesEnv
  owner := "cli".toList
  leanExpr l e := (l, e)
  leanExpr_length _ _ := rfl
  loads _ := .ok (.other [])
  dumps _ := []
  stdin := []
  readFile path := .error (.osError path)
  credentials := false
  runner := rootReport
  candidates _ := .ok ()

/-- A board under the header `import Mathlib`, with no goal on it. -/
def mathlibBoard : Session Unit where
  work :=
    { graph := some
        { scope := some
            { environment := "local:bare".toList, policy := ⟨.audited, Trust.audited_ne_tainted⟩
              preambleSha256 := "import Mathlib".toList } }
      header := some "import Mathlib\n".toList }
  env := ()

theorem stays_put_unknown_goal :
    StaysPut bareOutside {} (.status (some 5)) mathlibBoard := by
  apply ((stays_put_iff_careful bareOutside {} (.status (some 5)) mathlibBoard).1 ?_).mpr
  · refine ⟨fun _ h => ?_, fun _ _ _ h => ?_⟩
    · have hm : movesAside bareOutside {} (CliCommand.status (some 5)).preamble mathlibBoard.work = .ok false :=
        rfl
      have hno := hm.symm.trans h.1
      simp at hno
    · simp [Workspace.readScope, mathlibBoard] at h
  · intro b scope _ _
    trivial

/-- `--force-new-graph status` moves the board aside, and then finds there is none. -/
theorem status_moves_board_aside :
    ¬ StaysPut bareOutside { forceNewGraph := true } (.status none) mathlibBoard := by
  intro h
  have hone : (main bareOutside { forceNewGraph := true } (.status none) mathlibBoard).1 = some 1 := by
    decide
  have hr := congrArg List.length (h hone).retired
  revert hr
  decide

end EvoHarness.Proof
