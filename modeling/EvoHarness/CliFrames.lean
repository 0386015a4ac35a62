import EvoHarness.Cli
import EvoHarness.Settled

/-! What each command does to a board that is open: whether it is refused, and what it
leaves of the goals, the scope and the header. -/
namespace EvoHarness.Proof
open PyText Hoare

section
variable {σ : Type} {env : Env σ} {cfg : Config} {maxAttempts : ℤ} {budgetSpent : ℚ} {level : Text}

theorem propagateLoop_answers (fuel : ℕ) (pending : List GoalId) (s : Store)
    (h : ∀ i ∈ pending, i < s.goals.length) :
    Triple (fun w : World σ => w.store = s) (propagateLoop maxAttempts budgetSpent level fuel pending)
      (fun _ _ => True) (fun _ => False) := by
  induction fuel generalizing pending s with
  | zero => exact Triple.pure fun _ _ => trivial
  | succ fuel ih =>
    cases pending with
    | nil => exact Triple.pure fun _ _ => trivial
    | cons i pending =>
      unfold propagateLoop
      refine Triple.bind (visit_exact i s (h i List.mem_cons_self)) fun parents => ?_
      intro w hv
      have hlen := hv.advances.length_goals
      have hnext : ∀ j ∈ parents.reverse ++ pending, j < w.store.goals.length := by
        intro j hj
        rw [hlen]
        cases List.mem_append.mp hj with
        | inl hj =>
          apply hv.parent_lt
          exact List.mem_reverse.mp hj
        | inr hj => exact h j (List.mem_cons_of_mem _ hj)
      exact ih _ w.store hnext w rfl

theorem propagateFrom_answers (i : GoalId) (s : Store) (hi : i < s.goals.length) :
    Triple (fun w : World σ => w.store = s) (propagateFrom env cfg i) (fun _ _ => True)
      (fun _ => False) := by
  unfold propagateFrom propagate
  refine Triple.bind read_at fun s' => Triple.assume fun hs' => ?_
  refine Triple.bind read_at fun t => Triple.assume fun ht => ?_
  rw [ht]
  have hpending : ∀ j ∈ [i], j < s.goals.length := by simpa using hi
  refine Triple.bind (propagateLoop_answers _ [i] s hpending) fun _ => ?_
  exact Triple.pure fun _ _ => trivial

theorem settle_answers (i : GoalId) (id : DecompositionId) (v : Validation) (s : Store)
    (hi : i < s.goals.length) :
    Triple (fun w : World σ => w.store = s) (settle env cfg i id v) (fun _ _ => True) (fun _ => False) := by
  have hwrite : Triple (fun w : World σ => w.store = s) (writeVerdict env cfg i id v)
      (fun _ _ => True) (fun _ => False) := by
    unfold writeVerdict
    refine Triple.bind read_at fun s' => Triple.assume fun hs' => ?_
    rw [hs']
    refine Triple.bind commit_at fun _ => ?_
    exact propagateFrom_answers i _ hi
  unfold settle
  by_cases hok : v.ok = true
  · rw [if_pos hok]
    have hnote : Triple (fun w : World σ => w.store = s) (noteValidated id)
        (fun _ w => w.store = s) (fun _ => False) := Triple.modify fun _ hw => hw
    refine Triple.bind hnote fun _ => ?_
    refine Triple.bind hwrite fun _ => ?_
    exact Triple.pure fun _ _ => trivial
  · rw [if_neg hok]
    refine Triple.bind hwrite fun _ => ?_
    exact Triple.pure fun _ _ => trivial

theorem recordDecomposition_answers (env : Env σ) (cfg : Config) (goal : Goal) (k : Sketch) (s : Store)
    (hgoal : goal.id < s.goals.length) (hk : k.subgoals ≠ []) :
    Triple (fun w : World σ => w.store = s) (recordDecomposition env cfg goal k)
      (fun _ _ => True) (fun _ => False) := by
  obtain ⟨g, hg⟩ := Store.exists_goal hgoal
  unfold recordDecomposition
  refine Triple.bind read_at fun s' => Triple.assume fun hs' => ?_
  rw [hs']
  have hcases : (∃ m, s.addDecomposition goal.id (k.subgoals.map fun p => (p.identity, p.signature))
        (some k) = .error (.cycleError m)) ∨
      ∃ t, s.addDecomposition goal.id (k.subgoals.map fun p => (p.identity, p.signature))
        (some k) = .ok t ∧ goal.id < t.goals.length := by
    have hne : (k.subgoals.map fun p => (p.identity, p.signature)) ≠ [] := by simpa using hk
    unfold Store.addDecomposition Store.checkDecomposition
    simp only [hne, if_false, hg]
    cases checkAcyclic_cases (g.identity :: s.ancestorIdentities goal.id)
        ((k.subgoals.map fun p => (p.identity, p.signature)).map Prod.fst) with
    | inl hok =>
      rw [hok]
      obtain ⟨t, ht⟩ := Store.writeDecomposition_ok hgoal
        (k.subgoals.map fun p => (p.identity, p.signature)) (some k) .proposed
      obtain ⟨u, ids, hgrow, _, _, hgoals, _⟩ := Store.writeDecomposition_spec ht
      refine Or.inr ⟨t, ht, ?_⟩
      rw [hgoals]
      exact hgoal.trans_le hgrow.length_le
    | inr hcycle =>
      obtain ⟨m, hm⟩ := hcycle
      rw [hm]
      exact Or.inl ⟨m, rfl⟩
  cases hcases with
  | inl h =>
    obtain ⟨m, hm⟩ := h
    rw [hm]
    exact Triple.pure fun _ _ => trivial
  | inr h =>
    obtain ⟨t, ht, hlt⟩ := h
    rw [ht]
    refine Triple.bind commit_at fun _ => ?_
    have hask : Triple (fun w : World σ => w.store = t) (ask (env.validateSketch goal k))
        (fun _ w => w.store = t) (fun _ => False) := Triple.call fun _ hw => hw
    refine Triple.bind hask fun verdict => ?_
    cases verdict with
    | error m => exact Triple.pure fun _ _ => trivial
    | ok v => exact settle_answers goal.id _ v t hlt

end

section
variable {σ : Type} (o : Outside σ) (scope : GraphScope) (d : Desk σ)

def Refused : CliCommand → Prop
  | .opening _ _ _ => False
  | .status goal => ∃ i, goal = some i ∧ d.board.store.goal i = none
  | .sketch i proposal _ _ =>
    d.board.store.goal i = none ∨ ∃ e, readProposal o proposal = .error e ∧ e.caught = true
  | .attack i budget n _ allow flags =>
    d.board.store.goal i = none ∨ o.credentials = false ∨
      ∃ e, (attackGoal o i budget n allow flags { store := d.board.store, env := d.env }).1 = .error e ∧
        (Failure.controller e).caught = true
  | .attempt i id _ => ∃ e, attemptView o d.board.store i id = .error e
  | .assemble i _ routes =>
    d.board.store.goal i = none ∨ ∃ g e, d.board.store.goal i = some g ∧ g.status = .proved ∧
      certify o.sha256 d.board.store i o.runner routes scope.policy (storedPreamble d.header) = .error e ∧
      ∀ j candidates, e ≠ .ambiguousRoute j candidates

/-- The text `assemble` would write, when it compiles and the policy takes its axioms. -/
def assembledText (i : GoalId) (routes : List DecompositionId) : Option Text :=
  match d.board.store.goal i with
  | none => none
  | some g =>
    if g.status ≠ .proved then none
    else match certify o.sha256 d.board.store i o.runner routes scope.policy (storedPreamble d.header) with
      | .error _ => none
      | .ok (result, _) => if result.ok then some result.text else none

def headerAfter : CliCommand → Option Text
  | .opening _ _ (some text) => some (writtenPreamble text)
  | .assemble i (some .header) routes => (assembledText o scope d i routes).orElse fun _ => d.header
  | _ => d.header

/-- No exception that `main` answers comes out of the controller's work. -/
def ControllerAnswers : CliCommand → Prop
  | .attack i budget n _ allow flags =>
    ∀ e, (attackGoal o i budget n allow flags { store := d.board.store, env := d.env }).1 = .error e →
      (Failure.controller e).caught = false
  | _ => True

structure Does (c : CliCommand) (r : Except Failure Unit × Desk σ) : Prop where
  refused_iff : exitCode r.1 = some 1 ↔ Refused o scope d c
  sameScope : r.2.board.scope = d.board.scope
  header : r.1 = .ok () → r.2.header = headerAfter o scope d c
  kept : exitCode r.1 = some 1 →
    r.2.header = d.header ∧ (ControllerAnswers o d c → r.2.board = d.board)

variable {o scope d}

theorem Does.refused {c : CliCommand} {e : Failure} (he : e.caught = true) (h : Refused o scope d c) :
    Does o scope d c (.error e, d) :=
  ⟨by simp [exitCode, he, h], rfl, by simp, fun _ => ⟨rfl, fun _ => rfl⟩⟩

theorem Does.left {c : CliCommand} {e : Failure} (he : e.caught = false) (h : ¬ Refused o scope d c) :
    Does o scope d c (.error e, d) :=
  ⟨by simp [exitCode, he, h], rfl, by simp, fun _ => ⟨rfl, fun _ => rfl⟩⟩

theorem Does.answered {c : CliCommand} {d' : Desk σ} (h : ¬ Refused o scope d c)
    (hscope : d'.board.scope = d.board.scope) (hheader : d'.header = headerAfter o scope d c) :
    Does o scope d c (.ok (), d') :=
  ⟨by simp [exitCode, h], hscope, fun _ => hheader, by simp [exitCode]⟩

theorem goalOf_none {i : GoalId} (h : d.board.store.goal i = none) :
    goalOf i d = (.error (.controller (Store.noSuchGoal i)), d) := by
  unfold goalOf
  rw [Prog.bind_ok Prog.get_run, h]
  rfl

theorem goalOf_some {i : GoalId} {g : Goal} (h : d.board.store.goal i = some g) :
    goalOf i d = (.ok g, d) := by
  unfold goalOf
  rw [Prog.bind_ok Prog.get_run, h]
  rfl

theorem hashMany_run (o : Outside σ) (scope : GraphScope) (d : Desk σ) (statements : List Text) :
    ∃ identities e, hashMany o scope statements d = (.ok identities, { d with env := e }) ∧
      identities.length = statements.length := by
  unfold hashMany
  cases scope.identityHasher with
  | exactText => exact ⟨_, d.env, rfl, by simp⟩
  | leanExpr => exact ⟨_, _, rfl, o.leanExpr_length _ _⟩

theorem cmdOpen_does (statement label : Text) (preamble : Option Text) :
    Does o scope d (.opening statement label preamble)
      (cmdOpen o scope (strip statement) label preamble d) := by
  obtain ⟨identities, e, hhash, _⟩ := hashMany_run o scope d [strip statement]
  unfold cmdOpen
  rw [Prog.bind_ok hhash, Prog.bind_ok Prog.get_run, Prog.bind_ok (m := writeStore _) rfl]
  simp only
  rw [Prog.bind_ok (m := addRoot _ _) rfl]
  cases preamble with
  | none => exact Does.answered (by simp [Refused]) rfl rfl
  | some text => exact Does.answered (by simp [Refused]) rfl rfl

theorem cmdStatus_does (goal : Option GoalId) :
    Does o scope d (.status goal) (cmdStatus goal d) := by
  cases goal with
  | none => exact Does.answered (by simp [Refused]) rfl rfl
  | some i =>
    show Does o scope d (.status (some i)) ((goalOf i >>= fun _ => pure ()) d)
    cases hg : d.board.store.goal i with
    | none =>
      rw [Prog.bind_error (goalOf_none hg)]
      exact Does.refused rfl ⟨i, rfl, hg⟩
    | some g =>
      rw [Prog.bind_ok (goalOf_some hg)]
      exact Does.answered (by simp [Refused, hg]) rfl rfl

theorem ofExcept_ok {α : Type} {a : α} : ofExcept (.ok a) d = (.ok a, d) := rfl

theorem ofExcept_error {α : Type} {e : Failure} : ofExcept (.error e : Except Failure α) d = (.error e, d) := rfl

theorem attemptView_error {s : Store} {i : GoalId} {id : Option ℕ} {e : Failure}
    (h : attemptView o s i id = .error e) : e.caught = true := by
  unfold attemptView at h
  repeat' split at h
  all_goals first
    | (obtain rfl := Except.error.inj h; rfl)
    | simp at h

theorem cmdAttempt_does (i : GoalId) (id : Option ℕ) (code : Bool) :
    Does o scope d (.attempt i id code) (cmdAttempt o i id d) := by
  unfold cmdAttempt
  rw [Prog.bind_ok Prog.get_run]
  cases h : attemptView o d.board.store i id with
  | error e =>
    rw [Prog.bind_error ofExcept_error]
    exact Does.refused (attemptView_error h) ⟨e, h⟩
  | ok a =>
    rw [Prog.bind_ok ofExcept_ok]
    exact Does.answered (by simp [Refused, h]) rfl rfl

theorem parseLemmas_length {parentName : Text} {seen : List Text} {items : List Json}
    {specs : List SubgoalSpec} (h : parseLemmas parentName seen items = .ok specs) :
    specs.length = items.length := by
  induction items generalizing seen specs with
  | nil =>
    obtain rfl := Except.ok.inj h
    rfl
  | cons item items ih =>
    unfold parseLemmas at h
    split at h
    · simp at h
    · split at h
      · simp at h
      · next later hlater =>
        obtain rfl := Except.ok.inj h
        simp [ih hlater]

theorem parseProposal_subgoals {loads : Text → Except Text Json} {text parentName preamble : Text}
    {goal : Goal} {k : Sketch} (h : parseProposal loads text goal parentName preamble = .ok k) :
    k.subgoals ≠ [] := by
  unfold parseProposal at h
  split at h
  · simp at h
  · next shown fields _ =>
    split at h
    · simp [proposalError] at h
    · simp [proposalError] at h
    · next lemmas body hlemmas _ =>
      split at h
      · simp [proposalError] at h
      · split at h
        · simp at h
        · next specs hspecs =>
          obtain rfl := Except.ok.inj h
          have hlen := parseLemmas_length hspecs
          have hne : lemmas ≠ [] := by
            unfold lemmasOf at hlemmas
            split at hlemmas
            · obtain rfl := Option.some.inj hlemmas
              simp
            · simp at hlemmas
          intro hnil
          apply hne
          apply List.length_eq_zero_iff.mp
          rw [← hlen, show specs = [] from hnil]
          rfl
  · simp [proposalError] at h

theorem controlled_ok {α : Type} {m : Ctl σ α} {a : α} {w : World σ}
    (h : m { store := d.board.store, env := d.env } = (.ok a, w)) :
    controlled m d =
      (.ok a, { d with board := { d.board with store := w.store }, env := w.env }) := by
  unfold controlled
  rw [h]

theorem controlled_error {α : Type} {m : Ctl σ α} {e : Fault} {w : World σ}
    (h : m { store := d.board.store, env := d.env } = (.error e, w)) :
    controlled m d =
      (.error (.controller e), { d with board := { d.board with store := w.store }, env := w.env }) := by
  unfold controlled
  rw [h]

theorem cmdSketch_does (i : GoalId) (proposal : Text) (preamble : Option Text) (flags : SolverFlags) :
    Does o scope d (.sketch i proposal preamble flags) (cmdSketch o scope i proposal preamble flags d) := by
  unfold cmdSketch
  cases hg : d.board.store.goal i with
  | none =>
    rw [Prog.bind_error (goalOf_none hg)]
    exact Does.refused rfl (Or.inl hg)
  | some g =>
    rw [Prog.bind_ok (goalOf_some hg)]
    cases hp : readProposal o proposal with
    | error e =>
      rw [Prog.bind_error ofExcept_error]
      cases he : e.caught with
      | true => exact Does.refused he (Or.inr ⟨e, hp, he⟩)
      | false => exact Does.left he (by simp [Refused, hg, hp, he])
    | ok payload =>
      have hnot : ¬ Refused o scope d (.sketch i proposal preamble flags) := by simp [Refused, hg, hp]
      rw [Prog.bind_ok ofExcept_ok, Prog.bind_ok Prog.get_run]
      cases hk : parseProposal o.loads (o.dumps payload) g (declarationName g.statement)
          (readPreamble preamble d.header) with
      | error m => exact Does.answered hnot rfl rfl
      | ok k =>
        obtain ⟨identities, e, hhash, hlen⟩ :=
          hashMany_run o scope d (k.subgoals.map (·.signature))
        simp only
        rw [Prog.bind_ok hhash]
        have hid : g.id = i := Store.goal_id hg
        have hgoal : g.id < d.board.store.goals.length := by
          rw [hid]
          exact Store.goal_lt hg
        have hsub : (k.withKeys identities).subgoals ≠ [] := by
          have hne := parseProposal_subgoals hk
          have hpos := List.length_pos_iff.mpr hne
          apply List.length_pos_iff.mp
          simp only [Sketch.withKeys, List.length_map, List.length_zip, hlen]
          omega
        have hrec := recordDecomposition_answers (validatingEnv o)
          (controllerConfig o flags) g (k.withKeys identities) d.board.store hgoal hsub
          { store := d.board.store, env := e } rfl
        cases hrun : recordDecomposition (validatingEnv o) (controllerConfig o flags) g
            (k.withKeys identities) { store := d.board.store, env := e } with
        | mk r w =>
          rw [hrun] at hrec
          cases r with
          | error f => exact hrec.elim
          | ok outcome =>
            rw [Prog.bind_ok (controlled_ok hrun)]
            exact Does.answered hnot rfl rfl

theorem cmdAttack_does (i : GoalId) (budget : ℚ) (n : ℕ) (preamble : Option Text) (allow : Bool)
    (flags : SolverFlags) :
    Does o scope d (.attack i budget n preamble allow flags) (cmdAttack o i budget n allow flags d) := by
  unfold cmdAttack
  cases hg : d.board.store.goal i with
  | none =>
    rw [Prog.bind_error (goalOf_none hg)]
    exact Does.refused rfl (Or.inl hg)
  | some g =>
    rw [Prog.bind_ok (goalOf_some hg)]
    cases hc : o.credentials with
    | false => exact Does.refused rfl (Or.inr (Or.inl hc))
    | true =>
      simp only [if_true]
      cases hrun : attackGoal o i budget n allow flags { store := d.board.store, env := d.env } with
      | mk r w =>
        cases r with
        | ok u =>
          rw [controlled_ok hrun]
          exact Does.answered (by simp [Refused, hg, hc, hrun]) rfl rfl
        | error e =>
          rw [controlled_error hrun]
          refine ⟨by simp [exitCode, Refused, hg, hc, hrun], rfl, by simp, fun hexit => ⟨rfl, ?_⟩⟩
          intro hanswers
          have hcaught := hanswers e (by rw [hrun])
          simp [exitCode, hcaught] at hexit

theorem cmdAssemble_does (i : GoalId) (out : Option OutPath) (routes : List DecompositionId) :
    Does o scope d (.assemble i out routes) (cmdAssemble o scope i out routes d) := by
  unfold cmdAssemble
  cases hg : d.board.store.goal i with
  | none =>
    rw [Prog.bind_error (goalOf_none hg)]
    exact Does.refused rfl (Or.inl hg)
  | some g =>
    rw [Prog.bind_ok (goalOf_some hg)]
    by_cases hst : g.status ≠ .proved
    · rw [if_pos hst]
      refine Does.answered (by simp [Refused, hg, hst]) rfl ?_
      cases out with
      | none => rfl
      | some p => cases p <;> simp [headerAfter, assembledText, hg, hst]
    · rw [if_neg hst, Prog.bind_ok Prog.get_run]
      rw [not_not] at hst
      simp only [readPreamble_none]
      cases hc : certify o.sha256 d.board.store i o.runner routes scope.policy
          (storedPreamble d.header) with
      | error e =>
        cases e with
        | ambiguousRoute j candidates =>
          refine Does.answered (by simp [Refused, hg, hc]) rfl ?_
          cases out with
          | none => rfl
          | some p => cases p <;> simp [headerAfter, assembledText, hg, hst, hc]
        | assemblyError m => exact Does.refused rfl (Or.inr ⟨g, _, hg, hst, hc, by simp⟩)
        | keyError m => exact Does.refused rfl (Or.inr ⟨g, _, hg, hst, hc, by simp⟩)
        | recursionError => exact Does.refused rfl (Or.inr ⟨g, _, hg, hst, hc, by simp⟩)
      | ok answer =>
        have hnot : ¬ Refused o scope d (.assemble i out routes) := by simp [Refused, hg, hc]
        simp only
        rw [Prog.bind_ok (Prog.modify_run _)]
        cases out with
        | none => exact Does.answered hnot rfl rfl
        | some p =>
          cases p with
          | elsewhere => exact Does.answered hnot rfl rfl
          | header =>
            cases hok : answer.1.ok with
            | true =>
              refine Does.answered hnot rfl ?_
              simp [headerAfter, assembledText, hg, hst, hc, hok]
            | false =>
              refine Does.answered hnot rfl ?_
              simp [headerAfter, assembledText, hg, hst, hc, hok]

theorem body_does (c : CliCommand) (d : Desk σ) : Does o scope d c (body o scope c d) := by
  cases c with
  | opening statement label preamble => exact cmdOpen_does statement label preamble
  | status goal => exact cmdStatus_does goal
  | sketch goal proposal preamble flags => exact cmdSketch_does goal proposal preamble flags
  | attack goal budget n preamble allow flags => exact cmdAttack_does goal budget n preamble allow flags
  | attempt goal id code => exact cmdAttempt_does goal id code
  | assemble goal out routes => exact cmdAssemble_does goal out routes

end

end EvoHarness.Proof
