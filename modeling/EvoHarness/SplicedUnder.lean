import EvoHarness.Assemblable
import EvoHarness.SolveLoop

/-! Whose names a spliced body speaks of: the proof comes from the goal an identity stands
for, the signature it is put under from the sketch that cites it. -/
namespace EvoHarness.Proof
open PyText Runs

namespace Store

def statementOf (s : Store) (i : GoalId) : Option Text := (s.goal i).map (·.statement)

/-- What each decomposition says of its lemmas: the sketch, and the goals they resolved to. -/
def links (s : Store) : List (Option Sketch × List GoalId) := s.decompositions.map fun d => (d.sketch, d.subgoalIds)

/-- The assembly of goal `i` puts the proof of goal `j` under this lemma's signature. -/
def Splices (s : Store) (named : GoalId → Option DecompositionId) (i : GoalId) (spec : SubgoalSpec) (j : GoalId)
    (proof : Text) : Prop :=
  (spec, j) ∈ s.lemmasAt named i ∧ named j = none ∧ s.proofOf j = some proof

structure Carries (s t : Store) : Prop where
  statement : ∀ i x, s.statementOf i = some x → t.statementOf i = some x
  links : t.links = s.links

variable {s t u : Store}

theorem Carries.refl (s : Store) : Carries s s := ⟨fun _ _ => id, rfl⟩

theorem Carries.trans (h : Carries s t) (h' : Carries t u) : Carries s u :=
  ⟨fun i x hx => h'.statement i x (h.statement i x hx), h'.links.trans h.links⟩

theorem carries_insertGoal (s : Store) (identity statement : Text) : Carries s (s.insertGoal identity statement) where
  statement i x hx := by
    obtain ⟨g, hg, hst⟩ := Option.map_eq_some_iff.mp hx
    rw [statementOf, goal_insertGoal_of_goal hg]
    exact congrArg some hst
  links := by rw [links, links, insertGoal_decompositions]

theorem carries_updateGoal (s : Store) (j : GoalId) (f : Goal → Goal) {hid : ∀ g, (f g).id = g.id}
    {hident : ∀ g, (f g).identity = g.identity} (hf : ∀ g, (f g).statement = g.statement) :
    Carries s (s.updateGoal j f hid hident) where
  statement i x hx := by
    rw [statementOf, goal_updateGoal]
    split
    · rw [Option.map_map]
      rw [statementOf] at hx
      simpa [Function.comp_def, hf] using hx
    · exact hx
  links := rfl

theorem carries_setDecompositionStatus (s : Store) (k : DecompositionId) (st : DecompositionStatus) (r : Text) :
    Carries s (s.setDecompositionStatus k st r) where
  statement _ _ hx := hx
  links := map_withStatus (fun _ => rfl) s.decompositions k

theorem carries_recordAttempt {a : Attempt} (h : s.recordAttempt a = .ok t) : Carries s t := by
  obtain ⟨hgoals, hrows, _⟩ := recordAttempt_spec h
  refine ⟨fun i x hx => ?_, by rw [links, links, hrows]⟩
  rw [statementOf, goal, hgoals]
  exact hx

theorem carries_setLease (s : Store) (i : GoalId) (o : Option Text) (e : Option ℚ) (r : Option Text) :
    Carries s (s.setLease i o e r) :=
  carries_updateGoal s i _ fun _ => rfl

theorem carries_setGoalStatus (s : Store) (i : GoalId) (st : GoalStatus) (b : Option ℚ) (v : Option Text) :
    Carries s (s.setGoalStatus i st b v) :=
  carries_updateGoal s i _ fun _ => rfl

theorem carries_claim (s : Store) (i : GoalId) (owner : Text) (ttl now : ℚ) : Carries s (s.claim i owner ttl now).1 := by
  unfold claim
  repeat' split
  · exact .refl s
  · exact carries_setLease ..
  · exact .refl s

theorem carries_release (s : Store) (i : GoalId) (owner : Text) : Carries s (s.release i owner) := by
  unfold release
  repeat' split
  · exact .refl s
  · exact carries_setLease ..
  · exact .refl s

theorem carries_propagated (s : Store) (n : ℤ) (v : Text) (i : GoalId) : Carries s (s.propagated n v i) :=
  propagated_holds (P := Carries s) (fun t k st r h => h.trans (carries_setDecompositionStatus t k st r))
    (fun t j st b v h => h.trans (carries_setGoalStatus t j st b v)) (.refl s) n v i

/-- Whatever goal a lemma's identity stands for, or comes to stand for with this sketch, is
stated with the names the lemma's own signature binds. `bound` reads those names. -/
def namesFit (bound : Text → List Text) (s : Store) (k : Sketch) : Bool :=
  k.subgoals.all fun p =>
    (s.goals.all fun g => g.identity ≠ p.identity || bound p.signature = bound g.statement) &&
      k.subgoals.all fun q => p.identity ≠ q.identity || bound p.signature = bound q.signature

theorem namesFit_iff {bound : Text → List Text} {k : Sketch} : namesFit bound s k = true ↔ ∀ p ∈ k.subgoals,
    (∀ g ∈ s.goals, g.identity = p.identity → bound p.signature = bound g.statement) ∧
      ∀ q ∈ k.subgoals, p.identity = q.identity → bound p.signature = bound q.signature := by
  simp only [namesFit, List.all_eq_true, Bool.and_eq_true, Bool.or_eq_true, decide_eq_true_eq, imp_iff_not_or]

theorem mem_goals_insertGoal {identity statement : Text} {g : Goal} (h : g ∈ (s.insertGoal identity statement).goals) :
    g ∈ s.goals ∨ (g.identity = identity ∧ g.statement = statement) := by
  unfold insertGoal at h
  split at h
  · exact Or.inl h
  · cases List.mem_append.mp h with
    | inl h => exact Or.inl h
    | inr h =>
      rw [List.mem_singleton.mp h]
      exact Or.inr ⟨rfl, rfl⟩

theorem mem_goals_insertSubgoals {ps : List (Text × Text)} {g : Goal} (h : g ∈ (s.insertSubgoals ps).1.goals) :
    g ∈ s.goals ∨ (g.identity, g.statement) ∈ ps := by
  induction ps generalizing s with
  | nil => exact Or.inl h
  | cons p ps ih =>
    cases ih h with
    | inr hps => exact Or.inr (List.mem_cons_of_mem _ hps)
    | inl hmem =>
      cases mem_goals_insertGoal hmem with
      | inl h => exact Or.inl h
      | inr h =>
        rw [h.1, h.2]
        exact Or.inr (List.mem_cons_self ..)

theorem writeDecomposition_links {i : GoalId} {k : Sketch}
    (h : s.writeDecomposition i (SolveLoop.subgoalsOf k) (some k) = .ok t) :
    ∃ ids, t.links = s.links ++ [(some k, ids)] ∧ ids.map t.identityOf = k.subgoals.map (·.identity) ∧
      (∀ j ∈ ids, j < t.goals.length) ∧ (∀ g ∈ t.goals, g ∈ s.goals ∨ (g.identity, g.statement) ∈ SolveLoop.subgoalsOf k) ∧
      ∀ j x, s.statementOf j = some x → t.statementOf j = some x := by
  obtain ⟨hgrow, hids, hrows⟩ := insertSubgoals_spec s (SolveLoop.subgoalsOf k)
  unfold writeDecomposition insertDecomposition at h
  dsimp only at h
  split at h
  · next u hu =>
    split at hu
    · next hlt =>
      have hidentity : (SolveLoop.subgoalsOf k).map Prod.fst = k.subgoals.map (·.identity) := by
        simp [SolveLoop.subgoalsOf, Function.comp_def]
      rw [hidentity] at hids
      rw [← Option.some.inj hu] at h
      rw [← Except.ok.inj h]
      refine ⟨_, ?_, hids, hlt.2, fun g hg => mem_goals_insertSubgoals hg, ?_⟩
      · simp [links, hgrow.decompositions]
      · intro j x hx
        obtain ⟨g, hg, hst⟩ := Option.map_eq_some_iff.mp hx
        have hkept := hgrow.kept j g hg
        exact (congrArg (Option.map (·.statement)) hkept).trans (congrArg some hst)
    · cases hu
  · cases h

/-- Each lemma that was recorded is stated by its goal with the names its signature binds. -/
def NamesAgree (bound : Text → List Text) (s : Store) : Prop :=
  ∀ l ∈ s.links, ∀ k, l.1 = some k → ∀ q ∈ k.subgoals.zip l.2, ∀ x, s.statementOf q.2 = some x →
    bound q.1.signature = bound x

variable {bound : Text → List Text}

theorem statementOf_of_link {l : Option Sketch × List GoalId} (hl : l ∈ s.links) {j : GoalId} (hj : j ∈ l.2) :
    ∃ x, s.statementOf j = some x := by
  obtain ⟨d, hd, rfl⟩ := List.mem_map.mp hl
  obtain ⟨g, hg⟩ := exists_goal (s.subgoal_goal d.subgoalIds (List.mem_map_of_mem hd) j hj)
  exact ⟨g.statement, by rw [statementOf, hg]; rfl⟩

theorem NamesAgree.carries (h : s.NamesAgree bound) (ht : Carries s t) : t.NamesAgree bound := by
  intro l hl k hk q hq x hx
  rw [ht.links] at hl
  obtain ⟨y, hy⟩ := statementOf_of_link hl (List.of_mem_zip hq).2
  rw [ht.statement _ y hy] at hx
  rw [← Option.some.inj hx]
  exact h l hl k hk q hq y hy

theorem eq_of_mem_zip {α β γ : Type} {f : α → γ} {g : β → γ} {as : List α} {bs : List β}
    (h : bs.map g = as.map f) {q : α × β} (hq : q ∈ as.zip bs) : g q.2 = f q.1 := by
  induction as generalizing bs with
  | nil => cases hq
  | cons a as ih =>
    cases bs with
    | nil => cases hq
    | cons b bs =>
      obtain ⟨hhead, htail⟩ := List.cons.inj h
      cases List.mem_cons.mp hq with
      | inl hq =>
        rw [hq]
        exact hhead
      | inr hq => exact ih htail hq

theorem NamesAgree.write (h : s.NamesAgree bound) {i : GoalId} {k : Sketch} (hk : namesFit bound s k = true)
    (ht : s.writeDecomposition i (SolveLoop.subgoalsOf k) (some k) = .ok t) : t.NamesAgree bound := by
  obtain ⟨ids, hlinks, hids, hlt, hgoals, hstatement⟩ := writeDecomposition_links ht
  intro l hl e he q hq x hx
  rw [hlinks] at hl
  cases List.mem_append.mp hl with
  | inl hold =>
    obtain ⟨y, hy⟩ := statementOf_of_link hold (List.of_mem_zip hq).2
    rw [hstatement _ y hy] at hx
    rw [← Option.some.inj hx]
    exact h l hold e he q hq y hy
  | inr hnew =>
    rw [List.mem_singleton.mp hnew] at he hq
    rw [← Option.some.inj he] at hq
    obtain ⟨g, hg, hst⟩ := Option.map_eq_some_iff.mp hx
    have hidentity : g.identity = q.1.identity := by
      rw [← identityOf_goal hg]
      exact eq_of_mem_zip hids hq
    obtain ⟨hstated, hwithin⟩ := namesFit_iff.mp hk q.1 (List.of_mem_zip hq).1
    rw [← hst]
    cases hgoals g (List.mem_of_getElem? hg) with
    | inl hold => exact hstated g hold hidentity
    | inr hlemma =>
      obtain ⟨p, hp, hpair⟩ := List.mem_map.mp hlemma
      rw [← (Prod.mk.inj hpair).2]
      exact hwithin p hp (hidentity.symm.trans (Prod.mk.inj hpair).1.symm)

end Store

namespace SolveLoop

/-- A step of a controller either carries the graph on or writes the decomposition it holds. -/
theorem act_writes {me : Party} {s t : Store} {ph ph' : Phase} {a : Action} (h : act me s ph a = some (t, ph')) :
    Store.Carries s t ∨ ∃ l j first k, ph = .working l j (.writing first k) ∧ a = .write ∧
      s.writeDecomposition j.goal (subgoalsOf k) (some k) = .ok t := by
  cases a with
  | write =>
    simp only [act] at h
    split at h
    · next l j first k =>
      split at h
      · next s' hwrite =>
        rw [← (Prod.mk.inj (Option.some.inj h)).1]
        exact Or.inr ⟨l, j, first, k, rfl, rfl, hwrite⟩
      · rw [← (Prod.mk.inj (Option.some.inj h)).1]
        exact Or.inl (.refl s)
    · cases h
  | claim choice now =>
    simp only [act] at h
    split at h
    · split at h
      · split at h
        · next hclaim =>
          have hcarries := s.carries_claim choice.id me.owner me.leaseTtl now
          rw [hclaim] at hcarries
          rw [← (Prod.mk.inj (Option.some.inj h)).1]
          exact Or.inl hcarries
        · next hclaim =>
          have hcarries := s.carries_claim choice.id me.owner me.leaseTtl now
          rw [hclaim] at hcarries
          rw [← (Prod.mk.inj (Option.some.inj h)).1]
          exact Or.inl hcarries
      · cases h
    · cases h
  | _ =>
    simp only [act] at h
    repeat' split at h
    all_goals simp only [Option.some.injEq, Prod.mk.injEq, reduceCtorEq] at h
    all_goals obtain ⟨rfl, rfl⟩ := h
    all_goals first
      | exact Or.inl (.refl _)
      | exact Or.inl (Store.carries_setDecompositionStatus ..)
      | exact Or.inl (Store.carries_recordAttempt (by assumption))
      | exact Or.inl (Store.carries_setLease ..)
      | exact Or.inl (Store.carries_propagated ..)
      | exact Or.inl (Store.carries_release ..)
      | exact Or.inl (Store.carries_updateGoal _ _ _ fun _ => rfl)

def Action.hashedBy (hasher : Text → Text) : Action → Action
  | .propose (some k) => .propose (some (k.withIdentities hasher))
  | a => a

section
variable {ω : Type} [DecidableEq ω]

/-- A graph built with one hasher: somebody puts a goal on the board, or a controller takes a step. -/
def build (hasher : Text → Text) (party : ω → Party) (net : Net ω) : Text ⊕ (ω × Action) → Option (Net ω)
  | .inl statement => some { net with store := net.store.insertGoal (hasher statement) statement }
  | .inr l => step party net (l.1, l.2.hashedBy hasher)

def writesFit (bound : Text → List Text) (net : Net ω) : Text ⊕ (ω × Action) → Bool
  | .inr (w, .write) =>
    match net.phase w with
    | .working _ _ (.writing _ k) => net.store.namesFit bound k
    | _ => true
  | _ => true

variable {hasher : Text → Text} {party : ω → Party} {bound : Text → List Text}

theorem build_writes (bound : Text → List Text) {net t : Net ω} {l : Text ⊕ (ω × Action)} (h : build hasher party net l = some t) :
    Store.Carries net.store t.store ∨ ∃ i k, (writesFit bound net l = true → net.store.namesFit bound k = true) ∧
      net.store.writeDecomposition i (subgoalsOf k) (some k) = .ok t.store := by
  cases l with
  | inl statement =>
    rw [← Option.some.inj h]
    exact Or.inl (Store.carries_insertGoal ..)
  | inr l =>
    obtain ⟨s, ph, hact, hstore, _, _⟩ := step_cases h
    rw [hstore]
    cases act_writes hact with
    | inl hcarries => exact Or.inl hcarries
    | inr hwrites =>
      obtain ⟨loop, j, first, k, hph, ha, hwrite⟩ := hwrites
      refine Or.inr ⟨j.goal, k, ?_, hwrite⟩
      obtain ⟨w, a⟩ := l
      have ha : a = .write := by
        cases a with
        | propose k => cases k <;> cases ha
        | _ => exact ha
      rw [ha]
      intro hfit
      unfold writesFit at hfit
      dsimp only at hfit
      rw [hph] at hfit
      exact hfit

theorem namesAgree_build (net : Net ω) (l : Text ⊕ (ω × Action)) (t : Net ω) (h : net.store.NamesAgree bound)
    (hfit : writesFit bound net l = true) (ht : build hasher party net l = some t) : t.store.NamesAgree bound := by
  cases build_writes bound ht with
  | inl hcarries => exact h.carries hcarries
  | inr hwrite =>
    obtain ⟨i, k, hk, hwrite⟩ := hwrite
    exact h.write (hk hfit) hwrite

theorem statementOf_run {net t : Net ω} {ls : List (Text ⊕ (ω × Action))} (hrun : run (build hasher party) net ls = some t)
    {j : GoalId} {x : Text} (hx : net.store.statementOf j = some x) : t.store.statementOf j = some x := by
  apply run_invariant (I := fun n : Net ω => n.store.statementOf j = some x) _ hx hrun
  intro n l u hn hu
  cases build_writes (fun _ => []) hu with
  | inl hcarries => exact hcarries.statement j x hn
  | inr hwrite =>
    obtain ⟨i, k, _, hwrite⟩ := hwrite
    obtain ⟨_, _, _, _, _, hstatement⟩ := Store.writeDecomposition_links hwrite
    exact hstatement j x hn

/-- Where every sketch that was written binds the names of the goals it resolved to, every
spliced body stands under a signature with the names of the statement it was proved under:
`m` is the graph as it was at any moment the goal was on it. -/
theorem spliced_names_agree (bound : Text → List Text) (hasher : Text → Text) (party : ω → Party)
    (earlier later : List (Text ⊕ (ω × Action))) (m t : Net ω)
    (hm : run (build hasher party) (start Store.empty) earlier = some m) (ht : run (build hasher party) m later = some t)
    (hfit : Meets (build hasher party) (fun net l => writesFit bound net l) (start Store.empty) (earlier ++ later))
    (named : GoalId → Option DecompositionId) (i j : GoalId) (spec : SubgoalSpec) (proof x : Text)
    (hsplices : t.store.Splices named i spec j proof) (hx : m.store.statementOf j = some x) :
    bound spec.signature = bound x := by
  have hrun : run (build hasher party) (start Store.empty) (earlier ++ later) = some t := run_append.mpr ⟨m, hm, ht⟩
  have hstart : (start Store.empty : Net ω).store.NamesAgree bound := by
    intro l hl
    cases hl
  have hagree : t.store.NamesAgree bound :=
    everywhere_last (I := fun n : Net ω => n.store.NamesAgree bound)
      (everywhere_of_meets namesAgree_build hstart hfit) hrun
  obtain ⟨hlemma, _, _⟩ := hsplices
  unfold Store.lemmasAt at hlemma
  split at hlemma
  · next d hd =>
    have hmem := (Store.mem_completedOf.mp (Store.chosen_mem hd)).1
    cases hk : d.sketch with
    | none => simp [hk] at hlemma
    | some k =>
      rw [hk] at hlemma
      exact hagree (d.sketch, d.subgoalIds) (List.mem_map_of_mem hmem) k hk (spec, j) hlemma x (statementOf_run ht hx)
  · cases hlemma

end

/-- The names of the binders before the colon, as they stand between the brackets. -/
def binderText : ℕ → Bool → Text → Text
  | _, _, [] => []
  | depth, naming, c :: t =>
    if c ∈ openBrackets then ' ' :: binderText (depth + 1) (depth = 0) t
    else if c ∈ closeBrackets then ' ' :: binderText (depth - 1) (depth = 1) t
    else if c = ':' ∧ depth = 1 then ' ' :: binderText depth false t
    else (if naming then c else ' ') :: binderText depth naming t

def binderNames (signature : Text) : List Text :=
  split (binderText 0 true (splitOnTopLevelColon (afterWord (dropKeyword (strip signature)))).1)

def leafStatement : Text := "theorem leaf (n : Nat) : n + 0 = n".toList
def citedStatement : Text := "theorem cited (m : Nat) : m + 0 = m".toList
def renamedStatement : Text := "theorem other (n : Nat) : n + 0 = n".toList
def topStatement : Text := "theorem top : 2 + 0 = 2".toList

/-- What elaborating them gives: all but the last are one statement up to the names. -/
def leanExpr (signature : Text) : Text :=
  if signature ∈ [leafStatement, citedStatement, renamedStatement] then "lean:∀ Nat, #0 + 0 = #0".toList
  else "lean:".toList ++ proposition signature

def topSketch (cited : Text) : Sketch where
  parentName := "top".toList
  parentSignature := topStatement
  parentBody := assemblyName cited ++ " 2".toList
  subgoals := [⟨assemblyName cited, [], cited⟩]

def goalRow (i : GoalId) (statement : Text) : Goal := { id := i, identity := leanExpr statement, statement }

theorem leafProof_text : Outcome.proved = .proved → (some "Nat.add_zero n".toList).getD [] ≠ ([] : Text) := by decide

theorem leafProof_other : Outcome.proved ≠ .proved → (some "Nat.add_zero n".toList).getD [] = ([] : Text) := by decide

def leafProof : AttemptResult :=
  { outcome := .proved, proofText := some "Nat.add_zero n".toList, proved_text := leafProof_text
    other_text := leafProof_other }

theorem taskFailed_text : Outcome.taskFailed = .proved → (none : Option Text).getD [] ≠ [] := by decide

theorem taskFailed_other : Outcome.taskFailed ≠ .proved → (none : Option Text).getD [] = [] := by decide

def noProof : AttemptResult :=
  { outcome := .taskFailed, proved_text := taskFailed_text, other_text := taskFailed_other }

/-- The lemma is proved by a text that speaks of `n`; then the other goal gets a route that cites it. -/
def citing (cited : Text) : List (Text ⊕ (Fin 2 × Action)) :=
  [.inl leafStatement, .inl topStatement] ++
  ([.recover, .scan 0, .enter 0 1 9, .check, .read, .claim (goalRow 0 leafStatement) 0, .decide, .attack,
    .answer (.ok leafProof), .record, .propagate, .release, .check,
    .recover, .scan 0, .enter 1 1 9, .check, .read, .claim (goalRow 1 topStatement) 0, .decide, .attack,
    .answer (.ok noProof), .record, .propagate, .propose (some (topSketch cited)), .checkAcyclic, .write,
    .judge (some { ok := true }), .propagate].map fun a => .inr (workerA, a))

def cited (statement : Text) : Option (Net (Fin 2)) := run (build leanExpr twoParties) (start Store.empty) (citing statement)

-- The file assembled for the second goal has the lemma under the signature that cites it.
example : (cited citedStatement).map (fun t => (assemble t.store 1).toOption) =
    some (some ("theorem cited (m : Nat) : m + 0 = m := Nat.add_zero n\n\n" ++
      "theorem top : 2 + 0 = 2 := cited 2\n").toList) := by
  decide +kernel

theorem cited_splices (statement : Text) (t : Net (Fin 2)) (ht : cited statement = some t)
    (hend : (cited statement).map (fun t => (decide ((⟨assemblyName statement, leanExpr statement, statement⟩, 0) ∈
      t.store.lemmasAt (fun _ => none) 1), t.store.proofOf 0, t.store.statementOf 0)) =
        some (true, some "Nat.add_zero n".toList, some leafStatement)) :
    t.store.Splices (fun _ => none) 1 ⟨assemblyName statement, leanExpr statement, statement⟩ 0 "Nat.add_zero n".toList ∧
      t.store.statementOf 0 = some leafStatement := by
  rw [ht, Option.map_some] at hend
  simp only [Option.some.injEq, Prod.mk.injEq, decide_eq_true_eq] at hend
  exact ⟨⟨hend.1, rfl, hend.2.1⟩, hend.2.2⟩

theorem spliced_names_agree_renamed :
    ∃ t, run (build leanExpr twoParties) (start Store.empty) (citing renamedStatement) = some t ∧
      t.store.Splices (fun _ => none) 1 ⟨assemblyName renamedStatement, leanExpr renamedStatement, renamedStatement⟩ 0
        "Nat.add_zero n".toList ∧ binderNames renamedStatement = binderNames leafStatement := by
  have hsome : (cited renamedStatement).isSome = true := by decide +kernel
  obtain ⟨t, ht⟩ := Option.isSome_iff_exists.mp hsome
  obtain ⟨hsplices, hstatement⟩ := cited_splices renamedStatement t ht (by decide +kernel)
  have hfit : Meets (build leanExpr twoParties) (fun net l => writesFit binderNames net l) (start Store.empty)
      (citing renamedStatement ++ []) := meets_of_check (by decide +kernel)
  exact ⟨t, ht, hsplices, spliced_names_agree binderNames leanExpr twoParties (citing renamedStatement) [] t t ht rfl hfit
    _ _ _ _ _ _ hsplices hstatement⟩

theorem cited_other_names : ¬ ∀ (earlier later : List (Text ⊕ (Fin 2 × Action))) (m t : Net (Fin 2)),
    run (build leanExpr twoParties) (start Store.empty) earlier = some m → run (build leanExpr twoParties) m later = some t →
      ∀ named i j spec proof x, t.store.Splices named i spec j proof → m.store.statementOf j = some x →
        binderNames spec.signature = binderNames x := by
  intro h
  have hsome : (cited citedStatement).isSome = true := by decide +kernel
  obtain ⟨t, ht⟩ := Option.isSome_iff_exists.mp hsome
  obtain ⟨hsplices, hstatement⟩ := cited_splices citedStatement t ht (by decide +kernel)
  exact absurd (h (citing citedStatement) [] t t ht rfl _ _ _ _ _ _ hsplices hstatement) (by decide +kernel)

end SolveLoop

end EvoHarness.Proof
