import EvoHarness.Assembly
import EvoHarness.Justified

/-! The tree of routes an assembly walks, read off the graph, and what a successful
assembly says about it. -/
namespace EvoHarness.Proof
open PyText Relation

namespace Store

def proofOf (s : Store) (i : GoalId) : Option Text :=
  ((s.attemptsOf i).find? (·.outcome = .proved)).bind (·.proofText)

/-- A goal that is pinned, or was never proved directly, is assembled through a route. -/
def spliced (s : Store) (named : GoalId → Option DecompositionId) (i : GoalId) : Bool := named i ≠ none ∨ s.proofOf i = none

def chosen (s : Store) (named : GoalId → Option DecompositionId) (i : GoalId) : Option DecompositionRow :=
  match named i with
  | some r => (s.completedOf i).find? (·.id = r)
  | none => if s.proofOf i = none then (s.completedOf i).head? else none

def OnTree (s : Store) (named : GoalId → Option DecompositionId) : GoalId → GoalId → Prop :=
  ReflTransGen fun i j => ∃ d, s.chosen named i = some d ∧ j ∈ d.subgoalIds

def sketchAt (s : Store) (named : GoalId → Option DecompositionId) (i : GoalId) : Option Sketch :=
  (s.chosen named i).bind (·.sketch)

def declaredName (s : Store) (named : GoalId → Option DecompositionId) (i : GoalId) : Text :=
  match s.sketchAt named i with
  | some k => k.parentName
  | none => assemblyName (((s.goal i).map (·.statement)).getD [])

def lemmasAt (s : Store) (named : GoalId → Option DecompositionId) (i : GoalId) : List (SubgoalSpec × GoalId) :=
  match s.chosen named i with
  | some d => ((d.sketch.map (·.subgoals)).getD []).zip d.subgoalIds
  | none => []

/-- A lemma that is assembled through a route of its own bears there the name it is cited by. -/
def AgreesAt (s : Store) (named : GoalId → Option DecompositionId) (i : GoalId) : Prop :=
  ∀ p ∈ s.lemmasAt named i, ∀ k, s.sketchAt named p.2 = some k → k.parentName = p.1.name

theorem mem_completedOf {s : Store} {i : GoalId} {d : DecompositionRow} :
    d ∈ s.completedOf i ↔ d ∈ s.decompositions ∧ d.goalId = i ∧ d.status = .completed := by
  simp only [completedOf, decompositionsOf, List.mem_filter, decide_eq_true_eq, and_assoc]

theorem chosen_mem {s : Store} {named : GoalId → Option DecompositionId} {i : GoalId} {d : DecompositionRow}
    (h : s.chosen named i = some d) : d ∈ s.completedOf i := by
  unfold chosen at h
  split at h
  · exact List.mem_of_find?_eq_some h
  · split at h
    · exact List.mem_of_head? h
    · simp at h

theorem chosen_of_routeFor {s : Store} {pins : Pins} {i : GoalId} {d : DecompositionRow}
    (hsp : s.spliced pins.get i = true) (h : s.routeFor pins i = .ok (some d)) :
    s.chosen pins.get i = some d := by
  unfold routeFor at h
  unfold chosen
  cases hp : pins.get i with
  | some r =>
    simp only [hp] at h
    split at h
    · next d' hd' =>
      obtain rfl := Option.some.inj (Except.ok.inj h)
      exact hd'
    · simp at h
  | none =>
    have hproof : s.proofOf i = none := by simpa [spliced, hp] using hsp
    simp only [hp] at h
    split at h
    · simp at h
    · next d' hd' =>
      obtain rfl := Option.some.inj (Except.ok.inj h)
      simp [hproof, hd']
    · simp at h

theorem spliced_of_chosen {s : Store} {named : GoalId → Option DecompositionId} {i : GoalId} {d : DecompositionRow}
    (h : s.chosen named i = some d) : s.spliced named i = true := by
  unfold chosen at h
  unfold spliced
  split at h
  · next hp => simp [hp]
  · split at h
    · next hp => simp [hp]
    · simp at h

end Store

section
variable {W : Sketch → Prop} {p : Snapshot} {pins : Pins} {i j : GoalId}

theorem Sound.directProof (h : Sound W p) (i : GoalId) :
    p.store.directProof i = .ok (p.store.proofOf i) := by
  unfold Store.directProof Store.proofOf
  cases hf : (p.store.attemptsOf i).find? (·.outcome = .proved) with
  | none => rfl
  | some a =>
    have hmem : a ∈ p.store.attempts := (List.mem_filter.mp (List.mem_of_find?_eq_some hf)).1
    have hout : a.outcome = .proved := by simpa using List.find?_some hf
    simp [h.texts a hmem hout]

theorem Sound.below_chosen (h : Sound W p) {d : DecompositionRow}
    (hd : p.store.chosen pins.get i = some d) (hj : j ∈ d.subgoalIds) :
    p.store.Sub i j ∧ p.store.Proved j := by
  obtain ⟨hmem, hgoal, hstatus⟩ := Store.mem_completedOf.mp (Store.chosen_mem hd)
  exact ⟨⟨d, hmem, hgoal, hj⟩, h.closed d hmem hstatus j hj⟩

theorem Sound.sketch_chosen (h : Sound W p) {d : DecompositionRow}
    (hd : p.store.chosen pins.get i = some d) :
    ∃ k, d.sketch = some k ∧ k.subgoals.length = d.subgoalIds.length ∧ W k :=
  h.sketched d (Store.mem_completedOf.mp (Store.chosen_mem hd)).1

theorem Store.sketchAt_eq {s : Store} {d : DecompositionRow} (hd : s.chosen pins.get i = some d) :
    s.sketchAt pins.get i = d.sketch := by
  simp [Store.sketchAt, hd]

theorem Store.lemmasAt_eq {s : Store} {d : DecompositionRow} {k : Sketch}
    (hd : s.chosen pins.get i = some d) (hk : d.sketch = some k) :
    s.lemmasAt pins.get i = k.subgoals.zip d.subgoalIds := by
  simp [Store.lemmasAt, hd, hk]

theorem Store.mem_lemmasAt {s : Store} {q : SubgoalSpec × GoalId} (hq : q ∈ s.lemmasAt pins.get i) :
    ∃ d, s.chosen pins.get i = some d ∧ q.2 ∈ d.subgoalIds := by
  unfold Store.lemmasAt at hq
  split at hq
  · next d hd => exact ⟨d, hd, (List.of_mem_zip hq).2⟩
  · simp at hq

end

section
variable {s : Store} {pins : Pins}
  {body : Hoisted → GoalId → Except AssemblyFault (Text × Text × Hoisted)}

theorem spliceAll_cons (hdirect : ∀ i, s.directProof i = .ok (s.proofOf i)) (acc : Spliced)
    (q : SubgoalSpec × GoalId) (rest : List (SubgoalSpec × GoalId)) :
    spliceAll s pins body acc (q :: rest) =
      if s.spliced pins.get q.2 then
        match body acc.hoisted q.2 with
        | .error e => .error e
        | .ok (text, declared, h) =>
          if declared = q.1.name then
            spliceAll s pins body { acc with
              preludes := acc.preludes ++ [text]
              omitted := q.1.name :: acc.omitted
              hoisted := h } rest
          else .error (.assemblyError ("subgoal ".toList ++ idText q.2 ++ " assembles as `".toList ++
            declared ++ "` but its parent's sketch calls it `".toList ++ q.1.name ++
            "`; the spliced text would not define what the parent cites".toList))
      else
        spliceAll s pins body
          { acc with bodies := acc.bodies.set q.1.name ((s.proofOf q.2).getD []) } rest := by
  obtain ⟨spec, i⟩ := q
  rw [spliceAll, hdirect]
  by_cases hp : pins.get i = none
  · cases hproof : s.proofOf i with
    | some t => simp [Store.spliced, hp, hproof]
    | none =>
      simp only [Store.spliced, hp, hproof, if_true, ne_eq, not_true, false_or, decide_true]
      cases body acc.hoisted i with
      | error e => rfl
      | ok r =>
        obtain ⟨text, declared, h⟩ := r
        by_cases hname : declared = spec.name <;> simp [hname]
  · simp only [Store.spliced, hp, if_false, ne_eq, not_false_eq_true, true_or, decide_true, if_true]
    cases body acc.hoisted i with
    | error e => rfl
    | ok r =>
      obtain ⟨text, declared, h⟩ := r
      by_cases hname : declared = spec.name <;> simp [hname]

structure Collected (s : Store) (pins : Pins)
    (body : Hoisted → GoalId → Except AssemblyFault (Text × Text × Hoisted))
    (acc acc' : Spliced) (l : List (SubgoalSpec × GoalId)) : Prop where
  preludes : ∃ ts, acc'.preludes = acc.preludes ++ ts ∧
    List.Forall₂ (fun q t => ∃ h h', body h q.2 = .ok (t, q.1.name, h'))
      (l.filter (s.spliced pins.get ·.2)) ts
  omitted : ∀ n, n ∈ acc'.omitted ↔ n ∈ acc.omitted ∨ ∃ q ∈ l, s.spliced pins.get q.2 = true ∧ q.1.name = n
  bodies : (l.map (·.1.name)).Nodup → ∀ n, acc'.bodies.get n =
    match l.find? fun q => !s.spliced pins.get q.2 && q.1.name = n with
    | some q => some ((s.proofOf q.2).getD [])
    | none => acc.bodies.get n

theorem spliceAll_ok (hdirect : ∀ i, s.directProof i = .ok (s.proofOf i)) {acc acc' : Spliced}
    {l : List (SubgoalSpec × GoalId)} (h : spliceAll s pins body acc l = .ok acc') :
    Collected s pins body acc acc' l := by
  induction l generalizing acc with
  | nil =>
    obtain rfl := Except.ok.inj h
    exact ⟨⟨[], by simp⟩, by simp, by simp⟩
  | cons q l ih =>
    rw [spliceAll_cons hdirect] at h
    by_cases hs : s.spliced pins.get q.2 = true
    · rw [if_pos hs] at h
      cases hb : body acc.hoisted q.2 with
      | error e => simp [hb] at h
      | ok r =>
        obtain ⟨text, declared, hh⟩ := r
        simp only [hb] at h
        split at h
        · next hname =>
          obtain ⟨⟨ts, hts, hall⟩, homit, hbodies⟩ := ih h
          refine ⟨⟨text :: ts, by simpa using hts, ?_⟩, ?_, ?_⟩
          · rw [List.filter_cons_of_pos (p := fun x : SubgoalSpec × GoalId => s.spliced pins.get x.2) hs]
            exact .cons ⟨_, hh, hname ▸ hb⟩ hall
          · intro n
            rw [homit]
            simp only [List.mem_cons, exists_eq_or_imp, hs, true_and, or_assoc]
            rw [← or_assoc, or_comm (a := n = q.1.name), or_assoc, eq_comm (a := n)]
          · intro hnd n
            rw [hbodies (List.nodup_cons.mp hnd).2 n]
            simp [hs]
        · simp at h
    · rw [if_neg hs] at h
      obtain ⟨⟨ts, hts, hall⟩, homit, hbodies⟩ := ih h
      refine ⟨⟨ts, hts, ?_⟩, ?_, ?_⟩
      · rwa [List.filter_cons_of_neg (p := fun x : SubgoalSpec × GoalId => s.spliced pins.get x.2) hs]
      · intro n
        rw [homit]
        simp [hs]
      · intro hnd n
        simp only [List.map_cons, List.nodup_cons, List.mem_map, not_exists, not_and] at hnd
        rw [hbodies hnd.2 n]
        by_cases hn : q.1.name = n
        · -- no later lemma bears this name
          have hnone : l.find? (fun q => !s.spliced pins.get q.2 && q.1.name = n) = none := by
            refine List.find?_eq_none.mpr fun q' hq' => ?_
            have := hnd.1 q' hq'
            rw [hn] at this
            simp [this]
          simp only [hnone, List.find?_cons, hs, hn, decide_true, Bool.not_false, Bool.and_true]
          rw [← hn, Dict.get_set_self]
        · simp only [List.find?_cons, hn, decide_false, Bool.and_false]
          cases l.find? (fun q => !s.spliced pins.get q.2 && q.1.name = n) with
          | some q' => rfl
          | none => exact Dict.get_set_of_ne _ _ (Ne.symm hn)

end

section
variable {W : Sketch → Prop} {p : Snapshot} {pins : Pins} {i : GoalId} {n : ℕ} {h h' : Hoisted}
  {text name : Text}

theorem Sound.assembleBody_direct (hs : Sound W p) {g : Goal} {proof : Text} (hg : p.store.goal i = some g)
    (hp : g.status = .proved) (hpin : pins.get i = none) (hproof : p.store.proofOf i = some proof) :
    assembleBody p.store pins (n + 1) h i =
      .ok (g.statement ++ " := ".toList ++ proof ++ ['\n'], assemblyName g.statement, h) := by
  simp [assembleBody, hg, hp, hpin, hs.directProof, hproof]

def Hoisted.enter (h : Hoisted) (pins : Pins) (i : GoalId) (k : Sketch) : Hoisted where
  header := hoist h.header (splitlines k.preamble)
  used := if pins.get i = none then h.used else i :: h.used

theorem Sound.assembleBody_spliced (hs : Sound W p) {g : Goal} (hg : p.store.goal i = some g)
    (hp : g.status = .proved) (hsp : p.store.spliced pins.get i = true) {d : DecompositionRow} {k : Sketch}
    (hroute : p.store.routeFor pins i = .ok (some d)) (hk : d.sketch = some k) :
    assembleBody p.store pins (n + 1) h i =
      (spliceAll p.store pins (assembleBody p.store pins n) { hoisted := h.enter pins i k }
        (k.subgoals.zip d.subgoalIds)).map fun acc =>
          (join "\n\n".toList (acc.preludes ++ [(render k acc.bodies false acc.omitted).text]),
            k.parentName, acc.hoisted) := by
  by_cases hpin : pins.get i = none
  · have hnone : p.store.proofOf i = none := by simpa [Store.spliced, hpin] using hsp
    simp only [assembleBody, hg, hp, hpin, hs.directProof, hnone, hroute, hk, ne_eq, not_true,
      if_false, if_true, Hoisted.enter]
    generalize spliceAll _ _ _ _ _ = r
    cases r <;> rfl
  · simp only [assembleBody, hg, hp, hpin, hroute, hk, ne_eq, not_true, if_false, Hoisted.enter]
    generalize spliceAll _ _ _ _ _ = r
    cases r <;> rfl

/-- An assembled goal is proved; it is either taken from its own proof, or the loop over
its route's lemmas went through. -/
theorem Sound.assembleBody_cases (hs : Sound W p)
    (hok : assembleBody p.store pins (n + 1) h i = .ok (text, name, h')) :
    (∃ g proof, p.store.goal i = some g ∧ p.store.chosen pins.get i = none ∧ p.store.proofOf i = some proof ∧
        text = g.statement ++ " := ".toList ++ proof ++ ['\n'] ∧ name = assemblyName g.statement ∧ h' = h ∧
        p.store.spliced pins.get i = false) ∨
      ∃ d k acc, p.store.chosen pins.get i = some d ∧ d.sketch = some k ∧
        spliceAll p.store pins (assembleBody p.store pins n) { hoisted := h.enter pins i k }
          (k.subgoals.zip d.subgoalIds) = .ok acc ∧
        text = join "\n\n".toList (acc.preludes ++ [(render k acc.bodies false acc.omitted).text]) ∧
        name = k.parentName ∧ h' = acc.hoisted := by
  cases hg : p.store.goal i with
  | none => simp [assembleBody, hg] at hok
  | some g =>
    by_cases hp : g.status = .proved
    · cases hsp : p.store.spliced pins.get i
      · have hsp' := hsp
        simp only [Store.spliced, ne_eq, decide_eq_false_iff_not, not_or, not_not] at hsp'
        obtain ⟨proof, hproof⟩ := Option.ne_none_iff_exists'.mp hsp'.2
        rw [hs.assembleBody_direct hg hp hsp'.1 hproof] at hok
        obtain ⟨rfl, rfl, rfl⟩ := by simpa using hok
        exact Or.inl ⟨g, proof, rfl, by simp [Store.chosen, hsp'.1, hproof], hproof, by simp, rfl, rfl, rfl⟩
      · cases hroute : p.store.routeFor pins i with
        | error e =>
          by_cases hpin : pins.get i = none
          · have hnone : p.store.proofOf i = none := by simpa [Store.spliced, hpin] using hsp
            simp [assembleBody, hg, hp, hpin, hs.directProof, hnone, hroute] at hok
          · simp [assembleBody, hg, hp, hpin, hroute] at hok
        | ok o =>
          cases o with
          | none =>
            by_cases hpin : pins.get i = none
            · have hnone : p.store.proofOf i = none := by simpa [Store.spliced, hpin] using hsp
              simp [assembleBody, hg, hp, hpin, hs.directProof, hnone, hroute] at hok
            · simp [assembleBody, hg, hp, hpin, hroute] at hok
          | some d =>
            have hchosen := Store.chosen_of_routeFor hsp hroute
            obtain ⟨k, hk, _⟩ := hs.sketch_chosen hchosen
            rw [hs.assembleBody_spliced hg hp hsp hroute hk] at hok
            cases hacc : spliceAll p.store pins (assembleBody p.store pins n)
                { hoisted := h.enter pins i k } (k.subgoals.zip d.subgoalIds) with
            | error e => simp [hacc, Except.map] at hok
            | ok acc =>
              simp only [hacc, Except.map, Except.ok.injEq, Prod.mk.injEq] at hok
              exact Or.inr ⟨d, k, acc, hchosen, hk, hacc, hok.1.symm, hok.2.1.symm, hok.2.2.symm⟩
    · simp [assembleBody, hg, hp] at hok

end

def startOf (preamble : Text) : Hoisted := { header := splitlines (strip preamble) }

/-- The file is the header, a blank line and the rest; without a header, the rest. -/
def withHeader (header : List Text) (body : Text) : Text :=
  if header ≠ [] then join ['\n'] header ++ "\n\n".toList ++ body else body

section
variable {s : Store} {i : GoalId} {routes : List DecompositionId}

theorem assemble_ok {preamble file : Text} : assemble s i routes preamble = .ok file ↔
    ∃ pins text name h, s.pinMap [] routes = .ok pins ∧
      assembleBody s pins (assemblyDepth s) (startOf preamble) i = .ok (text, name, h) ∧
      (∀ p ∈ pins, p.1 ∈ h.used) ∧ file = withHeader h.header text := by
  unfold assemble startOf withHeader
  cases hpins : s.pinMap [] routes with
  | error e => simp
  | ok pins =>
    cases hb : assembleBody s pins (assemblyDepth s) { header := splitlines (strip preamble) } i with
    | error e => simp [hb]
    | ok r =>
      obtain ⟨text, name, h⟩ := r
      have hunused : pins.filter (·.1 ∉ h.used) = [] ↔ ∀ p ∈ pins, p.1 ∈ h.used := by
        simp [List.filter_eq_nil_iff]
      by_cases hu : ∀ p ∈ pins, p.1 ∈ h.used
      · have hfile : (if h.header ≠ [] then Except.ok (join ['\n'] h.header ++ "\n\n".toList ++ text)
            else Except.ok text : Except AssemblyFault Text) = .ok (withHeader h.header text) := by
          unfold withHeader
          split <;> rfl
        simp only [hb, hunused.mpr hu, ne_eq, not_true, if_false]
        simp only [ne_eq] at hfile
        rw [hfile]
        constructor
        · intro h'
          exact ⟨pins, text, name, h, rfl, hb, hu, (Except.ok.inj h').symm⟩
        · intro hex
          obtain ⟨_, _, _, h', hp, hb', _, hf⟩ := hex
          obtain rfl := Except.ok.inj hp
          obtain ⟨rfl, -, rfl⟩ := by simpa using hb.symm.trans hb'
          rw [hf]
          rfl
      · have hne : pins.filter (·.1 ∉ h.used) ≠ [] := fun h' => hu (hunused.mp h')
        simp only [hb, hne, ne_eq, not_false_eq_true, if_true, reduceCtorEq, false_iff]
        intro hex
        obtain ⟨_, _, _, h', hp, hb', hu', _⟩ := hex
        obtain rfl := Except.ok.inj hp
        obtain ⟨-, -, rfl⟩ := by simpa using hb.symm.trans hb'
        exact hu hu'

end

theorem Sound.exists_rank {W : Sketch → Prop} {p : Snapshot} (hs : Sound W p) :
    ∃ rank : GoalId → ℕ, (∀ i, rank i < assemblyDepth p.store) ∧ ∀ a b, p.store.Sub a b → rank b < rank a := by
  obtain ⟨rank, hle, hrank⟩ := hs.acyclic.exists_rank (Finset.range p.store.goals.length)
    fun a b hab => Finset.mem_range.mpr hab.right_lt
  refine ⟨rank, fun i => ?_, hrank⟩
  have hcard := hle i
  rw [Finset.card_range] at hcard
  exact Nat.lt_succ_of_le hcard

end EvoHarness.Proof
