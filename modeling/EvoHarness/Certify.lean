import EvoHarness.Verify
import EvoHarness.AssemblyTree
import EvoHarness.NoFalseProved

/-! Recording the verdict on a goal, and what can be rebuilt from the record. -/
namespace EvoHarness.Proof
open PyText

inductive RecordedRoute where
  | unknown
  | direct
  | through (id : DecompositionId)
  deriving DecidableEq

structure Certification where
  goalId : GoalId
  ok : Bool
  axioms : Finset Text := ∅
  reason : Text := []
  textSha256 : Text := []
  decompositionId : RecordedRoute := .unknown
  trust : Text := []

namespace Store

def topRoute (s : Store) (i : GoalId) (pins : Pins) : Except AssemblyFault (Option DecompositionRow) :=
  if pins.get i = none then
    match s.directProof i with
    | .error e => .error e
    | .ok (some _) => .ok none
    | .ok none => s.routeFor pins i
  else s.routeFor pins i

end Store

def RecordedRoute.of : Option DecompositionRow → RecordedRoute
  | some d => .through d.id
  | none => .direct

def RecordedRoute.routes : RecordedRoute → List DecompositionId
  | .through id => [id]
  | _ => []

def certify (sha256 : Text → Text) (s : Store) (i : GoalId) (runner : LeanRunner)
    (routes : List DecompositionId) (policy : AxiomPolicy) (preamble : Text) :
    Except AssemblyFault (AssemblyResult × Certification) := do
  let result ← verify s i runner routes policy preamble
  let pins ← s.pinMap [] routes
  let decomposition ← s.topRoute i pins
  .ok (result,
    { goalId := i, ok := result.ok, axioms := result.axioms, reason := result.reason
      textSha256 := sha256 result.text, decompositionId := .of decomposition, trust := result.trust })

section
variable {s : Store} {pins : Pins} {n : ℕ} {h h' : Hoisted} {i : GoalId} {text name : Text}
  {body : Hoisted → GoalId → Except AssemblyFault (Text × Text × Hoisted)}

def TakenDirectly (s : Store) (pins : Pins) (i : GoalId) (proof : Text) : Prop :=
  pins.get i = none ∧ s.directProof i = .ok (some proof)

def TakenThroughRoute (s : Store) (pins : Pins) (i : GoalId) : Prop :=
  pins.get i = none → s.directProof i = .ok none

theorem spliceAll_cons_ok {acc acc' : Spliced} {q : SubgoalSpec × GoalId} {rest : List (SubgoalSpec × GoalId)} :
    spliceAll s pins body acc (q :: rest) = .ok acc' ↔
      (∃ proof, TakenDirectly s pins q.2 proof ∧
        spliceAll s pins body { acc with bodies := acc.bodies.set q.1.name proof } rest = .ok acc') ∨
      (TakenThroughRoute s pins q.2 ∧ ∃ t hh, body acc.hoisted q.2 = .ok (t, q.1.name, hh) ∧
        spliceAll s pins body { acc with
          preludes := acc.preludes ++ [t], omitted := q.1.name :: acc.omitted, hoisted := hh } rest =
            .ok acc') := by
  obtain ⟨spec, j⟩ := q
  rw [spliceAll]
  simp only [TakenDirectly, TakenThroughRoute]
  by_cases hp : pins.get j = none
  · cases hd : s.directProof j with
    | error e => simp [hp]
    | ok o =>
      cases o with
      | some proof => simp [hp]
      | none =>
        cases hb : body acc.hoisted j with
        | error e => simp [hp]
        | ok r =>
          obtain ⟨t, declared, hh⟩ := r
          by_cases hname : declared = spec.name <;> simp [hp, hname]
  · cases hb : body acc.hoisted j with
    | error e => simp [hp]
    | ok r =>
      obtain ⟨t, declared, hh⟩ := r
      by_cases hname : declared = spec.name <;> simp [hp, hname]

theorem assembleBody_ok : assembleBody s pins (n + 1) h i = .ok (text, name, h') ↔
    ∃ g, s.goal i = some g ∧ g.status = .proved ∧
      ((∃ proof, TakenDirectly s pins i proof ∧ text = g.statement ++ " := ".toList ++ proof ++ ['\n'] ∧
          name = assemblyName g.statement ∧ h' = h) ∨
        (TakenThroughRoute s pins i ∧ ∃ d k acc, s.routeFor pins i = .ok (some d) ∧ d.sketch = some k ∧
          spliceAll s pins (assembleBody s pins n) { hoisted := h.enter pins i k }
            (k.subgoals.zip d.subgoalIds) = .ok acc ∧
          text = join "\n\n".toList (acc.preludes ++ [(render k acc.bodies false acc.omitted).text]) ∧
          name = k.parentName ∧ h' = acc.hoisted)) := by
  unfold TakenDirectly TakenThroughRoute
  cases hg : s.goal i with
  | none => simp [assembleBody, hg]
  | some g =>
    by_cases hproved : g.status = .proved
    · by_cases hp : pins.get i = none
      · cases hd : s.directProof i with
        | error e => simp [assembleBody, hg, hproved, hp, hd]
        | ok o =>
          cases o with
          | some proof => simp [assembleBody, hg, hproved, hp, hd, eq_comm]
          | none =>
            cases hr : s.routeFor pins i with
            | error e => simp [assembleBody, hg, hproved, hp, hd, hr]
            | ok o =>
              cases o with
              | none => simp [assembleBody, hg, hproved, hp, hd, hr]
              | some d =>
                cases hk : d.sketch with
                | none => simp [assembleBody, hg, hproved, hp, hd, hr, hk]
                | some k =>
                  have henter : h.enter pins i k = ⟨hoist h.header (splitlines k.preamble), h.used⟩ := by
                    simp [Hoisted.enter, hp]
                  cases hacc : spliceAll s pins (assembleBody s pins n)
                      { hoisted := ⟨hoist h.header (splitlines k.preamble), h.used⟩ }
                      (k.subgoals.zip d.subgoalIds) with
                  | error e => simp [assembleBody, hg, hproved, hp, hd, hr, hk, hacc, henter]
                  | ok acc => simp [assembleBody, hg, hproved, hp, hd, hr, hk, hacc, henter, eq_comm]
      · cases hr : s.routeFor pins i with
        | error e => simp [assembleBody, hg, hproved, hp, hr]
        | ok o =>
          cases o with
          | none => simp [assembleBody, hg, hproved, hp, hr]
          | some d =>
            cases hk : d.sketch with
            | none => simp [assembleBody, hg, hproved, hp, hr, hk]
            | some k =>
              have henter : h.enter pins i k = ⟨hoist h.header (splitlines k.preamble), i :: h.used⟩ := by
                simp [Hoisted.enter, hp]
              cases hacc : spliceAll s pins (assembleBody s pins n)
                  { hoisted := ⟨hoist h.header (splitlines k.preamble), i :: h.used⟩ }
                  (k.subgoals.zip d.subgoalIds) with
              | error e => simp [assembleBody, hg, hproved, hp, hr, hk, hacc, henter]
              | ok acc => simp [assembleBody, hg, hproved, hp, hr, hk, hacc, henter, eq_comm]
    · simp [assembleBody, hg, hproved]

end

section
variable {s : Store} {pins again : Pins} {n : ℕ} {i j : GoalId}

/-- Both choices of pins lead to one way of assembling `j`. -/
def SameAt (s : Store) (pins again : Pins) (j : GoalId) : Prop :=
  again.get j = pins.get j ∨ (s.directProof j = .ok none ∧
    ∃ d, s.completedOf j = [d] ∧ (∀ r, pins.get j = some r → r = d.id) ∧
      ∀ r, again.get j = some r → r = d.id)

def Clash (s : Store) (pins again : Pins) (j : GoalId) : Prop :=
  pins.get j ≠ none ∧ again.get j = none ∧ (∀ proof, s.directProof j ≠ .ok (some proof)) ∧
    (s.directProof j = .ok none → 2 ≤ (s.completedOf j).length)

theorem routeFor_congr (h : again.get j = pins.get j) : s.routeFor again j = s.routeFor pins j := by
  unfold Store.routeFor
  rw [h]

theorem routeFor_only {d : DecompositionRow} (hd : s.completedOf j = [d])
    (hpin : ∀ r, pins.get j = some r → r = d.id) : s.routeFor pins j = .ok (some d) := by
  unfold Store.routeFor
  cases hp : pins.get j with
  | none => simp [hd]
  | some r =>
    obtain rfl := hpin r hp
    simp [hd]

theorem SameAt.routeFor (h : SameAt s pins again j) : s.routeFor again j = s.routeFor pins j := by
  cases h with
  | inl h => exact routeFor_congr h
  | inr h =>
    obtain ⟨_, d, hd, hp, ha⟩ := h
    rw [routeFor_only hd hp, routeFor_only hd ha]

theorem SameAt.direct {proof : Text} (h : SameAt s pins again j) (hd : TakenDirectly s pins j proof) :
    TakenDirectly s again j proof := by
  cases h with
  | inl h => exact ⟨h.trans hd.1, hd.2⟩
  | inr h => exact absurd (h.1.symm.trans hd.2) (by simp)

theorem SameAt.route (h : SameAt s pins again j) (hr : TakenThroughRoute s pins j) :
    TakenThroughRoute s again j := by
  cases h with
  | inl h =>
    intro ha
    exact hr (h ▸ ha)
  | inr h => exact fun _ => h.1

theorem SameAt.not_clash (h : SameAt s pins again j) : ¬ Clash s pins again j := by
  intro hc
  obtain ⟨hp, ha, _, htwo⟩ := hc
  cases h with
  | inl h => exact hp (h ▸ ha)
  | inr h =>
    obtain ⟨hd, d, hone, _⟩ := h
    have := htwo hd
    rw [hone, List.length_singleton] at this
    omega

theorem Clash.stuck (h : Clash s pins again j) (g : Hoisted) (r : Text × Text × Hoisted) :
    assembleBody s again (n + 1) g j ≠ .ok r := by
  obtain ⟨_, ha, hno, htwo⟩ := h
  obtain ⟨text, name, g'⟩ := r
  intro hok
  obtain ⟨_, _, _, hcase⟩ := assembleBody_ok.mp hok
  cases hcase with
  | inl hdirect =>
    obtain ⟨proof, hd, _⟩ := hdirect
    exact hno proof hd.2
  | inr hroute =>
    obtain ⟨hr, d, _, _, hroute, _⟩ := hroute
    have hlen := htwo (hr ha)
    simp only [Store.routeFor, ha] at hroute
    split at hroute
    · simp at hroute
    · next d' hone =>
      rw [hone, List.length_singleton] at hlen
      omega
    · simp at hroute

/-- What the second run does, given what the first one did: the same, over goals whose pins it
does not miss; or it fails, because it misses one. -/
def Follows (s : Store) (pins again : Pins) (used used' : List GoalId) (same : Prop) (fails : Prop) : Prop :=
  (same ∧ ∀ j ∈ used', j ∈ used ∨ ¬ Clash s pins again j) ∨ (fails ∧ ∃ j, Clash s pins again j)

theorem spliceAll_follows (hcase : ∀ j, SameAt s pins again j ∨ Clash s pins again j)
    (hbody : ∀ {h g : Hoisted} {i text name h'}, h.header = g.header →
      assembleBody s pins n h i = .ok (text, name, h') →
      Follows s pins again h.used h'.used
        (∃ g', assembleBody s again n g i = .ok (text, name, g') ∧ g'.header = h'.header)
        (∀ r, assembleBody s again n g i ≠ .ok r))
    {l : List (SubgoalSpec × GoalId)} {acc acc' : Spliced} {g : Hoisted}
    (hok : spliceAll s pins (assembleBody s pins n) acc l = .ok acc') (hg : acc.hoisted.header = g.header) :
    Follows s pins again acc.hoisted.used acc'.hoisted.used
      (∃ g', spliceAll s again (assembleBody s again n) { acc with hoisted := g } l =
        .ok { acc' with hoisted := g' } ∧ g'.header = acc'.hoisted.header)
      (∀ r, spliceAll s again (assembleBody s again n) { acc with hoisted := g } l ≠ .ok r) := by
  induction l generalizing acc g with
  | nil =>
    obtain rfl := Except.ok.inj hok
    exact Or.inl ⟨⟨g, rfl, hg.symm⟩, fun j hj => Or.inl hj⟩
  | cons q l ih =>
    cases spliceAll_cons_ok.mp hok with
    | inl hdirect =>
      obtain ⟨proof, hd, hrest⟩ := hdirect
      cases hcase q.2 with
      | inr hc => exact absurd hd.1 hc.1
      | inl hsame =>
        have ha := hsame.direct hd
        cases ih (g := g) hrest hg with
        | inl h =>
          obtain ⟨⟨g', hg', hheader⟩, hused⟩ := h
          exact Or.inl ⟨⟨g', spliceAll_cons_ok.mpr (Or.inl ⟨proof, ha, hg'⟩), hheader⟩, hused⟩
        | inr h =>
          refine Or.inr ⟨fun r hr => ?_, h.2⟩
          cases spliceAll_cons_ok.mp hr with
          | inl hr =>
            obtain ⟨proof', hd', hr⟩ := hr
            obtain rfl := Option.some.inj (Except.ok.inj (ha.2.symm.trans hd'.2))
            exact h.1 r hr
          | inr hr => exact absurd (ha.2.symm.trans (hr.1 ha.1)) (by simp)
    | inr hroute =>
      obtain ⟨ht, t, hh, hb, hrest⟩ := hroute
      have hnotdirect : ∀ proof, ¬ TakenDirectly s again q.2 proof := by
        intro proof hd
        cases hcase q.2 with
        | inl hsame =>
          have := hsame.route ht hd.1
          exact absurd (this.symm.trans hd.2) (by simp)
        | inr hc => exact hc.2.2.1 proof hd.2
      cases hbody hg hb with
      | inr h =>
        refine Or.inr ⟨fun r hr => ?_, h.2⟩
        cases spliceAll_cons_ok.mp hr with
        | inl hr =>
          obtain ⟨proof, hd, _⟩ := hr
          exact hnotdirect proof hd
        | inr hr =>
          obtain ⟨_, _, _, hb', _⟩ := hr
          exact h.1 _ hb'
      | inl h =>
        obtain ⟨⟨g₁, hg₁, hheader⟩, hused⟩ := h
        cases hcase q.2 with
        | inr hc =>
          cases n with
          | zero => simp [assembleBody] at hb
          | succ n => exact absurd hg₁ (hc.stuck g _)
        | inl hsame =>
          have ha := hsame.route ht
          cases ih (g := g₁) hrest hheader.symm with
          | inl h' =>
            obtain ⟨⟨g', hg', hheader'⟩, hused'⟩ := h'
            refine Or.inl ⟨⟨g', spliceAll_cons_ok.mpr (Or.inr ⟨ha, t, g₁, hg₁, hg'⟩), hheader'⟩, ?_⟩
            intro j hj
            cases hused' j hj with
            | inl hj => exact hused j hj
            | inr hj => exact Or.inr hj
          | inr h' =>
            refine Or.inr ⟨fun r hr => ?_, h'.2⟩
            cases spliceAll_cons_ok.mp hr with
            | inl hr =>
              obtain ⟨proof, hd, _⟩ := hr
              exact hnotdirect proof hd
            | inr hr =>
              obtain ⟨_, t', g₂, hb', hr⟩ := hr
              obtain ⟨rfl, -, rfl⟩ := by simpa using hg₁.symm.trans hb'
              exact h'.1 r hr

theorem assembleBody_follows (hcase : ∀ j, SameAt s pins again j ∨ Clash s pins again j) {h g : Hoisted}
    {text name : Text} {h' : Hoisted} (hg : h.header = g.header)
    (hok : assembleBody s pins n h i = .ok (text, name, h')) :
    Follows s pins again h.used h'.used
      (∃ g', assembleBody s again n g i = .ok (text, name, g') ∧ g'.header = h'.header)
      (∀ r, assembleBody s again n g i ≠ .ok r) := by
  induction n generalizing i h g text name h' with
  | zero => simp [assembleBody] at hok
  | succ n ih =>
    cases hcase i with
    | inr hc => exact Or.inr ⟨fun r => hc.stuck g r, i, hc⟩
    | inl hsame =>
      obtain ⟨goal, hgoal, hproved, hstep⟩ := assembleBody_ok.mp hok
      cases hstep with
      | inl hdirect =>
        obtain ⟨proof, hd, htext, hname, rfl⟩ := hdirect
        refine Or.inl ⟨⟨g, assembleBody_ok.mpr ⟨goal, hgoal, hproved, Or.inl ?_⟩, hg.symm⟩, fun j hj => Or.inl hj⟩
        exact ⟨proof, hsame.direct hd, htext, hname, rfl⟩
      | inr hroute =>
        obtain ⟨ht, d, k, acc, hr, hk, hacc, htext, hname, rfl⟩ := hroute
        have hr' := hsame.routeFor.trans hr
        have henter : (h.enter pins i k).header = (g.enter again i k).header := by simp [Hoisted.enter, hg]
        cases spliceAll_follows hcase ih (g := g.enter again i k) hacc henter with
        | inl hf =>
          obtain ⟨⟨g', hg', hheader⟩, hused⟩ := hf
          refine Or.inl ⟨⟨g', assembleBody_ok.mpr ⟨goal, hgoal, hproved, Or.inr ?_⟩, hheader⟩, ?_⟩
          · exact ⟨hsame.route ht, d, k, _, hr', hk, hg', htext, hname, rfl⟩
          · intro j hj
            cases hused j hj with
            | inr hj => exact Or.inr hj
            | inl hj =>
              simp only [Hoisted.enter] at hj
              split at hj
              · exact Or.inl hj
              · cases List.mem_cons.mp hj with
                | inl hj => exact Or.inr (hj ▸ hsame.not_clash)
                | inr hj => exact Or.inl hj
        | inr hf =>
          refine Or.inr ⟨fun r hrun => ?_, hf.2⟩
          obtain ⟨text', name', g'⟩ := r
          obtain ⟨_, _, _, hcase'⟩ := assembleBody_ok.mp hrun
          cases hcase' with
          | inl hdirect =>
            obtain ⟨proof, hd, _⟩ := hdirect
            exact absurd ((hsame.route ht hd.1).symm.trans hd.2) (by simp)
          | inr hroute =>
            obtain ⟨_, d', k', acc', hr'', hk', hacc', _⟩ := hroute
            obtain rfl := Option.some.inj (Except.ok.inj (hr'.symm.trans hr''))
            obtain rfl := Option.some.inj (hk.symm.trans hk')
            exact hf.1 _ hacc'

end

section
variable {s : Store} {pins pins' : Pins} {routes : List DecompositionId} {n : ℕ} {i j : GoalId}

theorem get_cons {r : DecompositionId} : Pins.get ((i, r) :: pins) j = if i = j then some r else pins.get j := by
  unfold Pins.get
  by_cases h : i = j <;> simp [h]

structure PinnedBy (s : Store) (pins pins' : Pins) (routes : List DecompositionId) : Prop where
  kept : ∀ j r, pins.get j = some r → pins'.get j = some r
  named : ∀ r ∈ routes, ∃ d, s.decomposition r = some d ∧ pins'.get d.goalId = some r
  only : ∀ j r, pins'.get j = some r → pins.get j = some r ∨
    (r ∈ routes ∧ ∃ d ∈ s.completedOf j, d.id = r)

theorem pinnedBy_of_pinMap (hok : s.pinMap pins routes = .ok pins') : PinnedBy s pins pins' routes := by
  induction routes generalizing pins with
  | nil =>
    obtain rfl := Except.ok.inj hok
    exact ⟨fun _ _ h => h, by simp, fun _ _ h => Or.inl h⟩
  | cons r routes ih =>
    unfold Store.pinMap at hok
    cases hd : s.decomposition r with
    | none => simp [hd] at hok
    | some d =>
      by_cases hst : d.status = .completed
      · simp only [hd, hst, ne_eq, not_true, if_false] at hok
        have hcompleted : d ∈ s.completedOf d.goalId :=
          Store.mem_completedOf.mpr ⟨List.mem_of_getElem? hd, rfl, hst⟩
        have hid := Store.decomposition_id hd
        cases hget : pins.get d.goalId with
        | none =>
          simp only [hget] at hok
          obtain ⟨hkept, hnamed, honly⟩ := ih hok
          have hself : pins'.get d.goalId = some r := hkept _ _ (by rw [get_cons, if_pos rfl])
          refine ⟨fun j r' hj => hkept j r' ?_, ?_, fun j r' hj => ?_⟩
          · rw [get_cons, if_neg]
            · exact hj
            · intro h
              rw [← h, hget] at hj
              simp at hj
          · intro r' hr'
            cases List.mem_cons.mp hr' with
            | inl h => exact ⟨d, h ▸ hd, h ▸ hself⟩
            | inr h => exact hnamed r' h
          · cases honly j r' hj with
            | inl h =>
              rw [get_cons] at h
              split at h
              · next hg =>
                obtain rfl := Option.some.inj h
                exact Or.inr ⟨List.mem_cons_self .., d, hg ▸ hcompleted, hid⟩
              · exact Or.inl h
            | inr h => exact Or.inr ⟨List.mem_cons_of_mem _ h.1, h.2⟩
        | some already =>
          by_cases hr : already = r
          · simp only [hget, hr, if_true] at hok
            obtain ⟨hkept, hnamed, honly⟩ := ih hok
            refine ⟨hkept, ?_, fun j r' hj => ?_⟩
            · intro r' hr'
              cases List.mem_cons.mp hr' with
              | inl h => exact ⟨d, h ▸ hd, h ▸ hkept _ _ (hr ▸ hget)⟩
              | inr h => exact hnamed r' h
            · cases honly j r' hj with
              | inl h => exact Or.inl h
              | inr h => exact Or.inr ⟨List.mem_cons_of_mem _ h.1, h.2⟩
          · simp [hget, hr] at hok
      · simp [hd, hst] at hok

theorem spliceAll_used {body : Hoisted → GoalId → Except AssemblyFault (Text × Text × Hoisted)}
    (hbody : ∀ {h i text name h'}, body h i = .ok (text, name, h') → ∀ j ∈ h.used, j ∈ h'.used)
    {l : List (SubgoalSpec × GoalId)} {acc acc' : Spliced} (hok : spliceAll s pins body acc l = .ok acc')
    (hj : j ∈ acc.hoisted.used) : j ∈ acc'.hoisted.used := by
  induction l generalizing acc with
  | nil => exact Except.ok.inj hok ▸ hj
  | cons q l ih =>
    cases spliceAll_cons_ok.mp hok with
    | inl hdirect =>
      obtain ⟨_, _, hrest⟩ := hdirect
      exact ih hrest hj
    | inr hroute =>
      obtain ⟨_, _, _, hb, hrest⟩ := hroute
      exact ih hrest (hbody hb j hj)

theorem assembleBody_used {h h' : Hoisted} {text name : Text}
    (hok : assembleBody s pins n h i = .ok (text, name, h')) : ∀ j ∈ h.used, j ∈ h'.used := by
  induction n generalizing i h text name h' with
  | zero => simp [assembleBody] at hok
  | succ n ih =>
    intro j hj
    obtain ⟨_, _, _, hcase⟩ := assembleBody_ok.mp hok
    cases hcase with
    | inl hdirect =>
      obtain ⟨_, _, _, _, rfl⟩ := hdirect
      exact hj
    | inr hroute =>
      obtain ⟨_, _, k, _, _, _, hacc, _, _, rfl⟩ := hroute
      refine spliceAll_used (fun hb => ih hb) hacc ?_
      simp only [Hoisted.enter]
      split
      · exact hj
      · exact List.mem_cons_of_mem _ hj

theorem assembleBody_marks {h h' : Hoisted} {text name : Text} (hpin : pins.get i ≠ none)
    (hok : assembleBody s pins n h i = .ok (text, name, h')) : i ∈ h'.used := by
  cases n with
  | zero => simp [assembleBody] at hok
  | succ n =>
    obtain ⟨_, _, _, hcase⟩ := assembleBody_ok.mp hok
    cases hcase with
    | inl hdirect =>
      obtain ⟨_, hd, _⟩ := hdirect
      exact absurd hd.1 hpin
    | inr hroute =>
      obtain ⟨_, _, k, _, _, _, hacc, _, _, rfl⟩ := hroute
      refine spliceAll_used (fun hb => assembleBody_used hb) hacc ?_
      simp [Hoisted.enter, hpin]

theorem mem_of_get {r : DecompositionId} (h : pins.get j = some r) : (j, r) ∈ pins := by
  obtain ⟨p, hp, rfl⟩ := Option.map_eq_some_iff.mp h
  have hmem := List.mem_of_find?_eq_some hp
  have hfst : p.1 = j := by simpa using List.find?_some hp
  exact hfst ▸ hmem

end

/-- A goal below the root that a route is named for could not be assembled otherwise: it has no
proof of its own and no other completed route. -/
def Forced (s : Store) (i : GoalId) (routes : List DecompositionId) : Prop :=
  ∀ r ∈ routes, ∀ d, s.decomposition r = some d → d.goalId ≠ i →
    s.directProof d.goalId = .ok none ∧ s.completedOf d.goalId = [d]

def Overrides (s : Store) (i : GoalId) (routes : List DecompositionId) : Prop :=
  ∃ r ∈ routes, ∃ d proof, s.decomposition r = some d ∧ d.goalId ≠ i ∧
    s.directProof d.goalId = .ok (some proof)

section
variable {s : Store} {i : GoalId} {routes : List DecompositionId} {preamble : Text}

structure Kept (s : Store) (i : GoalId) (pins again : Pins) (route : RecordedRoute) : Prop where
  pinned : s.pinMap [] route.routes = .ok again
  same : SameAt s pins again i
  other : ∀ j, j ≠ i → again.get j = none
  entries : ∀ p ∈ again, p.1 = i

theorem kept_of_topRoute {pins : Pins} {d : Option DecompositionRow}
    (htop : s.topRoute i pins = .ok d) (hsome : s.directProof i = .ok none → d ≠ none) :
    ∃ again, Kept s i pins again (.of d) := by
  have hpin : ∀ d ∈ s.completedOf i, s.pinMap [] [d.id] = .ok [(i, d.id)] := by
    intro d hd
    obtain ⟨hmem, hgoal, hst⟩ := Store.mem_completedOf.mp hd
    simp [Store.pinMap, Store.mem_decompositions_iff.mp hmem, hst, hgoal, Pins.get]
  have hone : ∀ d ∈ s.completedOf i, SameAt s pins [(i, d.id)] i →
      Kept s i pins [(i, d.id)] (.of (some d)) := by
    intro d hd hsame
    refine ⟨hpin d hd, hsame, fun j hj => ?_, by simp⟩
    rw [get_cons, if_neg (Ne.symm hj)]
    rfl
  unfold Store.topRoute at htop
  by_cases hget : pins.get i = none
  · rw [if_pos hget] at htop
    cases hdirect : s.directProof i with
    | error e => simp [hdirect] at htop
    | ok o =>
      cases o with
      | some proof =>
        simp only [hdirect] at htop
        obtain rfl := Except.ok.inj htop
        exact ⟨[], rfl, Or.inl hget.symm, fun _ _ => rfl, by simp⟩
      | none =>
        simp only [hdirect, Store.routeFor, hget] at htop
        split at htop
        · obtain rfl := Except.ok.inj htop
          exact absurd rfl (hsome hdirect)
        · next d' hd' =>
          obtain rfl := Except.ok.inj htop
          refine ⟨_, hone d' (by simp [hd']) (Or.inr ⟨hdirect, d', hd', ?_, ?_⟩)⟩
          · simp [hget]
          · intro r hr
            rw [get_cons, if_pos rfl] at hr
            exact (Option.some.inj hr).symm
        · simp at htop
  · rw [if_neg hget] at htop
    obtain ⟨r, hr⟩ := Option.ne_none_iff_exists'.mp hget
    simp only [Store.routeFor, hr] at htop
    split at htop
    · next d' hd' =>
      obtain rfl := Except.ok.inj htop
      have hid : d'.id = r := by simpa using List.find?_some hd'
      refine ⟨_, hone d' (List.mem_of_find?_eq_some hd') (Or.inl ?_)⟩
      rw [get_cons, if_pos rfl, hid, hr]
    · simp at htop

theorem checkedText_ok {text : Text} : s.checkedText i routes preamble = .ok text ↔
    ∃ file name, assemble s i routes preamble = .ok file ∧ s.rootName i = .ok name ∧
      text = rstrip file ++ "\n\n#print axioms ".toList ++ name ++ ['\n'] := by
  unfold Store.checkedText
  cases assemble s i routes preamble with
  | error e => simp
  | ok file =>
    cases s.rootName i with
    | error e => simp
    | ok name => simp [eq_comm (b := text)]

theorem verify_text {runner : LeanRunner} {policy : AxiomPolicy} {res : AssemblyResult}
    (h : verify s i runner routes policy preamble = .ok res) :
    s.checkedText i routes preamble = .ok res.text := by
  have hverdict : ∀ text axioms, (verdict policy text axioms).text = text := by
    intro text axioms
    unfold verdict
    dsimp only
    split <;> rfl
  unfold verify at h
  cases hg : s.goal i with
  | none => simp [hg] at h
  | some g =>
    cases ht : s.checkedText i routes preamble with
    | error e => simp [hg, ht] at h
    | ok text =>
      cases hn : s.rootName i with
      | error e => simp [hg, ht, hn] at h
      | ok name =>
        cases hr : runner text with
        | error e => simp [hg, ht, hn, hr] at h
        | ok p =>
          obtain ⟨code, output⟩ := p
          simp only [hg, ht, hn, hr] at h
          split at h
          · rw [← Except.ok.inj h]
          · split at h
            · rw [← Except.ok.inj h]
            · rw [← Except.ok.inj h, hverdict]

variable {sha256 : Text → Text} {runner : LeanRunner} {policy : AxiomPolicy} {res : AssemblyResult}
  {cert : Certification}

theorem certify_ok (h : certify sha256 s i runner routes policy preamble = .ok (res, cert)) :
    ∃ text pins d, s.checkedText i routes preamble = .ok text ∧ s.pinMap [] routes = .ok pins ∧
      s.topRoute i pins = .ok d ∧ cert.goalId = i ∧ cert.textSha256 = sha256 text ∧
      cert.decompositionId = .of d := by
  unfold certify at h
  cases hv : verify s i runner routes policy preamble with
  | error e => simp [hv, bind, Except.bind] at h
  | ok res' =>
    cases hp : s.pinMap [] routes with
    | error e => simp [hv, hp, bind, Except.bind] at h
    | ok pins =>
      cases hd : s.topRoute i pins with
      | error e => simp [hv, hp, hd, bind, Except.bind] at h
      | ok d =>
        simp only [hv, hp, hd, bind, Except.bind, Except.ok.injEq, Prod.mk.injEq] at h
        obtain ⟨-, rfl⟩ := h
        exact ⟨_, pins, d, verify_text hv, rfl, hd, rfl, rfl, rfl⟩

/-- Rendering the goal again with the recorded route and the same preamble gives the text that
was certified. -/
def Reproducible (sha256 : Text → Text) (s : Store) (preamble : Text) (cert : Certification) : Prop :=
  ∃ text, s.checkedText cert.goalId cert.decompositionId.routes preamble = .ok text ∧
    sha256 text = cert.textSha256

/-- What is known of the pins of a call that has assembled, and of those of its record. -/
theorem same_or_clash {pins again : Pins} {route : RecordedRoute} (hp : PinnedBy s [] pins routes)
    (hk : Kept s i pins again route) (hno : ¬ Overrides s i routes) (j : GoalId) :
    SameAt s pins again j ∨ Clash s pins again j := by
  by_cases hj : j = i
  · exact Or.inl (hj ▸ hk.same)
  · have hagain := hk.other j hj
    cases hget : pins.get j with
    | none => exact Or.inl (Or.inl (hagain.trans hget.symm))
    | some r =>
      cases hp.only j r hget with
      | inl h => simp [Pins.get] at h
      | inr h =>
        obtain ⟨hr, d, hd, hid⟩ := h
        obtain ⟨hmem, hgoal, _⟩ := Store.mem_completedOf.mp hd
        have hrow : s.decomposition r = some d := hid ▸ Store.mem_decompositions_iff.mp hmem
        have hpinned : pins.get j ≠ none := by simp [hget]
        cases hdirect : s.directProof j with
        | error e => exact Or.inr ⟨hpinned, hagain, by simp [hdirect], by simp [hdirect]⟩
        | ok o =>
          cases o with
          | some proof => exact absurd ⟨r, hr, d, proof, hrow, hgoal ▸ hj, hgoal ▸ hdirect⟩ hno
          | none =>
            by_cases htwo : 2 ≤ (s.completedOf j).length
            · exact Or.inr ⟨hpinned, hagain, by simp [hdirect], fun _ => htwo⟩
            · have hpos := List.length_pos_of_mem hd
              obtain ⟨e, he⟩ := List.length_eq_one_iff.mp (show (s.completedOf j).length = 1 by omega)
              rw [he, List.mem_singleton] at hd
              subst hd
              refine Or.inl (Or.inr ⟨hdirect, d, he, ?_, by simp [hagain]⟩)
              intro r' hr'
              rw [hid]
              exact Option.some.inj (hr'.symm.trans hget)

theorem forced_iff_no_clash {pins again : Pins} {route : RecordedRoute} (hp : PinnedBy s [] pins routes)
    (hk : Kept s i pins again route) (hno : ¬ Overrides s i routes) :
    Forced s i routes ↔ ∀ j, ¬ Clash s pins again j := by
  constructor
  · intro hforced j hc
    obtain ⟨hpinned, hagain, _, htwo⟩ := hc
    obtain ⟨r, hget⟩ := Option.ne_none_iff_exists'.mp hpinned
    have hj : j ≠ i := fun hj => hk.same.not_clash (hj ▸ ⟨hpinned, hagain, ‹_›, htwo⟩)
    cases hp.only j r hget with
    | inl h => simp [Pins.get] at h
    | inr h =>
      obtain ⟨hr, d, hd, hid⟩ := h
      obtain ⟨hmem, hgoal, _⟩ := Store.mem_completedOf.mp hd
      have hrow : s.decomposition r = some d := hid ▸ Store.mem_decompositions_iff.mp hmem
      obtain ⟨hdirect, hone⟩ := hforced r hr d hrow (hgoal ▸ hj)
      rw [hgoal] at hdirect hone
      have := htwo hdirect
      rw [hone, List.length_singleton] at this
      omega
  · intro hclash r hr d hrow hne
    obtain ⟨d', hrow', hget⟩ := hp.named r hr
    obtain rfl := Option.some.inj (hrow.symm.trans hrow')
    cases same_or_clash hp hk hno d.goalId with
    | inr hc => exact absurd hc (hclash d.goalId)
    | inl hsame =>
      cases hsame with
      | inl h =>
        rw [hk.other d.goalId hne, hget] at h
        simp at h
      | inr h =>
        obtain ⟨hdirect, e, hone, hpin, _⟩ := h
        have hid := hpin r hget
        have hmem : e ∈ s.completedOf d.goalId := by simp [hone]
        have hrow'' := Store.mem_decompositions_iff.mp (Store.mem_completedOf.mp hmem).1
        rw [← hid, hrow] at hrow''
        obtain rfl := Option.some.inj hrow''
        exact ⟨hdirect, hone⟩

/-- Assembled with the pins of the record, the goal gives the same file unless there is a clash. -/
theorem assemble_again_iff {pins again : Pins} {route : RecordedRoute} {file : Text}
    (hpins : s.pinMap [] routes = .ok pins) (hk : Kept s i pins again route) (hno : ¬ Overrides s i routes)
    (hfile : assemble s i routes preamble = .ok file) :
    ((∀ j, ¬ Clash s pins again j) → assemble s i route.routes preamble = .ok file) ∧
      (∀ file', assemble s i route.routes preamble = .ok file' → ∀ j, ¬ Clash s pins again j) := by
  obtain ⟨pins', text, name, h, hpins', hbody, hused, hf⟩ := assemble_ok.mp hfile
  obtain rfl := Except.ok.inj (hpins.symm.trans hpins')
  have hp := pinnedBy_of_pinMap hpins
  have hcase := same_or_clash hp hk hno
  cases assembleBody_follows hcase (g := startOf preamble) rfl hbody with
  | inl hsame =>
    obtain ⟨⟨g, hg, hheader⟩, hclear⟩ := hsame
    have hnone : ∀ j, ¬ Clash s pins again j := by
      intro j hc
      obtain ⟨r, hget⟩ := Option.ne_none_iff_exists'.mp hc.1
      cases hclear j (hused _ (mem_of_get hget)) with
      | inl hj => simp [startOf] at hj
      | inr hj => exact hj hc
    refine ⟨fun _ => ?_, fun _ _ => hnone⟩
    refine assemble_ok.mpr ⟨again, text, name, g, hk.pinned, hg, ?_, by rw [hf, hheader]⟩
    intro p hmem
    have hroot := hk.entries p hmem
    have hpin : again.get i ≠ none := by
      intro hnone'
      have := List.find?_eq_none.mp (Option.map_eq_none_iff.mp hnone') p hmem
      simp [hroot] at this
    rw [hroot]
    exact assembleBody_marks hpin hg
  | inr hfails =>
    obtain ⟨hfails, j, hc⟩ := hfails
    refine ⟨fun hnone => absurd hc (hnone j), fun file' hfile' => ?_⟩
    obtain ⟨again', _, _, _, hagain', hbody', _⟩ := assemble_ok.mp hfile'
    obtain rfl := Except.ok.inj (hk.pinned.symm.trans hagain')
    exact absurd hbody' (hfails _)

/-- A certified file can be rendered again from its record when every route named below the root
is the only way to assemble its goal, and only then, but for goals whose route was named over a
proof of their own. -/
theorem certified_again (sha256 : Text → Text) (s : Store) (i : GoalId) (runner : LeanRunner)
    (routes : List DecompositionId) (policy : AxiomPolicy) (preamble : Text) (res : AssemblyResult)
    (cert : Certification) (h : certify sha256 s i runner routes policy preamble = .ok (res, cert)) :
    (Forced s i routes → Reproducible sha256 s preamble cert) ∧
      (Reproducible sha256 s preamble cert → Forced s i routes ∨ Overrides s i routes) := by
  obtain ⟨text, pins, d, htext, hpins, htop, hgoal, hsha, hroute⟩ := certify_ok h
  obtain ⟨file, name, hfile, hname, htext⟩ := checkedText_ok.mp htext
  have hp := pinnedBy_of_pinMap hpins
  have hsome : s.directProof i = .ok none → d ≠ none := by
    intro hdirect hnone
    obtain ⟨pins', _, _, _, hpins', hbody, _⟩ := assemble_ok.mp hfile
    obtain rfl := Except.ok.inj (hpins.symm.trans hpins')
    obtain ⟨_, _, _, hcase⟩ := assembleBody_ok.mp hbody
    cases hcase with
    | inl hd =>
      obtain ⟨_, hd, _⟩ := hd
      exact absurd (hdirect.symm.trans hd.2) (by simp)
    | inr hr =>
      obtain ⟨_, d', _, _, hr, _⟩ := hr
      have htop' : s.topRoute i pins = s.routeFor pins i := by simp [Store.topRoute, hdirect]
      rw [htop', hr, hnone] at htop
      simp at htop
  obtain ⟨again, hk⟩ := kept_of_topRoute htop hsome
  have hiff : Reproducible sha256 s preamble cert ↔
      ∃ file', assemble s i (RecordedRoute.of d).routes preamble = .ok file' ∧
        sha256 (rstrip file' ++ "\n\n#print axioms ".toList ++ name ++ ['\n']) = sha256 text := by
    unfold Reproducible
    rw [hgoal, hroute, hsha]
    constructor
    · intro hex
      obtain ⟨t, ht, hs⟩ := hex
      obtain ⟨file', name', hf', hn', rfl⟩ := checkedText_ok.mp ht
      obtain rfl := Except.ok.inj (hname.symm.trans hn')
      exact ⟨file', hf', hs⟩
    · intro hex
      obtain ⟨file', hf', hs⟩ := hex
      exact ⟨_, checkedText_ok.mpr ⟨file', name, hf', hname, rfl⟩, hs⟩
  rw [hiff]
  constructor
  · intro hforced
    have hno : ¬ Overrides s i routes := by
      intro ho
      obtain ⟨r, hr, d, proof, hrow, hne, hd⟩ := ho
      exact absurd ((hforced r hr d hrow hne).1.symm.trans hd) (by simp)
    have hclear := (forced_iff_no_clash hp hk hno).mp hforced
    exact ⟨file, (assemble_again_iff hpins hk hno hfile).1 hclear, by rw [htext]⟩
  · intro hex
    obtain ⟨file', hf', _⟩ := hex
    by_cases ho : Overrides s i routes
    · exact Or.inr ho
    · exact Or.inl ((forced_iff_no_clash hp hk ho).mpr ((assemble_again_iff hpins hk ho hfile).2 file' hf'))

end

def routeSketch (parent cited : Text) : Sketch where
  parentName := parent
  parentSignature := "theorem ".toList ++ parent ++ " : P".toList
  parentBody := cited
  subgoals := [⟨cited, cited, "theorem ".toList ++ cited ++ " : P".toList⟩]

def twoRoutesGoal (i : GoalId) (name : Text) : Goal :=
  { id := i, identity := name, statement := "theorem ".toList ++ name ++ " : P".toList }

def twoRoutesEnv : Env Unit where
  attack g _ e := ((none, .ok (if g.id = 2 ∨ g.id = 3 then trivialProof else noProof)), e)
  propose _ e := (none, e)
  validateSketch _ _ e := (.ok ⟨true, []⟩, e)
  now e := (0, e)
  select := selectFirstOpen
  select_mem _ _ h := List.mem_of_head? h
  level := []

/-- `root` needs `b`, which is closed through `c` and through `d`. -/
def twoRoutes : Store :=
  (execAll twoRoutesEnv { owner := "w".toList } (World.fresh ())
    [.upsertGoal "root".toList "theorem root : P".toList,
     .recordDecomposition (twoRoutesGoal 0 "root".toList) (routeSketch "root".toList "b".toList),
     .recordDecomposition (twoRoutesGoal 1 "b".toList) (routeSketch "b".toList "c".toList),
     .recordDecomposition (twoRoutesGoal 1 "b".toList) (routeSketch "b".toList "d".toList),
     .solve 2 1 1, .solve 3 1 1]).store

def rootReport : LeanRunner := fun _ => .ok (0, noAxiomsReport "root".toList)

theorem twoRoutes_certified :
    ∃ res cert, certify id twoRoutes 0 rootReport [0, 1] {} [] = .ok (res, cert) := by
  have hsome : (certify id twoRoutes 0 rootReport [0, 1] {} []).toOption.isSome = true := by
    decide +kernel
  cases hc : certify id twoRoutes 0 rootReport [0, 1] {} [] with
  | error e => simp [hc, Except.toOption] at hsome
  | ok p => exact ⟨p.1, p.2, rfl⟩

theorem certified_again_twoRoutes :
    ∃ res cert, certify id twoRoutes 0 rootReport [0, 1] {} [] = .ok (res, cert) ∧
      (Forced twoRoutes 0 [0, 1] → Reproducible id twoRoutes [] cert) ∧
      (Reproducible id twoRoutes [] cert → Forced twoRoutes 0 [0, 1] ∨ Overrides twoRoutes 0 [0, 1]) := by
  obtain ⟨res, cert, h⟩ := twoRoutes_certified
  exact ⟨res, cert, h, certified_again id twoRoutes 0 rootReport [0, 1] {} [] res cert h⟩

/-- The record names the root's route only, and with that alone `b` has two. -/
theorem certified_not_again :
    ∃ res cert, certify id twoRoutes 0 rootReport [0, 1] {} [] = .ok (res, cert) ∧
      ¬ Reproducible id twoRoutes [] cert := by
  obtain ⟨res, cert, h⟩ := twoRoutes_certified
  refine ⟨res, cert, h, fun hr => ?_⟩
  obtain ⟨_, pins, d, _, hpins, htop, hgoal, _, hroute⟩ := certify_ok h
  have hrow : (twoRoutes.pinMap [] [0, 1]).toOption.map (fun pins => (twoRoutes.topRoute 0 pins).toOption.map
      fun d => RecordedRoute.of d) = some (some (.through 0)) := by
    decide +kernel
  simp only [hpins, htop, Except.toOption, Option.map_some, Option.some.injEq] at hrow
  obtain ⟨text, htext, _⟩ := hr
  rw [hgoal, hroute, hrow] at htext
  have hfails : (twoRoutes.checkedText 0 [0] []).toOption = none := by
    decide +kernel
  simp only [RecordedRoute.routes] at htext
  simp [htext, Except.toOption] at hfails

end EvoHarness.Proof
