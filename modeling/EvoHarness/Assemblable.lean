import EvoHarness.AssemblyTree
import EvoHarness.NoFalseProved

/-! When a PROVED goal can be assembled: exactly when every lemma with a route of its own
is cited by the name its route's sketch declares. -/
namespace EvoHarness.Proof
open PyText Relation Dag

namespace Store
variable {s : Store} {named : GoalId → Option DecompositionId} {i j k : GoalId}

theorem onTree_leaf (hi : s.chosen named i = none) (h : s.OnTree named i k) : k = i := by
  rcases ReflTransGen.cases_head h with rfl | ⟨j, ⟨d, hd, _⟩, _⟩
  · rfl
  · simp [hi] at hd

theorem agreesAt_leaf (hi : s.chosen named i = none) : s.AgreesAt named i := by
  intro q hq
  simp [lemmasAt, hi] at hq

theorem exists_lemma {d : DecompositionRow} {sk : Sketch} (hlen : sk.subgoals.length = d.subgoalIds.length)
    (hj : j ∈ d.subgoalIds) : ∃ q ∈ sk.subgoals.zip d.subgoalIds, q.2 = j := by
  have hmap : (sk.subgoals.zip d.subgoalIds).map Prod.snd = d.subgoalIds := List.map_snd_zip (by omega)
  rw [← hmap] at hj
  exact List.mem_map.mp hj

def Fits (s : Store) (named : GoalId → Option DecompositionId) (i : GoalId) : Prop :=
  (∀ r, named i = some r → ∃ d ∈ s.completedOf i, d.id = r) ∧
    (named i = none → s.proofOf i = none → (s.completedOf i).length ≤ 1)

end Store

theorem exists_right_of_forall₂ {α β : Type} {R : α → β → Prop} {as : List α} {bs : List β}
    (h : List.Forall₂ R as bs) {a : α} (ha : a ∈ as) : ∃ b, R a b := by
  induction h with
  | nil => simp at ha
  | cons hab _ ih =>
    rcases List.mem_cons.mp ha with rfl | ha
    · exact ⟨_, hab⟩
    · exact ih ha

section
variable {W : Sketch → Prop} {p : Snapshot} {pins : Pins} {i : GoalId} {n : ℕ}

/-- From a successful assembly: the name it returns, and that all lemmas below agree. -/
theorem Sound.agrees_of_ok (hs : Sound W p) {h h' : Hoisted} {text name : Text}
    (hok : assembleBody p.store pins n h i = .ok (text, name, h')) :
    name = p.store.declaredName pins.get i ∧
      ∀ k, p.store.OnTree pins.get i k → p.store.AgreesAt pins.get k := by
  induction n generalizing h i text name h' with
  | zero => simp [assembleBody] at hok
  | succ n ih =>
    rcases hs.assembleBody_cases hok with
      ⟨g, proof, hg, hchosen, _, _, rfl, _⟩ | ⟨d, sk, acc, hchosen, hsk, hacc, _, rfl, _⟩
    · refine ⟨by simp [Store.declaredName, Store.sketchAt, hchosen, hg], fun k hk => ?_⟩
      rw [Store.onTree_leaf hchosen hk]
      exact Store.agreesAt_leaf hchosen
    · obtain ⟨_, hsk', hlen, _⟩ := hs.sketch_chosen hchosen
      obtain rfl := Option.some.inj (hsk.symm.trans hsk')
      have hsketch : p.store.sketchAt pins.get i = some sk := (Store.sketchAt_eq hchosen).trans hsk
      have hlemmas := Store.lemmasAt_eq hchosen hsk
      -- every spliced lemma was assembled, under the name it is cited by
      have hbelow : ∀ q ∈ sk.subgoals.zip d.subgoalIds, p.store.spliced pins.get q.2 = true →
          q.1.name = p.store.declaredName pins.get q.2 ∧
            ∀ k, p.store.OnTree pins.get q.2 k → p.store.AgreesAt pins.get k := by
        intro q hq hsp
        obtain ⟨ts, _, hall⟩ := (spliceAll_ok hs.directProof hacc).preludes
        have hmem : q ∈ (sk.subgoals.zip d.subgoalIds).filter (p.store.spliced pins.get ·.2) :=
          List.mem_filter.mpr ⟨hq, hsp⟩
        obtain ⟨t, h₁, h₂, hbody⟩ := exists_right_of_forall₂ hall hmem
        exact ih hbody
      refine ⟨by simp [Store.declaredName, hsketch], fun k hk => ?_⟩
      rcases ReflTransGen.cases_head hk with rfl | ⟨j, ⟨d', hd', hj⟩, hjk⟩
      · intro q hq sk' hq'
        rw [hlemmas] at hq
        obtain ⟨e, he, _⟩ := Option.bind_eq_some_iff.mp hq'
        rw [(hbelow q hq (Store.spliced_of_chosen he)).1, Store.declaredName, hq']
      · obtain rfl := Option.some.inj (hchosen.symm.trans hd')
        obtain ⟨q, hq, rfl⟩ := Store.exists_lemma hlen hj
        cases hc : p.store.chosen pins.get q.2 with
        | none =>
          rw [Store.onTree_leaf hc hjk]
          exact Store.agreesAt_leaf hc
        | some e => exact (hbelow q hq (Store.spliced_of_chosen hc)).2 k hjk

theorem Sound.routeFor_ok (hs : Sound W p) (hp : p.store.Proved i) (hfit : p.store.Fits pins.get i)
    (hsp : p.store.spliced pins.get i = true) : ∃ d, p.store.routeFor pins i = .ok (some d) := by
  unfold Store.routeFor
  cases hpin : pins.get i with
  | some r =>
    obtain ⟨d, hd, rfl⟩ := hfit.1 r hpin
    obtain ⟨d', hd'⟩ := Option.isSome_iff_exists.mp
      (List.find?_isSome (p := fun e => decide (e.id = d.id)) |>.mpr ⟨d, hd, by simp⟩)
    exact ⟨d', by simp only [hd']⟩
  | none =>
    have hproof : p.store.proofOf i = none := by simpa [Store.spliced, hpin] using hsp
    have hcompleted : p.store.completedOf i ≠ [] := by
      rcases hs.grounded i hp with ⟨a, ha, hg, ho⟩ | ⟨d, hd, hg, hc⟩
      · -- a proved attempt would be the goal's own proof
        have hmem : a ∈ p.store.attemptsOf i := by simp [Store.attemptsOf, ha, hg]
        obtain ⟨a', ha'⟩ := Option.isSome_iff_exists.mp
          (List.find?_isSome (p := fun a : Attempt => decide (a.outcome = .proved)) |>.mpr ⟨a, hmem, by simp [ho]⟩)
        have ho' : a'.outcome = .proved := by simpa using List.find?_some ha'
        have htext := hs.texts a' (List.mem_filter.mp (List.mem_of_find?_eq_some ha')).1 ho'
        rw [Store.proofOf, ha', Option.bind_some] at hproof
        simp [hproof] at htext
      · exact List.ne_nil_of_mem (Store.mem_completedOf.mpr ⟨hd, hg, hc⟩)
    have hlen := hfit.2 hpin hproof
    cases hds : p.store.completedOf i with
    | nil => exact absurd hds hcompleted
    | cons d ds =>
      cases ds with
      | nil => exact ⟨d, rfl⟩
      | cons e ds => simp [hds] at hlen

/-- The loop goes through when every spliced lemma assembles under its name. `K` says
which pinned goals assembling a lemma comes to. -/
theorem spliceAll_exists {s : Store} (hdirect : ∀ i, s.directProof i = .ok (s.proofOf i))
    (body : Hoisted → GoalId → Except AssemblyFault (Text × Text × Hoisted))
    (K : GoalId → GoalId → Prop) {l : List (SubgoalSpec × GoalId)}
    (hbody : ∀ q ∈ l, s.spliced pins.get q.2 = true → ∀ h, ∃ t h', body h q.2 = .ok (t, q.1.name, h') ∧
      h.used ⊆ h'.used ∧ ∀ k, K q.2 k → k ∈ h'.used) (acc : Spliced) :
    ∃ acc', spliceAll s pins body acc l = .ok acc' ∧ acc.hoisted.used ⊆ acc'.hoisted.used ∧
      ∀ q ∈ l, s.spliced pins.get q.2 = true → ∀ k, K q.2 k → k ∈ acc'.hoisted.used := by
  induction l generalizing acc with
  | nil => exact ⟨acc, rfl, List.Subset.refl _, by simp⟩
  | cons q l ih =>
    have ih := fun acc => ih (fun q' hq' => hbody q' (List.mem_cons_of_mem q hq')) acc
    rw [spliceAll_cons hdirect]
    by_cases hsp : s.spliced pins.get q.2 = true
    · obtain ⟨t, h', hb, hsub, hused⟩ := hbody q (List.mem_cons_self ..) hsp acc.hoisted
      simp only [hsp, if_true, hb]
      obtain ⟨acc', hok, hsub', hall⟩ := ih { acc with
        preludes := acc.preludes ++ [t], omitted := q.1.name :: acc.omitted, hoisted := h' }
      refine ⟨acc', hok, fun x hx => hsub' (hsub hx), fun q' hq' hsp' k hk => ?_⟩
      rcases List.mem_cons.mp hq' with rfl | hq'
      · exact hsub' (hused k hk)
      · exact hall q' hq' hsp' k hk
    · simp only [hsp]
      obtain ⟨acc', hok, hsub, hall⟩ := ih
        { acc with bodies := acc.bodies.set q.1.name ((s.proofOf q.2).getD []) }
      refine ⟨acc', hok, hsub, fun q' hq' hsp' k hk => ?_⟩
      rcases List.mem_cons.mp hq' with rfl | hq'
      · exact absurd hsp' hsp
      · exact hall q' hq' hsp' k hk

/-- If all lemmas below agree, the goal assembles, and every pin below is used. `rank`
bounds the depth of the tree. -/
theorem Sound.assembles (hs : Sound W p) {rank : GoalId → ℕ}
    (hrank : ∀ a b, p.store.Sub a b → rank b < rank a) (hn : rank i < n) (hp : p.store.Proved i)
    (hall : ∀ k, p.store.OnTree pins.get i k → p.store.Fits pins.get k ∧ p.store.AgreesAt pins.get k)
    (h : Hoisted) :
    ∃ text h', assembleBody p.store pins n h i = .ok (text, p.store.declaredName pins.get i, h') ∧
      h.used ⊆ h'.used ∧ ∀ k, p.store.OnTree pins.get i k → pins.get k ≠ none → k ∈ h'.used := by
  induction n generalizing i h with
  | zero => exact absurd hn (Nat.not_lt_zero _)
  | succ n ih =>
    obtain ⟨g, hg, hgp⟩ := hp
    cases hsp : p.store.spliced pins.get i
    · simp only [Store.spliced, ne_eq, decide_eq_false_iff_not, not_or, not_not] at hsp
      obtain ⟨proof, hproof⟩ := Option.ne_none_iff_exists'.mp hsp.2
      have hchosen : p.store.chosen pins.get i = none := by simp [Store.chosen, hsp.1, hproof]
      have hname : p.store.declaredName pins.get i = assemblyName g.statement := by
        simp [Store.declaredName, Store.sketchAt, hchosen, hg]
      rw [hs.assembleBody_direct hg hgp hsp.1 hproof, hname]
      refine ⟨_, h, rfl, List.Subset.refl _, ?_⟩
      intro k hk hpin
      rw [Store.onTree_leaf hchosen hk] at hpin
      exact absurd hsp.1 hpin
    · obtain ⟨d, hroute⟩ := hs.routeFor_ok ⟨g, hg, hgp⟩ (hall i .refl).1 hsp
      have hchosen := Store.chosen_of_routeFor hsp hroute
      obtain ⟨sk, hsk, hlen, _⟩ := hs.sketch_chosen hchosen
      have hsketch : p.store.sketchAt pins.get i = some sk := (Store.sketchAt_eq hchosen).trans hsk
      have hlemmas := Store.lemmasAt_eq hchosen hsk
      rw [hs.assembleBody_spliced hg hgp hsp hroute hsk]
      have hstep : ∀ q ∈ sk.subgoals.zip d.subgoalIds,
          ∃ e, p.store.chosen pins.get i = some e ∧ q.2 ∈ e.subgoalIds :=
        fun q hq => ⟨d, hchosen, (List.of_mem_zip hq).2⟩
      obtain ⟨acc, hacc, hsub, hused⟩ := spliceAll_exists hs.directProof
        (assembleBody p.store pins n) (fun j k => p.store.OnTree pins.get j k ∧ pins.get k ≠ none)
        (fun q (hq : q ∈ sk.subgoals.zip d.subgoalIds) hq' h => by
          have htree := hstep q hq
          obtain ⟨hedge, hproved⟩ := hs.below_chosen hchosen (List.of_mem_zip hq).2
          have hbelow := fun k (hk : p.store.OnTree pins.get q.2 k) => hall k (.head htree hk)
          obtain ⟨t, h', hok, hsub, hused⟩ := ih (i := q.2)
            (Nat.lt_of_lt_of_le (hrank _ _ hedge) (Nat.le_of_lt_succ hn)) hproved hbelow h
          refine ⟨t, h', ?_, hsub, fun k hk => hused k hk.1 hk.2⟩
          -- the lemma's own route declares it under the name it is cited by
          obtain ⟨e, hroute'⟩ := hs.routeFor_ok hproved (hbelow q.2 .refl).1 hq'
          have hchosen' := Store.chosen_of_routeFor hq' hroute'
          obtain ⟨sk', hsk', _⟩ := hs.sketch_chosen hchosen'
          have hsketch' : p.store.sketchAt pins.get q.2 = some sk' :=
            (Store.sketchAt_eq hchosen').trans hsk'
          have hname := (hall i .refl).2 q (hlemmas ▸ hq) sk' hsketch'
          rw [hok, Store.declaredName, hsketch']
          simp only [hname])
        { hoisted := h.enter pins i sk }
      have hname : p.store.declaredName pins.get i = sk.parentName := by
        simp [Store.declaredName, hsketch]
      simp only [hacc, Except.map, hname]
      refine ⟨_, acc.hoisted, rfl, ?_, ?_⟩
      · refine fun x hx => hsub ?_
        revert x
        unfold Hoisted.enter
        split
        · exact List.Subset.refl _
        · exact List.subset_cons_self ..
      · intro k hk hpin
        rcases ReflTransGen.cases_head hk with rfl | ⟨j, ⟨d', hd', hj⟩, hjk⟩
        · refine hsub ?_
          simp [Hoisted.enter, hpin]
        · obtain rfl := Option.some.inj (hchosen.symm.trans hd')
          obtain ⟨q, hq, rfl⟩ := Store.exists_lemma hlen hj
          cases hc : p.store.chosen pins.get q.2 with
          | none =>
            -- a pinned goal has its route, so it is no leaf
            obtain rfl := Store.onTree_leaf hc hjk
            have hsp' : p.store.spliced pins.get q.2 = true := by simp [Store.spliced, hpin]
            obtain ⟨e, he⟩ := hs.routeFor_ok (hs.below_chosen hchosen hj).2
              (hall q.2 (.single (hstep q hq))).1 hsp'
            simp [Store.chosen_of_routeFor hsp' he] at hc
          | some e => exact hused q hq (Store.spliced_of_chosen hc) k ⟨hjk, hpin⟩

end

namespace Store

def named (s : Store) (routes : List DecompositionId) (i : GoalId) : Option DecompositionId :=
  routes.find? fun r => (s.decomposition r).map (·.goalId) = some i

/-- Completed decompositions, one for each goal on the tree that needs one, and none for
a goal off it. -/
structure NamesRoutes (s : Store) (i : GoalId) (routes : List DecompositionId) : Prop where
  completed : ∀ r ∈ routes, ∃ d, s.decomposition r = some d ∧ d.status = .completed
  onePerGoal : ∀ r ∈ routes, ∀ r' ∈ routes, ∀ d d', s.decomposition r = some d →
    s.decomposition r' = some d' → d.goalId = d'.goalId → r = r'
  onTree : ∀ r ∈ routes, ∀ d, s.decomposition r = some d → s.OnTree (s.named routes) i d.goalId
  several : ∀ k, s.OnTree (s.named routes) i k → s.named routes k = none → s.proofOf k = none →
    (s.completedOf k).length ≤ 1

theorem Pins.get_cons {pins : Pins} {i j : GoalId} {r : DecompositionId} :
    Pins.get ((j, r) :: pins) i = if j = i then some r else pins.get i := by
  by_cases h : j = i <;> simp [Pins.get, h]

theorem named_append {s : Store} {rs : List DecompositionId} {r : DecompositionId} {d : DecompositionRow}
    (hd : s.decomposition r = some d) (i : GoalId) :
    s.named (rs ++ [r]) i = (s.named rs i).or (if d.goalId = i then some r else none) := by
  by_cases h : d.goalId = i <;> simp [named, List.find?_append, hd, h]

/-- `_pin_map` finds for each goal the route named for it first. -/
theorem named_of_pinMap {s : Store} {routes done : List DecompositionId} {pins pins' : Pins}
    (hok : s.pinMap pins routes = .ok pins') (hpins : pins.get = s.named done) :
    pins'.get = s.named (done ++ routes) := by
  induction routes generalizing done pins with
  | nil =>
    obtain rfl := Except.ok.inj hok
    simpa using hpins
  | cons r routes ih =>
    have hassoc : done ++ r :: routes = (done ++ [r]) ++ routes := by simp
    rw [hassoc]
    unfold pinMap at hok
    cases hd : s.decomposition r with
    | none => simp [hd] at hok
    | some d =>
      by_cases hst : d.status = .completed
      · simp only [hd, hst, ne_eq, not_true, if_false] at hok
        cases hget : pins.get d.goalId with
        | none =>
          simp only [hget] at hok
          refine ih hok (funext fun i => ?_)
          rw [Pins.get_cons, named_append hd, hpins]
          by_cases hi : d.goalId = i
          · subst hi
            rw [hpins] at hget
            simp [hget]
          · simp [hi]
        | some already =>
          by_cases hr : already = r
          · simp only [hget, hr, if_true] at hok
            refine ih hok (funext fun i => ?_)
            rw [named_append hd, hpins]
            by_cases hi : d.goalId = i
            · subst hi
              rw [hpins] at hget
              simp [hget]
            · simp [hi]
          · simp [hget, hr] at hok
      · simp [hd, hst] at hok

/-- Completed routes, no two of them for one goal, pass `_pin_map`. -/
theorem get_of_pinMap {s : Store} {routes : List DecompositionId} {pins : Pins} (h : s.pinMap [] routes = .ok pins) :
    pins.get = s.named routes := by
  have hnone : Pins.get [] = s.named [] := rfl
  exact named_of_pinMap h hnone

theorem pinMap_ok {s : Store} {routes done : List DecompositionId} {pins : Pins}
    (hcomp : ∀ r ∈ done ++ routes, ∃ d, s.decomposition r = some d ∧ d.status = .completed)
    (hone : ∀ r ∈ done ++ routes, ∀ r' ∈ done ++ routes, ∀ d d', s.decomposition r = some d →
      s.decomposition r' = some d' → d.goalId = d'.goalId → r = r')
    (hpins : pins.get = s.named done) : ∃ pins', s.pinMap pins routes = .ok pins' := by
  induction routes generalizing done pins with
  | nil => exact ⟨pins, rfl⟩
  | cons r routes ih =>
    have hr : r ∈ done ++ r :: routes := by simp
    obtain ⟨d, hd, hst⟩ := hcomp r hr
    have hassoc : done ++ r :: routes = (done ++ [r]) ++ routes := by simp
    obtain ⟨pins₁, hone₁, hstep⟩ : ∃ pins₁, s.pinMap pins [r] = .ok pins₁ ∧
        s.pinMap pins (r :: routes) = s.pinMap pins₁ routes := by
      simp only [pinMap, hd, hst, ne_eq, not_true, if_false]
      cases hget : pins.get d.goalId with
      | none => exact ⟨_, rfl, rfl⟩
      | some already =>
        -- the route named before for this goal is the same one
        have hnamed : s.named done d.goalId = some already := by rw [← hpins, hget]
        have hmem := List.mem_of_find?_eq_some hnamed
        have hgoal : (s.decomposition already).map (·.goalId) = some d.goalId := by
          simpa using List.find?_some hnamed
        obtain ⟨d', hd', hdg⟩ := Option.map_eq_some_iff.mp hgoal
        obtain rfl := hone already (by simp [hmem]) r hr d' d hd' hd hdg
        exact ⟨pins, by simp, by simp⟩
    rw [hstep]
    exact ih (hassoc ▸ hcomp) (hassoc ▸ hone) (named_of_pinMap hone₁ hpins)

theorem named_spec {s : Store} {routes : List DecompositionId} {i : GoalId} {r : DecompositionId}
    (h : s.named routes i = some r) : r ∈ routes ∧ ∃ d, s.decomposition r = some d ∧ d.goalId = i := by
  refine ⟨List.mem_of_find?_eq_some h, ?_⟩
  have hgoal : (s.decomposition r).map (·.goalId) = some i := by simpa using List.find?_some h
  exact Option.map_eq_some_iff.mp hgoal

theorem NamesRoutes.fits {s : Store} {i k : GoalId} {routes : List DecompositionId}
    (h : s.NamesRoutes i routes) (hk : s.OnTree (s.named routes) i k) : s.Fits (s.named routes) k := by
  refine ⟨fun r hr => ?_, h.several k hk⟩
  obtain ⟨hmem, d, hd, hg⟩ := named_spec hr
  obtain ⟨d', hd', hst⟩ := h.completed r hmem
  obtain rfl := Option.some.inj (hd.symm.trans hd')
  exact ⟨d, mem_completedOf.mpr ⟨List.mem_of_getElem? hd, hg, hst⟩, decomposition_id hd⟩

end Store

/-- In every state a run commits, with the routes named that the tree needs, a PROVED goal
is assembled exactly when on its tree every lemma that has a route of its own is cited by
the name that route's sketch declares. -/
theorem assembled_iff_names_agree {σ : Type} (env : Env σ) (cfg : Config) (e : σ) (cs : List Command)
    (p : Snapshot) (hp : p ∈ (execAll env cfg (World.fresh e) cs).states) (i : GoalId)
    (hi : p.store.Proved i) (routes : List DecompositionId) (hroutes : p.store.NamesRoutes i routes)
    (preamble : Text) :
    (∃ text, assemble p.store i routes preamble = .ok text) ↔
      ∀ k, p.store.OnTree (p.store.named routes) i k → p.store.AgreesAt (p.store.named routes) k := by
  have hany : ∀ c ∈ cs, c.Admits fun _ => True := fun c _ => by cases c <;> trivial
  have hs := sound_of_run (W := fun _ => True) (fun _ _ _ _ => trivial) hany hp
  have hnone : Pins.get [] = p.store.named [] := rfl
  obtain ⟨pins, hpins⟩ := Store.pinMap_ok hroutes.completed hroutes.onePerGoal hnone
  have hget := Store.get_of_pinMap hpins
  rw [← hget]
  constructor
  · rintro ⟨text, hok⟩
    obtain ⟨pins', body, name, h, hpins', hbody, -⟩ := assemble_ok.mp hok
    obtain rfl := Except.ok.inj (hpins.symm.trans hpins')
    exact (hs.agrees_of_ok hbody).2
  · intro hagree
    obtain ⟨rank, hn, hrank⟩ := hs.exists_rank
    have hbelow : ∀ k, p.store.OnTree pins.get i k →
        p.store.Fits pins.get k ∧ p.store.AgreesAt pins.get k :=
      fun k hk => ⟨hget ▸ hroutes.fits (hget ▸ hk), hagree k hk⟩
    obtain ⟨text, h, hok, _, hused⟩ := hs.assembles hrank (hn i) hi hbelow (startOf preamble)
    have hused' : ∀ q ∈ pins, q.1 ∈ h.used := by
      intro q hq
      have hne : pins.get q.1 ≠ none := by
        simp only [Pins.get, ne_eq, Option.map_eq_none_iff, List.find?_eq_none, not_forall]
        exact ⟨q, hq, by simp⟩
      obtain ⟨r, hr⟩ := Option.ne_none_iff_exists'.mp hne
      obtain ⟨hmem, d, hd, hg⟩ := Store.named_spec (hget ▸ hr)
      exact hused q.1 (hget ▸ hg ▸ hroutes.onTree r hmem d hd) hne
    exact ⟨_, assemble_ok.mpr ⟨pins, text, _, h, hpins, hok, hused', rfl⟩⟩

theorem Store.namesRoutes_nil {s : Store} {i : GoalId} (h : (s.decompositions.map (·.goalId)).Nodup) :
    s.NamesRoutes i [] where
  completed := by simp
  onePerGoal := by simp
  onTree := by simp
  several k _ _ _ := by
    have hcount := List.nodup_iff_count_le_one.mp h k
    rw [List.count_eq_length_filter, List.filter_map, List.length_map] at hcount
    refine (List.length_filter_le ..).trans ?_
    simpa [Store.decompositionsOf, Function.comp_def, beq_eq_decide] using hcount

def leafRun : Snapshot :=
  (execAll leafEnv { owner := "w".toList } (World.fresh ())
    [.upsertGoal "root".toList "theorem root : P".toList, .solve 0 1 3]).toSnapshot

theorem assembled_iff_names_agree_leaf :
    (∃ text, assemble leafRun.store 0 [] [] = .ok text) ↔
      ∀ k, leafRun.store.OnTree (leafRun.store.named []) 0 k →
        leafRun.store.AgreesAt (leafRun.store.named []) k :=
  assembled_iff_names_agree leafEnv { owner := "w".toList } () _ leafRun (List.mem_cons_self ..) 0
    (statusOf_proved (by decide +kernel)) [] (Store.namesRoutes_nil (by decide +kernel)) []

def replyOld : Text :=
  ("\x7b\"lemmas\": [\x7b\"name\": \"leaf\", \"signature\": \"theorem leaf : L\"\x7d], " ++
    "\"parent_body\": \"leaf\"\x7d").toList

def replyTop : Text :=
  ("\x7b\"lemmas\": [\x7b\"name\": \"fresh\", \"signature\": \"theorem fresh : M\"\x7d], " ++
    "\"parent_body\": \"fresh\"\x7d").toList

def payload (name signature body : String) : Json :=
  .object [] [("lemmas".toList, .array [] [.object [] [("name".toList, .string name.toList),
    ("signature".toList, .string signature.toList)]]), ("parent_body".toList, .string body.toList)]

def loadsReply (t : Text) : Except Text Json :=
  if t = replyOld then .ok (payload "leaf" "theorem leaf : L" "leaf")
  else if t = replyTop then .ok (payload "fresh" "theorem fresh : M" "fresh")
  else .error "Expecting value".toList

/-- Only the leaf is proved directly; every other goal gets a route of one lemma. -/
def memoEnv : Env Unit where
  attack g _ e :=
    ((none, .ok (if g.statement = "theorem leaf : L".toList then trivialProof else noProof)), e)
  propose g e := (proposeFrom loadsReply (exactText id) (assemblyName g.statement) []
    (if g.statement = "theorem old : M".toList then replyOld else replyTop) g, e)
  validateSketch _ _ e := (.ok ⟨true, []⟩, e)
  now e := (0, e)
  select := selectFirstOpen
  select_mem _ _ h := List.mem_of_head? h
  level := []

def memoRun : Snapshot :=
  (execAll memoEnv { owner := "w".toList } (World.fresh ())
    [.upsertGoal (exactText id "theorem old : M".toList) "theorem old : M".toList,
      .upsertGoal (exactText id "theorem top : Q".toList) "theorem top : Q".toList,
      .solve 0 1 5, .solve 1 1 5]).toSnapshot

/-- The goal `M` was first asked for as `old`; the second sketch cites it as `fresh`. -/
theorem memo_not_assembled :
    memoRun.store.Proved 1 ∧ memoRun.store.NamesRoutes 1 [] ∧
      assemble memoRun.store 1 = .error (.assemblyError
        ("subgoal 0 assembles as `old` but its parent's sketch calls it `fresh`; " ++
          "the spliced text would not define what the parent cites").toList) := by
  have hrun : memoRun.store.statusOf 1 = .proved ∧
      (memoRun.store.decompositions.map (·.goalId)).Nodup ∧
        assemble memoRun.store 1 = .error (.assemblyError
          ("subgoal 0 assembles as `old` but its parent's sketch calls it `fresh`; " ++
            "the spliced text would not define what the parent cites").toList) := by
    decide +kernel
  exact ⟨statusOf_proved hrun.1, Store.namesRoutes_nil hrun.2.1, hrun.2.2⟩

end EvoHarness.Proof
