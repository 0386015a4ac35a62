import EvoHarness.Header
import EvoHarness.Library.LeanDeclarations
import EvoHarness.Library.Postorder

/-! What an assembled file declares: when it declares nothing twice, and every lemma before the body that cites it. -/
namespace EvoHarness.Proof
open PyText Relation Postorder LeanDeclarations FirstSeen

/-- A lemma or a goal as the file has it, under the name that it is cited by. -/
structure Declaration where
  name : Text
  goalId : GoalId
  text : Text

/-- What the text of the declaration declares, helpers in its body included. -/
def Declaration.declared (d : Declaration) : List Text := declaredIn d.text

/-- What one goal adds to the file: the lemmas laid out with it, its own declaration, and
the lemmas the body of that cites, each with the goal it resolved to. -/
structure Block where
  lemmas : List Declaration
  goal : Declaration
  cites : List (Text × GoalId)

def Block.declarations (b : Block) : List Declaration := b.lemmas ++ [b.goal]

def Block.names (b : Block) : List Text := b.declarations.flatMap Declaration.declared

def Block.text (b : Block) : Text := join ['\n', '\n'] (b.declarations.map (·.text)) ++ ['\n']

def laidOut (signature body : Text) : Text := join ['\n'] (declarationText signature body).dropLast

namespace Store
variable (s : Store) (named : GoalId → Option DecompositionId)

def lemmaDeclaration (q : SubgoalSpec × GoalId) : Declaration :=
  ⟨q.1.name, q.2, laidOut q.1.signature ((s.proofOf q.2).getD [])⟩

def routeBlock (i : GoalId) (k : Sketch) : Block where
  lemmas := ((s.lemmasAt named i).filter fun q => !s.spliced named q.2).map s.lemmaDeclaration
  goal := ⟨k.parentName, i, rstrip (laidOut k.parentSignature k.parentBody)⟩
  cites := (s.lemmasAt named i).map fun q => (q.1.name, q.2)

def directBlock (i : GoalId) : Block :=
  let statement := ((s.goal i).map (·.statement)).getD []
  { lemmas := []
    goal := ⟨assemblyName statement, i, statement ++ " := ".toList ++ (s.proofOf i).getD []⟩
    cites := [] }

def blockAt (i : GoalId) : Block :=
  match s.sketchAt named i with
  | some k => s.routeBlock named i k
  | none => s.directBlock i

def routed (i : GoalId) : List GoalId :=
  ((s.lemmasAt named i).filter (s.spliced named ·.2)).map Prod.snd

def blocks (i : GoalId) : List Block :=
  (postorder (s.routed named) (assemblyDepth s) i).map (s.blockAt named)

def headerLines (routes : List DecompositionId) (preamble : Text) (i : GoalId) : List Text :=
  addAll (splitlines (strip preamble)) (preambleLines (s.sketchesOf routes i))

/-- Where a lemma is declared: its own route declares it as its goal, if it has one. -/
def declarationOf (q : SubgoalSpec × GoalId) : Declaration :=
  if s.spliced named q.2 then (s.blockAt named q.2).goal else s.lemmaDeclaration q

/-- No lemma with a route of its own is shared, nothing that is laid out declares a name twice or one that something
else declares, and every lemma is declared under the name it is cited by. -/
structure LaidOutApart (header : List Text) (i : GoalId) : Prop where
  heading : (declaredIn (join ['\n'] header)).Nodup
  unshared : ∀ j k, Walked (s.routed named) i j → Walked (s.routed named) i k →
    ∀ l ∈ s.routed named j, l ∈ s.routed named k → j = k
  distinct : ∀ j, Walked (s.routed named) i j → (s.blockAt named j).names.Nodup
  apart : ∀ j k, Walked (s.routed named) i j → Walked (s.routed named) i k → j ≠ k →
    (s.blockAt named j).names.Disjoint (s.blockAt named k).names
  headed : ∀ j, Walked (s.routed named) i j → (declaredIn (join ['\n'] header)).Disjoint (s.blockAt named j).names
  cited : ∀ j, Walked (s.routed named) i j → ∀ q ∈ s.lemmasAt named j, q.1.name ∈ (s.declarationOf named q).declared

/-- Everything that is laid out can be read on its own. -/
structure Finished (header : List Text) (i : GoalId) : Prop where
  heading : Complete (join ['\n'] header)
  declarations : ∀ j, Walked (s.routed named) i j → ∀ d ∈ (s.blockAt named j).declarations, Complete d.text

end Store

def DeclaresOnce (text : Text) : Prop := (declaredIn text).Nodup

/-- Every lemma a body cites is declared before it under the name it cites, with the body's
own route or as the goal of an earlier one. -/
def DeclaresFirst (bs : List Block) : Prop :=
  ∀ before b after, bs = before ++ b :: after → ∀ c ∈ b.cites,
    ∃ d ∈ before.map Block.goal ++ b.lemmas, d.name = c.1 ∧ d.goalId = c.2 ∧ c.1 ∈ d.declared

def fileText (header : List Text) (bs : List Block) : Text :=
  (if header ≠ [] then join ['\n'] header ++ "\n\n".toList else []) ++
    join "\n\n".toList (bs.map (·.text))

theorem join_append {sep : Text} {l m : List Text} (hl : l ≠ []) (hm : m ≠ []) :
    join sep (l ++ m) = join sep l ++ sep ++ join sep m := by
  induction l with
  | nil => exact absurd rfl hl
  | cons t l ih =>
    cases l with
    | nil => exact join_cons hm
    | cons u l =>
      rw [List.cons_append, join_cons (by simp), join_cons (by simp), ih (by simp)]
      simp

theorem join_flatten {sep : Text} {ls : List (List Text)} (h : ∀ l ∈ ls, l ≠ []) :
    join sep (ls.map (join sep)) = join sep ls.flatten := by
  induction ls with
  | nil => rfl
  | cons l ls ih =>
    have hl := h l (List.mem_cons_self ..)
    have ih := ih fun m hm => h m (List.mem_cons_of_mem l hm)
    cases ls with
    | nil => simp [join]
    | cons m ls =>
      have hm := h m (by simp)
      have hne : (m :: ls).flatten ≠ [] := by simp [hm]
      rw [List.map_cons, join_cons (by simp), ih]
      exact (join_append hl hne).symm

theorem laidOut_lines (signature body : Text) : ∃ lines, lines ≠ [] ∧
    declarationText signature body = lines ++ [[]] ∧ laidOut signature body = join ['\n'] lines := by
  unfold laidOut declarationText
  rw [List.dropLast_concat]
  refine ⟨_, ?_, rfl, rfl⟩
  split
  · simp
  · simp

theorem laidOut_inked (signature body : Text) : isBlank (laidOut signature body) = false := by
  have hmark : ':' ∈ laidOut signature body := by
    unfold laidOut declarationText
    rw [List.dropLast_concat]
    split
    · cases splitlines body with
      | nil => simp [join]
      | cons line lines => simp [join]
    · simp [join]
  rw [Bool.eq_false_iff]
  intro hblank
  exact absurd (isBlank_iff.mp hblank ':' hmark) (by decide)

theorem join_declarations {ds : List (Text × Text)} (h : ds ≠ []) :
    join ['\n'] (ds.flatMap fun d => declarationText d.1 d.2) =
      join ['\n', '\n'] (ds.map fun d => laidOut d.1 d.2) ++ ['\n'] := by
  induction ds with
  | nil => exact absurd rfl h
  | cons d ds ih =>
    obtain ⟨lines, hne, hlines, htext⟩ := laidOut_lines d.1 d.2
    have hone : join ['\n'] (declarationText d.1 d.2) = laidOut d.1 d.2 ++ ['\n'] := by
      rw [hlines, join_append hne (by simp), htext]
      simp [join]
    cases ds with
    | nil => simpa [join] using hone
    | cons e ds =>
      have hnext : (e :: ds).flatMap (fun d => declarationText d.1 d.2) ≠ [] := by
        simp [declarationText]
      have hfirst : declarationText d.1 d.2 ≠ [] := by simp [declarationText]
      have hcons : join ['\n', '\n'] ((d :: e :: ds).map fun d => laidOut d.1 d.2) = laidOut d.1 d.2 ++ ['\n', '\n'] ++
          join ['\n', '\n'] ((e :: ds).map fun d => laidOut d.1 d.2) := join_cons (by simp)
      rw [List.flatMap_cons, join_append hfirst hnext, hone, ih (by simp), hcons]
      simp only [List.append_assoc, List.cons_append, List.nil_append]

/-- The renderer's lines, stripped at their end, are the declarations with a blank line between them. -/
theorem rstrip_declarations (ds : List (Text × Text)) (d : Text × Text) :
    rstrip (join ['\n'] ((ds ++ [d]).flatMap fun d => declarationText d.1 d.2)) =
      join ['\n', '\n'] (ds.map (fun d => laidOut d.1 d.2) ++ [rstrip (laidOut d.1 d.2)]) := by
  rw [join_declarations (by simp), rstrip_append_blank (by decide), List.map_append, List.map_singleton]
  by_cases hds : ds.map (fun d => laidOut d.1 d.2) = []
  · rw [hds]
    rfl
  · rw [join_append hds (by simp), join_append hds (by simp)]
    exact rstrip_append_ink (laidOut_inked d.1 d.2)

theorem find?_of_unique {α : Type} {l : List α} {P : α → Bool} {a : α} (ha : a ∈ l) (hp : P a = true)
    (huniq : ∀ b ∈ l, P b = true → b = a) : l.find? P = some a := by
  cases hf : l.find? P with
  | none => exact absurd hp (List.find?_eq_none.mp hf a ha)
  | some b => rw [huniq b (List.mem_of_find?_eq_some hf) (List.find?_some hf)]

theorem renderSubgoals_lines {bodies : Dict Text} {omitted : List Text} {l : Layout}
    {specs : List SubgoalSpec} :
    (renderSubgoals bodies omitted l specs).lines = l.lines ++
      (specs.filter (·.name ∉ omitted)).flatMap fun spec =>
        declarationText spec.signature ((bodies.get spec.name).getD "sorry".toList) := by
  induction specs generalizing l with
  | nil => simp [renderSubgoals]
  | cons spec specs ih =>
    by_cases h : spec.name ∈ omitted
    · simp [renderSubgoals, h, ih]
    · simp [renderSubgoals, h, ih, emit]

section
variable {W : Sketch → Prop} {p : Snapshot} {pins : Pins} {i j : GoalId} {n : ℕ} {h h' : Hoisted}
  {text name : Text}

theorem render_collected {s : Store} {k : Sketch} {ids : List GoalId} {acc : Spliced} {hh : Hoisted}
    {body : Hoisted → GoalId → Except AssemblyFault (Text × Text × Hoisted)}
    (hc : Collected s pins body { hoisted := hh } acc (k.subgoals.zip ids))
    (hlen : k.subgoals.length = ids.length) (hnd : (k.subgoals.map (·.name)).Nodup)
    (hl : s.lemmasAt pins.get i = k.subgoals.zip ids) :
    (render k acc.bodies false acc.omitted).text = (s.routeBlock pins.get i k).text := by
  have hmap : k.subgoals = (k.subgoals.zip ids).map Prod.fst := (List.map_fst_zip (by omega)).symm
  have hnames : ((k.subgoals.zip ids).map (·.1.name)).Nodup := by
    rw [hmap, List.map_map] at hnd
    exact hnd
  have hinj : ∀ q ∈ k.subgoals.zip ids, ∀ q' ∈ k.subgoals.zip ids, q.1.name = q'.1.name → q = q' :=
    fun q hq q' hq' h => List.inj_on_of_nodup_map hnames hq hq' h
  have homit : ∀ q ∈ k.subgoals.zip ids, (q.1.name ∉ acc.omitted ↔ s.spliced pins.get q.2 = false) := by
    intro q hq
    rw [hc.omitted, not_iff_comm]
    simp only [List.not_mem_nil, false_or, Bool.not_eq_false]
    constructor
    · intro h
      exact ⟨q, hq, h, rfl⟩
    · rintro ⟨q', hq', hsp, hname⟩
      exact hinj q' hq' q hq hname ▸ hsp
  have hbody : ∀ q ∈ k.subgoals.zip ids, s.spliced pins.get q.2 = false →
      acc.bodies.get q.1.name = some ((s.proofOf q.2).getD []) := by
    intro q hq hsp
    rw [hc.bodies hnames]
    rw [find?_of_unique hq (by simp [hsp])]
    intro q' hq' hp
    simp only [Bool.and_eq_true, decide_eq_true_eq] at hp
    exact hinj q' hq' q hq hp.2
  have hlines : (k.subgoals.filter (·.name ∉ acc.omitted)).flatMap (fun spec =>
        declarationText spec.signature ((acc.bodies.get spec.name).getD "sorry".toList)) =
      (((k.subgoals.zip ids).filter fun q => !s.spliced pins.get q.2).map fun q =>
        (q.1.signature, (s.proofOf q.2).getD [])).flatMap fun d => declarationText d.1 d.2 := by
    conv_lhs => rw [hmap]
    rw [List.filter_map, List.flatMap_map, List.flatMap_map]
    have hfilter : (k.subgoals.zip ids).filter ((fun x : SubgoalSpec => decide (x.name ∉ acc.omitted)) ∘ Prod.fst)
        = (k.subgoals.zip ids).filter fun q => !s.spliced pins.get q.2 := by
      refine List.filter_congr fun q hq => ?_
      have := homit q hq
      cases hsp : s.spliced pins.get q.2 <;> simp [hsp] at this <;> simp [this]
    rw [hfilter]
    refine List.flatMap_congr fun q hq => ?_
    obtain ⟨hq, hsp⟩ := List.mem_filter.mp hq
    rw [hbody q hq (by simpa using hsp)]
    rfl
  have hrendered := rstrip_declarations (((k.subgoals.zip ids).filter fun q => !s.spliced pins.get q.2).map fun q =>
    (q.1.signature, (s.proofOf q.2).getD [])) (k.parentSignature, k.parentBody)
  rw [List.flatMap_append, List.flatMap_singleton, ← hlines] at hrendered
  simp only [render, emit, renderSubgoals_lines, Bool.false_eq_true, false_and, if_false, List.nil_append, hrendered,
    Block.text, Block.declarations, Store.routeBlock, hl, List.map_append, List.map_map, List.map_singleton]
  rfl

theorem Store.routed_of_chosen_none {s : Store} (hi : s.chosen pins.get i = none) :
    s.routed pins.get i = [] := by
  simp [Store.routed, Store.lemmasAt, hi]

theorem eq_map_of_forall₂ {α β : Type} {R : α → β → Prop} {f : α → β} {as : List α} {bs : List β}
    (h : List.Forall₂ R as bs) (hf : ∀ a b, R a b → b = f a) : bs = as.map f := by
  induction h with
  | nil => rfl
  | cons hab _ ih => rw [List.map_cons, hf _ _ hab, ih]

theorem Sound.assembled_routed (hs : Sound W p) (hok : assembleBody p.store pins (n + 1) h i = .ok (text, name, h'))
    (hj : j ∈ p.store.routed pins.get i) :
    ∃ hh t name' hh', assembleBody p.store pins n hh j = .ok (t, name', hh') := by
  cases hs.assembleBody_cases hok with
  | inl hdirect =>
    obtain ⟨_, _, _, hchosen, _⟩ := hdirect
    simp [Store.routed_of_chosen_none hchosen] at hj
  | inr hroute =>
    obtain ⟨d, k, acc, hchosen, hk, hacc, _⟩ := hroute
    obtain ⟨ts, _, hall⟩ := (spliceAll_ok hs.directProof hacc).preludes
    rw [Store.routed, Store.lemmasAt_eq hchosen hk] at hj
    obtain ⟨q, hq, rfl⟩ := List.mem_map.mp hj
    obtain ⟨t, hh, hh', ht⟩ := exists_right_of_forall₂ hall hq
    exact ⟨hh, t, q.1.name, hh', ht⟩

theorem Sound.assembled_walked (hs : Sound W p) (hok : assembleBody p.store pins n h i = .ok (text, name, h'))
    (hj : Walked (p.store.routed pins.get) i j) :
    ∃ m hh t name' hh', assembleBody p.store pins (m + 1) hh j = .ok (t, name', hh') := by
  have hpos : ∀ {m hh j t name' hh'}, assembleBody p.store pins m hh j = .ok (t, name', hh') →
      ∃ m', m = m' + 1 := by
    intro m hh j t name' hh' hm
    cases m with
    | zero => simp [assembleBody] at hm
    | succ m => exact ⟨m, rfl⟩
  induction hj with
  | refl =>
    obtain ⟨m, rfl⟩ := hpos hok
    exact ⟨m, h, text, name, h', hok⟩
  | tail _ hstep ih =>
    obtain ⟨m, hh, t, name', hh', hm⟩ := ih
    obtain ⟨hh₁, t₁, name₁, hh₂, hm₁⟩ := hs.assembled_routed hm hstep
    obtain ⟨m₁, rfl⟩ := hpos hm₁
    exact ⟨m₁, hh₁, t₁, name₁, hh₂, hm₁⟩

theorem Sound.text_of_ok (hs : Sound W p) (hW : ∀ k, W k → (k.subgoals.map (·.name)).Nodup)
    (hok : assembleBody p.store pins n h i = .ok (text, name, h')) :
    text = join "\n\n".toList
      ((postorder (p.store.routed pins.get) n i).map fun j => (p.store.blockAt pins.get j).text) := by
  induction n generalizing i h text name h' with
  | zero => simp [assembleBody] at hok
  | succ n ih =>
    cases hs.assembleBody_cases hok with
    | inl hdirect =>
      obtain ⟨g, proof, hg, hchosen, hproof, rfl, _⟩ := hdirect
      simp [postorder, Store.routed_of_chosen_none hchosen, join, Store.blockAt, Store.sketchAt, hchosen,
        Store.directBlock, Block.text, Block.declarations, hg, hproof]
    | inr hroute =>
      obtain ⟨d, k, acc, hchosen, hk, hacc, rfl, _⟩ := hroute
      obtain ⟨k', hk', hlen, hw⟩ := hs.sketch_chosen hchosen
      obtain rfl := Option.some.inj (hk.symm.trans hk')
      have hl := Store.lemmasAt_eq hchosen hk
      have hc := spliceAll_ok hs.directProof hacc
      have hblock : (p.store.blockAt pins.get i).text = (p.store.routeBlock pins.get i k).text := by
        simp [Store.blockAt, Store.sketchAt_eq hchosen, hk]
      -- what the recursion puts in front, lemma by lemma
      let parts := (p.store.routed pins.get i).map fun j =>
        (postorder (p.store.routed pins.get) n j).map fun l => (p.store.blockAt pins.get l).text
      have hpreludes : acc.preludes = parts.map (join "\n\n".toList) := by
        obtain ⟨ts, hts, hall⟩ := hc.preludes
        have hone : ∀ (q : SubgoalSpec × GoalId) (t : Text), (∃ hh hh', assembleBody p.store pins n hh q.2 = .ok (t, q.1.name, hh')) →
            t = join "\n\n".toList ((postorder (p.store.routed pins.get) n q.2).map fun l =>
              (p.store.blockAt pins.get l).text) := by
          intro q t hq
          obtain ⟨_, _, hq⟩ := hq
          exact ih hq
        rw [hts, List.nil_append, eq_map_of_forall₂ hall hone]
        simp only [parts, Store.routed, hl, List.map_map, Function.comp_def]
      have hne : ∀ l ∈ parts ++ [[(p.store.blockAt pins.get i).text]], l ≠ [] := by
        intro l hmem
        cases List.mem_append.mp hmem with
        | inl hmem =>
          obtain ⟨j, hj, rfl⟩ := List.mem_map.mp hmem
          obtain ⟨_, _, _, _, hj⟩ := hs.assembled_routed hok hj
          cases n with
          | zero => simp [assembleBody] at hj
          | succ n => simp [postorder]
        | inr hmem => simp [List.mem_singleton.mp hmem]
      calc join "\n\n".toList (acc.preludes ++ [(render k acc.bodies false acc.omitted).text])
          = join "\n\n".toList ((parts ++ [[(p.store.blockAt pins.get i).text]]).map (join "\n\n".toList)) := by
            rw [hpreludes, render_collected hc hlen (hW k hw) hl, ← hblock, List.map_append]
            rfl
        _ = join "\n\n".toList (parts ++ [[(p.store.blockAt pins.get i).text]]).flatten := join_flatten hne
        _ = _ := by
            simp [postorder, parts, List.flatMap_def, Function.comp_def]

theorem Sound.lemmas_of_ok (hs : Sound W p) (hW : ∀ k, W k → (k.subgoals.map (·.name)).Nodup)
    (hok : assembleBody p.store pins (n + 1) h i = .ok (text, name, h')) :
    ((p.store.lemmasAt pins.get i).map (·.1.name)).Nodup ∧
      ∀ q ∈ p.store.lemmasAt pins.get i, p.store.spliced pins.get q.2 = true →
        ∃ k, p.store.sketchAt pins.get q.2 = some k ∧ k.parentName = q.1.name := by
  constructor
  · unfold Store.lemmasAt
    cases hchosen : p.store.chosen pins.get i with
    | none => simp
    | some d =>
      obtain ⟨k, hk, hlen, hw⟩ := hs.sketch_chosen hchosen
      have hmap : (k.subgoals.zip d.subgoalIds).map Prod.fst = k.subgoals := List.map_fst_zip (by omega)
      have hnames := hW k hw
      rw [← hmap, List.map_map] at hnames
      simpa [hk, Function.comp_def] using hnames
  · intro q hq hsp
    have hagree := (hs.agrees_of_ok hok).2 i .refl q hq
    have hrouted : q.2 ∈ p.store.routed pins.get i :=
      List.mem_map_of_mem (List.mem_filter.mpr ⟨hq, hsp⟩)
    obtain ⟨hh, t, name', hh', hj⟩ := hs.assembled_routed hok hrouted
    cases n with
    | zero => simp [assembleBody] at hj
    | succ n =>
      cases hs.assembleBody_cases hj with
      | inl hdirect =>
        obtain ⟨_, _, _, _, _, _, _, _, hnot⟩ := hdirect
        simp [hsp] at hnot
      | inr hroute =>
        obtain ⟨d, k, acc, hchosen, hk, _⟩ := hroute
        have hsketch := (Store.sketchAt_eq hchosen).trans hk
        exact ⟨k, hsketch, hagree k hsketch⟩

end

namespace Store
variable {s : Store} {named : GoalId → Option DecompositionId} {i j k : GoalId}

@[simp] theorem blockAt_goalId : (s.blockAt named j).goal.goalId = j := by
  unfold blockAt
  cases s.sketchAt named j <;> rfl

theorem declarationOf_spliced {q : SubgoalSpec × GoalId} (h : s.spliced named q.2 = true) :
    s.declarationOf named q = (s.blockAt named q.2).goal := if_pos h

theorem declarationOf_direct {q : SubgoalSpec × GoalId} (h : s.spliced named q.2 = false) :
    s.declarationOf named q = s.lemmaDeclaration q := if_neg (by rw [h]; decide)

theorem blockAt_goal {sk : Sketch} (hk : s.sketchAt named j = some sk) : (s.blockAt named j).goal.name = sk.parentName := by
  simp [blockAt, hk, routeBlock]

theorem lemmasAt_of_sketchAt (hk : s.sketchAt named j = none) : s.lemmasAt named j = [] := by
  unfold sketchAt at hk
  unfold lemmasAt
  cases hd : s.chosen named j with
  | none => rfl
  | some d =>
    rw [hd] at hk
    simp [show d.sketch = none from hk]

theorem blockAt_lemmas : (s.blockAt named j).lemmas =
    ((s.lemmasAt named j).filter fun q => !s.spliced named q.2).map s.lemmaDeclaration := by
  unfold blockAt
  cases hk : s.sketchAt named j with
  | none => simp [directBlock, lemmasAt_of_sketchAt hk]
  | some k => rfl

theorem blockAt_cites : (s.blockAt named j).cites = (s.lemmasAt named j).map fun q => (q.1.name, q.2) := by
  unfold blockAt
  cases hk : s.sketchAt named j with
  | none => simp [directBlock, lemmasAt_of_sketchAt hk]
  | some k => rfl

theorem mem_routed {l : GoalId} :
    l ∈ s.routed named j ↔ ∃ q ∈ s.lemmasAt named j, s.spliced named q.2 = true ∧ q.2 = l := by
  simp only [routed, List.mem_map, List.mem_filter, and_assoc]

theorem spliced_of_lemma {q : SubgoalSpec × GoalId} (hq : q ∈ s.lemmasAt named j) :
    s.spliced named j = true := by
  unfold lemmasAt at hq
  cases hd : s.chosen named j with
  | none => simp [hd] at hq
  | some d => exact spliced_of_chosen hd

theorem spliced_of_walked {q : SubgoalSpec × GoalId} (hj : Walked (s.routed named) i j)
    (hq : q ∈ s.lemmasAt named j) (hk : Walked (s.routed named) i k) : s.spliced named k = true := by
  cases hk.cases_tail with
  | inr h =>
    obtain ⟨l, _, hl⟩ := h
    obtain ⟨_, _, hsp, rfl⟩ := mem_routed.mp hl
    exact hsp
  | inl h =>
    subst h
    cases hj.cases_head with
    | inl h => exact h ▸ spliced_of_lemma hq
    | inr h =>
      obtain ⟨l, hl, _⟩ := h
      obtain ⟨_, hq', _⟩ := mem_routed.mp hl
      exact spliced_of_lemma hq'

def LemmasNamed (s : Store) (named : GoalId → Option DecompositionId) (j : GoalId) : Prop :=
  ((s.lemmasAt named j).map (·.1.name)).Nodup ∧
    ∀ q ∈ s.lemmasAt named j, s.spliced named q.2 = true →
      ∃ k, s.sketchAt named q.2 = some k ∧ k.parentName = q.1.name

theorem LemmasNamed.inj (h : s.LemmasNamed named j) {q q' : SubgoalSpec × GoalId}
    (hq : q ∈ s.lemmasAt named j) (hq' : q' ∈ s.lemmasAt named j) (hname : q.1.name = q'.1.name) :
    q = q' := List.inj_on_of_nodup_map h.1 hq hq' hname

theorem LemmasNamed.nodup_routed (h : s.LemmasNamed named j) : (s.routed named j).Nodup := by
  have hnd : (s.lemmasAt named j).Nodup := h.1.of_map
  refine (hnd.filter _).map_on fun q hq q' hq' heq => ?_
  obtain ⟨hq, hsp⟩ := List.mem_filter.mp hq
  obtain ⟨hq', hsp'⟩ := List.mem_filter.mp hq'
  obtain ⟨k, hk, hname⟩ := h.2 q hq hsp
  obtain ⟨k', hk', hname'⟩ := h.2 q' hq' hsp'
  rw [heq, hk'] at hk
  obtain rfl := Option.some.inj hk
  exact h.inj hq hq' (hname.symm.trans hname')

section
variable {rank : GoalId → ℕ} (hrank : ∀ x, ∀ y ∈ s.routed named x, rank y < rank x)
  (hn : rank i < assemblyDepth s) (hnamed : ∀ j, Walked (s.routed named) i j → s.LemmasNamed named j)

include hrank hn hnamed

theorem cited_of_declaresFirst (h : DeclaresFirst (s.blocks named i)) :
    ∀ j, Walked (s.routed named) i j → ∀ q ∈ s.lemmasAt named j, q.1.name ∈ (s.declarationOf named q).declared := by
  have hmem : ∀ j, j ∈ postorder (s.routed named) (assemblyDepth s) i ↔ Walked (s.routed named) i j :=
    fun j => mem_postorder hrank hn
  intro j hj q hq
  obtain ⟨before, after, hsplit⟩ := List.append_of_mem ((hmem j).mpr hj)
  obtain ⟨d, hd, hname, hgoal, hdecl⟩ := h (before.map (s.blockAt named)) (s.blockAt named j)
    (after.map (s.blockAt named)) (by rw [blocks, hsplit]; simp) (q.1.name, q.2)
    (by rw [blockAt_cites]; exact List.mem_map_of_mem hq)
  cases List.mem_append.mp hd with
  | inl hd =>
    -- an earlier block states the lemma's goal: the lemma has a route of its own
    obtain ⟨b, hb, rfl⟩ := List.mem_map.mp hd
    obtain ⟨l, hl, rfl⟩ := List.mem_map.mp hb
    rw [blockAt_goalId] at hgoal
    subst hgoal
    have hwalked := (hmem q.2).mp (hsplit ▸ List.mem_append_left _ hl)
    rw [declarationOf_spliced (spliced_of_walked hj hq hwalked)]
    exact hdecl
  | inr hd =>
    rw [blockAt_lemmas] at hd
    obtain ⟨q', hq', rfl⟩ := List.mem_map.mp hd
    obtain ⟨hq', hsp⟩ := List.mem_filter.mp hq'
    obtain rfl := (hnamed j hj).inj hq' hq hname
    rw [declarationOf_direct (by simpa using hsp)]
    exact hdecl

theorem declaresFirst_iff : DeclaresFirst (s.blocks named i) ↔
    ∀ j, Walked (s.routed named) i j → ∀ q ∈ s.lemmasAt named j, q.1.name ∈ (s.declarationOf named q).declared := by
  have hmem : ∀ j, j ∈ postorder (s.routed named) (assemblyDepth s) i ↔ Walked (s.routed named) i j :=
    fun j => mem_postorder hrank hn
  refine ⟨cited_of_declaresFirst hrank hn hnamed, fun h before b after hsplit c hc => ?_⟩
  obtain ⟨pre, rest, hpre, rfl, hrest⟩ := List.map_eq_append_iff.mp hsplit
  obtain ⟨j, post, rfl, rfl, rfl⟩ := List.map_eq_cons_iff.mp hrest
  have hj := (hmem j).mp (hpre ▸ by simp)
  rw [blockAt_cites] at hc
  obtain ⟨q, hq, rfl⟩ := List.mem_map.mp hc
  have hcited := h j hj q hq
  cases hsp : s.spliced named q.2 with
  | true =>
    obtain ⟨k, hk, hname⟩ := (hnamed j hj).2 q hq hsp
    have hin : q.2 ∈ pre := postorder_children_first hrank hn hpre (mem_routed.mpr ⟨q, hq, hsp, rfl⟩)
    rw [declarationOf_spliced hsp] at hcited
    refine ⟨(s.blockAt named q.2).goal, List.mem_append_left _ ?_, ?_, blockAt_goalId, hcited⟩
    · exact List.mem_map_of_mem (List.mem_map_of_mem hin)
    · rw [blockAt_goal hk, hname]
  | false =>
    rw [declarationOf_direct hsp] at hcited
    refine ⟨s.lemmaDeclaration q, List.mem_append_right _ ?_, rfl, rfl, hcited⟩
    rw [blockAt_lemmas]
    exact List.mem_map_of_mem (List.mem_filter.mpr ⟨hq, by simp [hsp]⟩)

omit hrank hn hnamed in
/-- What a block below the root declares is not nothing where every lemma is declared under the name it is cited by. -/
theorem names_ne_nil
    (hcited : ∀ j, Walked (s.routed named) i j → ∀ q ∈ s.lemmasAt named j, q.1.name ∈ (s.declarationOf named q).declared)
    {l : GoalId} (hj : Walked (s.routed named) i j) (hl : l ∈ s.routed named j) : (s.blockAt named l).names ≠ [] := by
  obtain ⟨q, hq, hsp, rfl⟩ := mem_routed.mp hl
  have hname := hcited j hj q hq
  rw [declarationOf_spliced hsp] at hname
  refine List.ne_nil_of_mem (a := q.1.name) (List.mem_flatMap.mpr ⟨_, ?_, hname⟩)
  simp [Block.declarations]

theorem laidOutApart_iff (header : List Text) :
    (declaredIn (join ['\n'] header) ++ (s.blocks named i).flatMap Block.names).Nodup ∧ DeclaresFirst (s.blocks named i) ↔
      s.LaidOutApart named header i := by
  have hmem : ∀ j, j ∈ postorder (s.routed named) (assemblyDepth s) i ↔ Walked (s.routed named) i j :=
    fun j => mem_postorder hrank hn
  rw [declaresFirst_iff hrank hn hnamed, List.nodup_append', blocks, List.flatMap_map]
  have hwalk := fun hcited : ∀ j, Walked (s.routed named) i j → ∀ q ∈ s.lemmasAt named j,
      q.1.name ∈ (s.declarationOf named q).declared =>
    nodup_flatMap_postorder_iff (f := fun j => (s.blockAt named j).names) hrank hn
      (fun j hj => (hnamed j hj).nodup_routed) fun j hj l hl => names_ne_nil hcited hj hl
  have hheaded : (declaredIn (join ['\n'] header)).Disjoint
      ((postorder (s.routed named) (assemblyDepth s) i).flatMap fun j => (s.blockAt named j).names) ↔
      ∀ j, Walked (s.routed named) i j → (declaredIn (join ['\n'] header)).Disjoint (s.blockAt named j).names := by
    constructor
    · intro h j hj x hx hxj
      exact h hx (List.mem_flatMap.mpr ⟨j, (hmem j).mpr hj, hxj⟩)
    · intro h x hx hxj
      obtain ⟨j, hj, hxj⟩ := List.mem_flatMap.mp hxj
      exact h j ((hmem j).mp hj) hx hxj
  constructor
  · rintro ⟨⟨hheader, hblocks, hapart⟩, hcited⟩
    obtain ⟨hunshared, hdistinct, hpairs⟩ := (hwalk hcited).mp hblocks
    exact ⟨hheader, hunshared, hdistinct, hpairs, hheaded.mp hapart, hcited⟩
  · intro h
    exact ⟨⟨h.heading, (hwalk h.cited).mpr ⟨h.unshared, h.distinct, h.apart⟩, hheaded.mpr h.headed⟩, h.cited⟩

end
end Store

theorem Block.names_eq {b : Block} (h : ∀ d ∈ b.declarations, Complete d.text) :
    Complete b.text ∧ declaredIn b.text = b.names := by
  have hall : ∀ t ∈ b.declarations.map (·.text), Complete t := List.forall_mem_map.mpr h
  refine ⟨(complete_paragraphs hall).line, ?_⟩
  rw [Block.text, declaredIn_line (complete_paragraphs hall), declaredIn_paragraphs hall, List.flatMap_map]
  rfl

/-- The file declares what its header and its blocks do. -/
theorem declaredIn_fileText {header : List Text} {bs : List Block} (hheader : Complete (join ['\n'] header))
    (hbs : ∀ b ∈ bs, ∀ d ∈ b.declarations, Complete d.text) :
    declaredIn (fileText header bs) = declaredIn (join ['\n'] header) ++ bs.flatMap Block.names := by
  have htexts : ∀ t ∈ bs.map (·.text), Complete t :=
    List.forall_mem_map.mpr fun b hb => (Block.names_eq (hbs b hb)).1
  have hnames : (bs.map (·.text)).flatMap declaredIn = bs.flatMap Block.names := by
    rw [List.flatMap_map]
    exact List.flatMap_congr fun b hb => (Block.names_eq (hbs b hb)).2
  have hbody : declaredIn (join "\n\n".toList (bs.map (·.text))) = bs.flatMap Block.names :=
    (declaredIn_paragraphs htexts).trans hnames
  unfold fileText
  split
  · rw [List.append_assoc, ← hbody]
    exact declaredIn_paragraph hheader _
  · next hnil =>
    rw [not_not.mp hnil, List.nil_append, hbody]
    rfl

def Sketch.LemmasDistinct (k : Sketch) : Prop := (k.subgoals.map (·.name)).Nodup

instance (k : Sketch) : Decidable k.LemmasDistinct := inferInstanceAs (Decidable (List.Nodup _))

def sharedSketch (goal : Goal) : Sketch where
  parentName := assemblyName goal.statement
  parentSignature := goal.statement
  parentBody := "trivial".toList
  subgoals :=
    if goal.statement = "theorem root : R".toList then
      [⟨"a".toList, "A".toList, "theorem a : A".toList⟩, ⟨"b".toList, "B".toList, "theorem b : B".toList⟩]
    else [⟨"s".toList, "S".toList, "theorem s : S".toList⟩]

/-- The root needs `a` and `b`, and both of these need `s`, which alone is proved directly. -/
def sharedEnv : Env Unit where
  attack g _ e := ((none, .ok (if g.identity = "S".toList then trivialProof else noProof)), e)
  propose g e := (some (sharedSketch g), e)
  validateSketch _ _ e := (.ok ⟨true, []⟩, e)
  now e := (0, e)
  select := selectFirstOpen
  select_mem _ _ h := List.mem_of_head? h
  level := []

def sharedRun : Snapshot :=
  (execAll sharedEnv { owner := "w".toList } (World.fresh ())
    [.upsertGoal "R".toList "theorem root : R".toList, .solve 0 1 9]).toSnapshot

end EvoHarness.Proof
