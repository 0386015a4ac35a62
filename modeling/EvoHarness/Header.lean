import EvoHarness.Assemblable
import EvoHarness.Library.FirstSeen

/-! The header of an assembled file: the board's own lines, and what the sketches on the
tree add to them. -/
namespace EvoHarness.Proof
open PyText FirstSeen Relation

def isImport (line : Text) : Bool := "import ".toList.isPrefixOf (strip line)

def isCommand (line : Text) : Bool :=
  !isImport line && strip line ≠ [] && !("--".toList.isPrefixOf (strip line))

def ImportsFirst (lines : List Text) : Prop := lines.Pairwise fun a b => ¬(isCommand a ∧ isImport b)

instance (lines : List Text) : Decidable (ImportsFirst lines) := inferInstanceAs (Decidable (List.Pairwise _ _))

/-- What a header keeps of the board's preamble and the sketches', taken in this order. -/
structure HeaderOf (board : List Text) (preambles : List (List Text)) (header : List Text) : Prop where
  first_seen : ∃ new, header = board ++ new ∧
    new.Pairwise fun a b => preambles.flatten.idxOf a < preambles.flatten.idxOf b
  complete : ∀ p ∈ preambles, p ⊆ header
  nothing_else : ∀ line ∈ header, line ∈ board ∨ ∃ p ∈ preambles, line ∈ p
  added_once : ∀ line ∈ header, line ∉ board → header.count line = 1
  board_kept : ∀ line ∈ board, header.count line = board.count line
  /-- A preamble survives in its own order just when it is some lines of the board's, and
  then lines that are new and in the order they were first met in. -/
  in_order : ∀ p ∈ preambles, p.Sublist header ↔ ∃ old new, p = old ++ new ∧ old.Sublist board ∧
    (∀ line ∈ new, line ∉ board) ∧ new.Pairwise fun a b => preambles.flatten.idxOf a < preambles.flatten.idxOf b
  imports_first : ImportsFirst board → (∀ p ∈ preambles, ImportsFirst p) →
    (∀ above p below, preambles = above ++ p :: below → ∀ line ∈ p, isImport line → line ∉ board → line ∉ above.flatten →
      ∀ other ∈ board ++ above.flatten, ¬ isCommand other) → ImportsFirst header

theorem importsFirst_addAll {header p : List Text} (hheader : ImportsFirst header) (hp : ImportsFirst p)
    (hnew : ∀ line ∈ p, isImport line → line ∉ header → ∀ other ∈ header, ¬ isCommand other) :
    ImportsFirst (addAll header p) := by
  induction p generalizing header with
  | nil => exact hheader
  | cons line p ih =>
    obtain ⟨hfirst, hrest⟩ := List.pairwise_cons.mp hp
    rw [addAll_cons]
    apply ih _ hrest
    · intro l hl himport hfresh other hother
      rw [mem_add, not_or] at hfresh
      cases mem_add.mp hother with
      | inl h => exact hnew l (List.mem_cons_of_mem _ hl) himport hfresh.1 other h
      | inr h =>
        rw [h]
        exact fun hcommand => hfirst l hl ⟨hcommand, himport⟩
    · unfold add
      split
      · exact hheader
      · next hfresh =>
        apply List.pairwise_append.mpr
        refine ⟨hheader, List.pairwise_singleton .., ?_⟩
        intro other hother l hl hboth
        rw [List.mem_singleton.mp hl] at hboth
        exact hnew line (List.mem_cons_self ..) hboth.2 hfresh other hother hboth.1

theorem headerOf_addAll (board : List Text) (preambles : List (List Text)) :
    HeaderOf board preambles (addAll board preambles.flatten) where
  first_seen := by
    obtain ⟨new, hnew, hadded⟩ := exists_added board preambles.flatten
    exact ⟨new, hnew, hadded.sorted⟩
  complete p hp line hline := mem_addAll.mpr (Or.inr (List.mem_flatten.mpr ⟨p, hp, hline⟩))
  nothing_else line hline := by
    rw [mem_addAll, List.mem_flatten] at hline
    exact hline
  added_once line hline hboard := by
    have hmem := (mem_addAll.mp hline).resolve_left hboard
    rw [count_addAll, if_neg (by simp [hboard, hmem])]
  board_kept line hline := by rw [count_addAll, if_pos (Or.inl hline)]
  in_order p hp := sublist_addAll_iff fun line hline => List.mem_flatten.mpr ⟨p, hp, hline⟩
  imports_first hboard hps hnew := by
    induction preambles using List.reverseRecOn with
    | nil => exact hboard
    | append_singleton ps p ih =>
      rw [List.flatten_append, addAll_append, List.flatten_singleton]
      have hprevious : ImportsFirst (addAll board ps.flatten) := by
        apply ih
        · exact fun q hq => hps q (List.mem_append_left _ hq)
        · intro above q below hsplit
          exact hnew above q (below ++ [p]) (by simp [hsplit])
      apply importsFirst_addAll hprevious (hps p (by simp))
      intro line hline himport hfresh other hother
      rw [mem_addAll, not_or] at hfresh
      apply hnew ps p [] (by simp) line hline himport hfresh.1 hfresh.2
      rw [List.mem_append]
      exact mem_addAll.mp hother

namespace Store

/-- The sketches an assembly from `i` goes through, in the order it comes to them. -/
def sketchesFrom (s : Store) (named : GoalId → Option DecompositionId) : ℕ → GoalId → List Sketch
  | 0, _ => []
  | n + 1, i =>
    match s.sketchAt named i with
    | none => []
    | some k => k :: (s.lemmasAt named i).flatMap fun q => s.sketchesFrom named n q.2

end Store

section
variable {s : Store} {pins : Pins} {n : ℕ} {i : GoalId} {h h' : Hoisted} {text name : Text}

theorem proofOf_of_directProof {o : Option Text} (h : s.directProof i = .ok o) : s.proofOf i = o := by
  unfold Store.directProof at h
  unfold Store.proofOf
  split at h
  · next hnone =>
    rw [hnone]
    exact Except.ok.inj h
  · next a ha =>
    rw [ha]
    split at h
    · cases h
    · exact Except.ok.inj h

theorem sketchAt_of_direct {proof : Text} (hpin : pins.get i = none) (h : s.directProof i = .ok (some proof)) :
    s.sketchAt pins.get i = none := by
  have hproof := proofOf_of_directProof h
  simp [Store.sketchAt, Store.chosen, hpin, hproof]

theorem spliceAll_inv {body : Hoisted → GoalId → Except AssemblyFault (Text × Text × Hoisted)} {acc acc' : Spliced}
    {q : SubgoalSpec × GoalId} {l : List (SubgoalSpec × GoalId)} (hok : spliceAll s pins body acc (q :: l) = .ok acc') :
    ∃ one, spliceAll s pins body one l = .ok acc' ∧
      ((pins.get q.2 = none ∧ (∃ proof, s.directProof q.2 = .ok (some proof)) ∧ one.hoisted = acc.hoisted) ∨
        ∃ text name, body acc.hoisted q.2 = .ok (text, name, one.hoisted)) := by
  obtain ⟨spec, i⟩ := q
  unfold spliceAll at hok
  dsimp only at hok
  split at hok
  · cases hok
  · next one hone =>
    refine ⟨one, hok, ?_⟩
    repeat' split at hone
    all_goals first
      | cases hone; done
      | rw [← Except.ok.inj hone]; exact Or.inl ⟨by assumption, ⟨_, by assumption⟩, rfl⟩
      | rw [← Except.ok.inj hone]; exact Or.inr ⟨_, _, by assumption⟩

/-- What went into a goal's text: a proof of its own, or the loop over its route's lemmas. -/
theorem assembleBody_inv (hok : assembleBody s pins (n + 1) h i = .ok (text, name, h')) :
    (pins.get i = none ∧ (∃ proof, s.directProof i = .ok (some proof)) ∧ h' = h) ∨
      ∃ d k acc, s.spliced pins.get i = true ∧ s.routeFor pins i = .ok (some d) ∧ d.sketch = some k ∧
        spliceAll s pins (assembleBody s pins n) { hoisted := h.enter pins i k } (k.subgoals.zip d.subgoalIds) =
          .ok acc ∧ h' = acc.hoisted := by
  unfold assembleBody at hok
  dsimp only at hok
  repeat' split at hok
  all_goals first
    | cases hok; done
    | skip
  · next hpin _ proof hdirect =>
    exact Or.inl ⟨hpin, ⟨proof, hdirect⟩, (Prod.mk.inj (Prod.mk.inj (Except.ok.inj hok)).2).2.symm⟩
  · next hpin _ hdirect _ d hd _ k hk _ acc hacc =>
    have hspliced : s.spliced pins.get i = true := by simp [Store.spliced, hpin, proofOf_of_directProof hdirect]
    have henter : h.enter pins i k = ⟨hoist h.header (splitlines k.preamble), h.used⟩ := by
      rw [Hoisted.enter, if_pos hpin]
    rw [← henter] at hacc
    exact Or.inr ⟨d, k, acc, hspliced, hd, hk, hacc, (Prod.mk.inj (Prod.mk.inj (Except.ok.inj hok)).2).2.symm⟩
  · next hpin _ d hd _ k hk _ acc hacc =>
    have hspliced : s.spliced pins.get i = true := by simp [Store.spliced, hpin]
    have henter : h.enter pins i k = ⟨hoist h.header (splitlines k.preamble), i :: h.used⟩ := by
      rw [Hoisted.enter, if_neg hpin]
    rw [← henter] at hacc
    exact Or.inr ⟨d, k, acc, hspliced, hd, hk, hacc, (Prod.mk.inj (Prod.mk.inj (Except.ok.inj hok)).2).2.symm⟩

/-- The loop over a sketch's lemmas hoists what the lemmas with a route of their own bring. -/
theorem spliceAll_header {body : Hoisted → GoalId → Except AssemblyFault (Text × Text × Hoisted)}
    (brought : GoalId → List Text)
    (hbody : ∀ h i text name h', body h i = .ok (text, name, h') → h'.header = addAll h.header (brought i))
    (hnone : ∀ i proof, pins.get i = none → s.directProof i = .ok (some proof) → brought i = [])
    {acc acc' : Spliced} {l : List (SubgoalSpec × GoalId)} (hok : spliceAll s pins body acc l = .ok acc') :
    acc'.hoisted.header = addAll acc.hoisted.header (l.flatMap fun q => brought q.2) := by
  induction l generalizing acc with
  | nil =>
    rw [← Except.ok.inj hok]
    rfl
  | cons q l ih =>
    obtain ⟨one, hrest, hturn⟩ := spliceAll_inv hok
    rw [List.flatMap_cons, addAll_append, ih hrest]
    cases hturn with
    | inl hdirect =>
      obtain ⟨hpin, ⟨proof, hproof⟩, hone⟩ := hdirect
      rw [hone, hnone _ proof hpin hproof, addAll_nil]
    | inr hsubtree =>
      obtain ⟨text, name, hone⟩ := hsubtree
      rw [hbody _ _ _ _ _ hone]

theorem spliceAll_mem {body : Hoisted → GoalId → Except AssemblyFault (Text × Text × Hoisted)} {acc acc' : Spliced}
    {q : SubgoalSpec × GoalId} {l : List (SubgoalSpec × GoalId)} (hok : spliceAll s pins body acc l = .ok acc')
    (hq : q ∈ l) : (pins.get q.2 = none ∧ ∃ proof, s.directProof q.2 = .ok (some proof)) ∨
      ∃ h text name h', body h q.2 = .ok (text, name, h') := by
  induction l generalizing acc with
  | nil => cases hq
  | cons r l ih =>
    obtain ⟨one, hrest, hturn⟩ := spliceAll_inv hok
    cases List.mem_cons.mp hq with
    | inr hq => exact ih hrest hq
    | inl hq =>
      rw [hq]
      cases hturn with
      | inl hdirect => exact Or.inl ⟨hdirect.1, hdirect.2.1⟩
      | inr hsubtree =>
        obtain ⟨text, name, hone⟩ := hsubtree
        exact Or.inr ⟨_, text, name, _, hone⟩

theorem sketchesFrom_route {d : DecompositionRow} {k : Sketch} (hspliced : s.spliced pins.get i = true)
    (hroute : s.routeFor pins i = .ok (some d)) (hk : d.sketch = some k) :
    s.sketchesFrom pins.get (n + 1) i =
      k :: (k.subgoals.zip d.subgoalIds).flatMap fun q => s.sketchesFrom pins.get n q.2 := by
  have hchosen := Store.chosen_of_routeFor hspliced hroute
  rw [Store.sketchesFrom, Store.sketchAt_eq hchosen, Store.lemmasAt_eq hchosen hk, hk]

theorem sketchesFrom_direct {proof : Text} (hpin : pins.get i = none) (h : s.directProof i = .ok (some proof)) :
    s.sketchesFrom pins.get n i = [] := by
  cases n with
  | zero => rfl
  | succ n =>
    unfold Store.sketchesFrom
    rw [sketchAt_of_direct hpin h]

def preambleLines (sketches : List Sketch) : List Text := sketches.flatMap fun k => splitlines k.preamble

theorem assembleBody_header (hok : assembleBody s pins n h i = .ok (text, name, h')) :
    h'.header = addAll h.header (preambleLines (s.sketchesFrom pins.get n i)) := by
  induction n generalizing h h' i text name with
  | zero => cases hok
  | succ n ih =>
    cases assembleBody_inv hok with
    | inl hdirect =>
      obtain ⟨hpin, ⟨proof, hproof⟩, hsame⟩ := hdirect
      rw [hsame, sketchesFrom_direct hpin hproof]
      rfl
    | inr hroute =>
      obtain ⟨d, k, acc, hspliced, hd, hk, hacc, hsame⟩ := hroute
      have hloop := spliceAll_header (fun j => preambleLines (s.sketchesFrom pins.get n j)) (fun _ _ _ _ _ => ih)
        (fun j proof hpin hproof => by rw [sketchesFrom_direct hpin hproof]; rfl) hacc
      rw [hsame, hloop, sketchesFrom_route hspliced hd hk, preambleLines, List.flatMap_cons, addAll_append,
        List.flatMap_assoc]
      rfl

def Store.Cited (s : Store) (named : GoalId → Option DecompositionId) : GoalId → GoalId → Prop :=
  ReflTransGen fun i j => ∃ q ∈ s.lemmasAt named i, q.2 = j

theorem sketchAt_cited {j : GoalId} {proof : Text} (hpin : pins.get i = none)
    (hproof : s.directProof i = .ok (some proof)) (hj : s.Cited pins.get i j) : s.sketchAt pins.get j = none := by
  cases ReflTransGen.cases_head hj with
  | inl hsame =>
    rw [← hsame]
    exact sketchAt_of_direct hpin hproof
  | inr hstep =>
    obtain ⟨_, ⟨q, hq, _⟩, _⟩ := hstep
    have hchosen : s.chosen pins.get i = none := by simp [Store.chosen, hpin, proofOf_of_directProof hproof]
    simp [Store.lemmasAt, hchosen] at hq

theorem mem_sketchesFrom {j : GoalId} {k : Sketch} (hok : assembleBody s pins n h i = .ok (text, name, h'))
    (hj : s.Cited pins.get i j) (hk : s.sketchAt pins.get j = some k) : k ∈ s.sketchesFrom pins.get n i := by
  induction n generalizing h h' i text name with
  | zero => cases hok
  | succ n ih =>
    cases assembleBody_inv hok with
    | inl hdirect =>
      obtain ⟨hpin, ⟨proof, hproof⟩, _⟩ := hdirect
      rw [sketchAt_cited hpin hproof hj] at hk
      cases hk
    | inr hroute =>
      obtain ⟨d, e, acc, hspliced, hd, he, hacc, _⟩ := hroute
      have hchosen := Store.chosen_of_routeFor hspliced hd
      rw [sketchesFrom_route hspliced hd he]
      cases ReflTransGen.cases_head hj with
      | inl hsame =>
        rw [← hsame, Store.sketchAt_eq hchosen, he] at hk
        rw [Option.some.inj hk]
        exact List.mem_cons_self ..
      | inr hstep =>
        obtain ⟨m, ⟨q, hq, rfl⟩, hbelow⟩ := hstep
        rw [Store.lemmasAt_eq hchosen he] at hq
        apply List.mem_cons_of_mem
        apply List.mem_flatMap.mpr
        refine ⟨q, hq, ?_⟩
        cases spliceAll_mem hacc hq with
        | inl hdirect =>
          obtain ⟨hpin, proof, hproof⟩ := hdirect
          rw [sketchAt_cited hpin hproof hbelow] at hk
          cases hk
        | inr hsubtree =>
          obtain ⟨h, text, name, h', hbody⟩ := hsubtree
          exact ih hbody hbelow

end

namespace Store

/-- The sketches the assembly of a goal goes through, each before those below it. -/
def sketchesOf (s : Store) (routes : List DecompositionId) (i : GoalId) : List Sketch :=
  s.sketchesFrom (s.named routes) (assemblyDepth s) i

end Store

/-- The header of an assembled file: the board's lines, and then what each sketch of the
tree brings that was not there before. -/
theorem assembled_header {s : Store} {i : GoalId} {routes : List DecompositionId} {preamble text : Text}
    (hok : assemble s i routes preamble = .ok text) : ∃ header body, text = withHeader header body ∧
      HeaderOf (splitlines (strip preamble)) ((s.sketchesOf routes i).map fun k => splitlines k.preamble) header ∧
      ∀ j k, s.Cited (s.named routes) i j → s.sketchAt (s.named routes) j = some k → k ∈ s.sketchesOf routes i := by
  obtain ⟨pins, body, name, h', hpins, hbody, -, htext⟩ := assemble_ok.mp hok
  have hnamed : pins.get = s.named routes := Store.get_of_pinMap hpins
  refine ⟨h'.header, body, htext, ?_, ?_⟩
  · rw [assembleBody_header hbody, hnamed, preambleLines, List.flatMap_def]
    exact headerOf_addAll _ _
  · intro j k hj hk
    rw [← hnamed] at hj hk
    rw [Store.sketchesOf, ← hnamed]
    exact mem_sketchesFrom hbody hj hk

def sectionPreamble : Text := "import Mathlib\nsection\nopen Nat\nend\nsection\nopen Real\nend".toList

def sectionEnv : Env Unit :=
  { memoEnv with
    propose := fun g e =>
      (proposeFrom loadsReply (exactText id) (assemblyName g.statement) sectionPreamble replyOld g, e) }

def sectionRun : Snapshot :=
  (execAll sectionEnv { owner := "w".toList } (World.fresh ())
    [.upsertGoal (exactText id "theorem old : M".toList) "theorem old : M".toList, .solve 0 1 5]).toSnapshot

theorem assembled_header_section : ∃ header body,
    "import Mathlib\nsection\nopen Nat\nend\nopen Real\n\ntheorem leaf : L := trivial\n\ntheorem old : M := leaf\n".toList =
        withHeader header body ∧
      HeaderOf (splitlines (strip "import Mathlib".toList))
        ((sectionRun.store.sketchesOf [] 0).map fun k => splitlines k.preamble) header ∧
      ∀ j k, sectionRun.store.Cited (sectionRun.store.named []) 0 j →
        sectionRun.store.sketchAt (sectionRun.store.named []) j = some k → k ∈ sectionRun.store.sketchesOf [] 0 :=
  assembled_header (by decide +kernel)

/-- The second section is gone from the header: its first and last lines were there before. -/
theorem section_lost :
    (∀ k ∈ sectionRun.store.sketchesOf [] 0, ImportsFirst (splitlines k.preamble)) ∧
      (assembleBody sectionRun.store [] (assemblyDepth sectionRun.store)
          { header := splitlines (strip "import Mathlib".toList) } 0).toOption.map (fun r => r.2.2.header) =
        some ["import Mathlib".toList, "section".toList, "open Nat".toList, "end".toList, "open Real".toList] ∧
      ∃ k ∈ sectionRun.store.sketchesOf [] 0, ¬ (splitlines k.preamble).Sublist
        ["import Mathlib".toList, "section".toList, "open Nat".toList, "end".toList, "open Real".toList] := by
  decide +kernel

end EvoHarness.Proof
