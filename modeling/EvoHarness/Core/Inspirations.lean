import EvoHarness.Core.ConcurrentProposing

/-! The programs shown besides the parent: an archive route, a route by fitness, and what a policy adds. -/
namespace EvoHarness.Core.Population.Inspirations
open PyText Proposing

structure InspirationConfig where
  numArchiveInspirations : ℤ := 1
  numTopKInspirations : ℤ := 1
  enforceIslandSeparation : Bool := true
  eliteShare : ℤ → ℤ

structure Generator (σ : Type) where
  integers : σ → ℕ → ℕ × σ
  integers_lt : ∀ s n, 0 < n → (integers s n).1 < n

/-- `pick` of an inspiration policy: a candidate of the scope, and why. -/
structure InspirationPolicy where
  pick : Candidate → List Candidate → Option (Candidate × Text)
  pick_mem : ∀ parent scope picked, pick parent scope = some picked → picked.1 ∈ scope

def byFitness (cands : List Candidate) : List Candidate := cands.mergeSort fun a b => decide (b.fitness ≤ a.fitness)

/-- The candidates whose ids are new, in order, up to `bound` of them. -/
def fill (base : List Text) (bound : ℤ) : List Candidate → List Candidate → List Candidate
  | [], chosen => chosen
  | c :: rest, chosen =>
    if bound ≤ chosen.length then chosen
    else if c.id ∈ base ++ chosen.map (·.id) then fill base bound rest chosen
    else fill base bound rest (chosen ++ [c])

section
variable {σ : Type} (cfg : InspirationConfig) (g : Generator σ) (policy : Option InspirationPolicy)
  (parent : Candidate) (pop : List Candidate)

/-- `remaining.pop(int(rng.integers(len(remaining))))` while there is room. -/
def drawRest (n : ℤ) : ℕ → List Candidate → List Candidate → σ → List Candidate × σ
  | 0, _, chosen, s => (chosen, s)
  | fuel + 1, remaining, chosen, s =>
    if n ≤ chosen.length then (chosen, s)
    else
      let drawn := g.integers s remaining.length
      match remaining[drawn.1]? with
      | none => (chosen, s)
      | some pick => drawRest n fuel (remaining.eraseIdx drawn.1) (chosen ++ [pick]) drawn.2

def scope : List Candidate :=
  if cfg.enforceIslandSeparation = true then (islandView pop parent.islandIdx).passedCandidates
  else (allCandidates pop).filter (·.passed)

def archiveScope : List Candidate :=
  if cfg.enforceIslandSeparation = true then (islandView pop parent.islandIdx).archiveCandidates
  else (scope cfg parent pop).filter (·.inArchive)

def elites (archived : List Candidate) : List Candidate :=
  let n := cfg.numArchiveInspirations
  let best := (maxBy (fun a b => a.fitness ≤ b.fitness) archived).toList.filter (·.id ≠ parent.id)
  fill [parent.id] (min n (1 + max 0 (cfg.eliteShare n))) (byFitness archived) best

def archiveRoute (s : σ) : List Candidate × σ :=
  let archived := archiveScope cfg parent pop
  if cfg.numArchiveInspirations ≤ 0 ∨ archived = [] then ([], s)
  else
    let chosen := elites cfg parent archived
    let remaining := archived.filter (·.id ∉ parent.id :: chosen.map (·.id))
    drawRest g cfg.numArchiveInspirations remaining.length remaining chosen s

def topKRoute (chosen : List Candidate) : List Candidate :=
  if cfg.numTopKInspirations ≤ 0 then []
  else fill (parent.id :: chosen.map (·.id)) cfg.numTopKInspirations (byFitness (scope cfg parent pop)) []

def drawn (s : σ) : InspirationDraw :=
  let chosen := (archiveRoute cfg g parent pop s).1
  { archive := chosen, topK := topKRoute cfg parent pop chosen }

def withPick (d : InspirationDraw) (picked : Candidate × Text) : InspirationDraw :=
  if picked.1.id ∈ parent.id :: (d.archive ++ d.topK).map (·.id) then { d with notes := [(picked.1.id, picked.2)] }
  else if d.topK = [] then d
  else { d with topK := d.topK.dropLast ++ [picked.1], notes := [(picked.1.id, picked.2)] }

def sample (s : σ) : InspirationDraw :=
  let d := drawn cfg g parent pop s
  match policy.bind fun p => p.pick parent (scope cfg parent pop) with
  | none => d
  | some picked => withPick parent d picked

structure Bounded (before d : InspirationDraw) : Prop where
  distinct : ((d.archive ++ d.topK).map (·.id)).Nodup
  others : parent.id ∉ (d.archive ++ d.topK).map (·.id)
  archive_le : d.archive.length ≤ cfg.numArchiveInspirations.toNat
  topK_le : d.topK.length ≤ cfg.numTopKInspirations.toNat
  within : ∀ c ∈ d.archive ++ d.topK, c ∈ pop ∧ c.passed = true ∧
    (cfg.enforceIslandSeparation = true → c.islandIdx = parent.islandIdx)
  size : (d.archive ++ d.topK).length = (before.archive ++ before.topK).length
  notes : ∀ note ∈ d.notes, note.1 ∈ (d.archive ++ d.topK).map (·.id)

/-- Distinct candidates of a source, none of which has an id of `base`. -/
structure Fresh (base : List Text) (source chosen : List Candidate) : Prop where
  distinct : (chosen.map (·.id)).Nodup
  new : ∀ c ∈ chosen, c ∈ source ∧ c.id ∉ base

section
variable {base : List Text} {source cands chosen remaining : List Candidate} {bound : ℤ} {c : Candidate}

theorem Fresh.snoc (h : Fresh base source chosen) (hc : c ∈ source) (hnew : c.id ∉ base ++ chosen.map (·.id)) :
    Fresh base source (chosen ++ [c]) := by
  rw [List.mem_append, not_or] at hnew
  constructor
  · rw [List.map_append, List.nodup_append]
    refine ⟨h.distinct, List.nodup_singleton _, fun i hi j hj heq => ?_⟩
    rw [List.map_singleton, List.mem_singleton] at hj
    rw [heq, hj] at hi
    exact hnew.2 hi
  · intro d hd
    cases List.mem_append.mp hd with
    | inl hd => exact h.new d hd
    | inr hd =>
      rw [List.mem_singleton.mp hd]
      exact ⟨hc, hnew.1⟩

theorem Fresh.fill (h : Fresh base source chosen) (hcands : ∀ c ∈ cands, c ∈ source) :
    Fresh base source (fill base bound cands chosen) := by
  induction cands generalizing chosen with
  | nil => exact h
  | cons c rest ih =>
    rw [List.forall_mem_cons] at hcands
    unfold Inspirations.fill
    split
    · exact h
    · split
      · exact ih h hcands.2
      · next hnew => exact ih (h.snoc hcands.1 hnew) hcands.2

theorem length_fill (h : chosen.length ≤ bound.toNat) : (fill base bound cands chosen).length ≤ bound.toNat := by
  induction cands generalizing chosen with
  | nil => exact h
  | cons c rest ih =>
    unfold Inspirations.fill
    split
    · exact h
    · next hroom =>
      split
      · exact ih h
      · refine ih ?_
        rw [List.length_append, List.length_singleton]
        omega

theorem fill_ne_nil (h : chosen ≠ []) : fill base bound cands chosen ≠ [] := by
  induction cands generalizing chosen with
  | nil => exact h
  | cons c rest ih =>
    unfold Inspirations.fill
    split
    · exact h
    · split
      · exact ih h
      · exact ih (List.append_ne_nil_of_right_ne_nil _ (List.cons_ne_nil c []))

/-- Where there is room, a candidate with a new id is enough for one to be chosen. -/
theorem fill_ne_nil_of_mem (hroom : 0 < bound) (hc : c ∈ cands) (hnew : c.id ∉ base) : fill base bound cands [] ≠ [] := by
  induction cands with
  | nil => cases hc
  | cons d rest ih =>
    have hopen : ¬bound ≤ (([] : List Candidate).length : ℤ) := not_le.mpr hroom
    unfold Inspirations.fill
    rw [if_neg hopen, List.map_nil, List.append_nil]
    split
    · next hd =>
      cases List.mem_cons.mp hc with
      | inl heq => exact absurd (heq ▸ hd) hnew
      | inr hrest => exact ih hrest
    · exact fill_ne_nil (List.cons_ne_nil d [])

variable {σ : Type} {g : Generator σ} {n : ℤ} {fuel : ℕ} {s : σ}

structure Remains (base : List Text) (source chosen remaining : List Candidate) : Prop where
  new : ∀ c ∈ remaining, c ∈ source ∧ c.id ∉ base ++ chosen.map (·.id)
  distinct : (remaining.map (·.id)).Nodup

theorem Remains.eraseIdx (h : Remains base source chosen remaining) {i : ℕ} (hi : remaining[i]? = some c) :
    Remains base source (chosen ++ [c]) (remaining.eraseIdx i) := by
  have hsub : (remaining.eraseIdx i).Sublist remaining := List.eraseIdx_sublist ..
  refine ⟨fun d hd => ?_, h.distinct.sublist (hsub.map _)⟩
  have hnew := h.new d (hsub.subset hd)
  refine ⟨hnew.1, ?_⟩
  rw [List.map_append, ← List.append_assoc, List.mem_append, not_or]
  refine ⟨hnew.2, fun hsame => ?_⟩
  -- an equal id stands at one place only
  obtain ⟨j, hj, hne⟩ := List.mem_eraseIdx_iff_getElem?.mp hd
  have hids : (remaining.map (·.id))[i]? = (remaining.map (·.id))[j]? := by
    rw [List.getElem?_map, List.getElem?_map, hi, hne]
    simpa using (List.mem_singleton.mp hsame).symm
  obtain ⟨hlt, _⟩ := List.getElem?_eq_some_iff.mp hi
  exact hj ((List.getElem?_inj (by simpa using hlt) h.distinct).mp hids).symm

theorem Fresh.drawRest (h : Fresh base source chosen) (hrest : Remains base source chosen remaining) :
    Fresh base source (drawRest g n fuel remaining chosen s).1 := by
  induction fuel generalizing chosen remaining s with
  | zero => exact h
  | succ fuel ih =>
    unfold Inspirations.drawRest
    split
    · exact h
    · cases hpick : remaining[(g.integers s remaining.length).1]? with
      | none =>
        simp only [hpick]
        exact h
      | some pick =>
        simp only [hpick]
        have hnew := hrest.new pick (List.mem_of_getElem? hpick)
        exact ih (h.snoc hnew.1 hnew.2) (hrest.eraseIdx hpick)

theorem length_drawRest (h : chosen.length ≤ n.toNat) : (drawRest g n fuel remaining chosen s).1.length ≤ n.toNat := by
  induction fuel generalizing chosen remaining s with
  | zero => exact h
  | succ fuel ih =>
    unfold Inspirations.drawRest
    split
    · exact h
    · next hroom =>
      cases hpick : remaining[(g.integers s remaining.length).1]? with
      | none =>
        simp only [hpick]
        exact h
      | some pick =>
        simp only [hpick]
        refine ih ?_
        rw [List.length_append, List.length_singleton]
        omega

end

section
variable {cfg parent pop} {σ : Type} {g : Generator σ} {s : σ} {c : Candidate} {policy : Option InspirationPolicy}
  {before d : InspirationDraw} {picked : Candidate × Text}

theorem islandView_subset {idx : ℕ} (h : c ∈ (islandView pop idx).candidates) : c ∈ pop ∧ c.islandIdx = idx := by
  rw [islandView, List.mem_mergeSort, List.mem_filter, Bool.and_eq_true, beq_iff_eq] at h
  exact ⟨h.1, h.2.1⟩

theorem scope_within (h : c ∈ scope cfg parent pop) :
    c ∈ pop ∧ c.passed = true ∧ (cfg.enforceIslandSeparation = true → c.islandIdx = parent.islandIdx) := by
  unfold scope at h
  split at h
  · rw [IslandView.passedCandidates, List.mem_filter] at h
    have hisland := islandView_subset h.1
    exact ⟨hisland.1, h.2, fun _ => hisland.2⟩
  · next hopen =>
    rw [List.mem_filter, allCandidates, List.mem_mergeSort] at h
    exact ⟨h.1, h.2, fun hclosed => absurd hclosed hopen⟩

theorem archiveScope_subset (h : c ∈ archiveScope cfg parent pop) : c ∈ scope cfg parent pop := by
  unfold archiveScope at h
  split at h
  · next hclosed =>
    rw [IslandView.archiveCandidates, List.mem_filter, Bool.and_eq_true] at h
    rw [scope, if_pos hclosed]
    exact List.mem_filter.mpr ⟨h.1, h.2.2⟩
  · exact (List.mem_filter.mp h).1

theorem islandView_distinct {idx : ℕ} (hids : (pop.map (·.id)).Nodup) :
    ((islandView pop idx).candidates.map (·.id)).Nodup :=
  ((List.mergeSort_perm _ _).map _).nodup_iff.mpr (hids.sublist (List.filter_sublist.map _))

theorem scope_distinct (hids : (pop.map (·.id)).Nodup) : ((scope cfg parent pop).map (·.id)).Nodup := by
  unfold scope
  split
  · exact (islandView_distinct hids).sublist (List.filter_sublist.map _)
  · have hall : ((allCandidates pop).map (·.id)).Nodup := ((List.mergeSort_perm _ _).map _).nodup_iff.mpr hids
    exact hall.sublist (List.filter_sublist.map _)

theorem archiveScope_distinct (hids : (pop.map (·.id)).Nodup) : ((archiveScope cfg parent pop).map (·.id)).Nodup := by
  unfold archiveScope
  split
  · exact (islandView_distinct hids).sublist (List.filter_sublist.map _)
  · exact (scope_distinct hids).sublist (List.filter_sublist.map _)

theorem elites_fresh {archived : List Candidate} : Fresh [parent.id] archived (elites cfg parent archived) := by
  refine Fresh.fill ?_ fun c hc => ?_
  · constructor
    · cases maxBy (fun a b : Candidate => a.fitness ≤ b.fitness) archived with
      | none => exact List.nodup_nil
      | some best =>
        by_cases hparent : best.id = parent.id
        · simp [hparent]
        · simp [hparent]
    · intro c hc
      obtain ⟨hbest, hne⟩ := List.mem_filter.mp hc
      rw [Option.mem_toList] at hbest
      exact ⟨maxBy_mem _ hbest, by simpa using hne⟩
  · rw [byFitness, List.mem_mergeSort] at hc
    exact hc

theorem length_elites {archived : List Candidate} (h : 0 < cfg.numArchiveInspirations) :
    (elites cfg parent archived).length ≤ cfg.numArchiveInspirations.toNat := by
  have hbest : ((maxBy (fun a b : Candidate => a.fitness ≤ b.fitness) archived).toList.filter
      (·.id ≠ parent.id)).length ≤ 1 := by
    refine (List.length_filter_le _ _).trans ?_
    cases maxBy (fun a b : Candidate => a.fitness ≤ b.fitness) archived with
    | none => exact Nat.zero_le 1
    | some best => exact le_refl 1
  refine (length_fill ?_).trans (Int.toNat_le_toNat (min_le_left _ _))
  omega

theorem archiveRoute_fresh (hids : (pop.map (·.id)).Nodup) :
    Fresh [parent.id] (scope cfg parent pop) (archiveRoute cfg g parent pop s).1 := by
  unfold archiveRoute
  dsimp only
  split
  · exact ⟨List.nodup_nil, fun c hc => absurd hc List.not_mem_nil⟩
  · have helites : Fresh [parent.id] (scope cfg parent pop) (elites cfg parent (archiveScope cfg parent pop)) := by
      have hfresh : Fresh [parent.id] (archiveScope cfg parent pop) (elites cfg parent (archiveScope cfg parent pop)) :=
        elites_fresh
      exact ⟨hfresh.distinct, fun c hc => ⟨archiveScope_subset (hfresh.new c hc).1, (hfresh.new c hc).2⟩⟩
    refine helites.drawRest ⟨fun c hc => ?_, (archiveScope_distinct hids).sublist (List.filter_sublist.map _)⟩
    obtain ⟨hmem, hnew⟩ := List.mem_filter.mp hc
    exact ⟨archiveScope_subset hmem, by simpa using hnew⟩

theorem length_archiveRoute : (archiveRoute cfg g parent pop s).1.length ≤ cfg.numArchiveInspirations.toNat := by
  unfold archiveRoute
  dsimp only
  split
  · exact Nat.zero_le _
  · next hroom =>
    rw [not_or] at hroom
    exact length_drawRest (length_elites (by omega))

theorem topKRoute_fresh {chosen : List Candidate} :
    Fresh (parent.id :: chosen.map (·.id)) (scope cfg parent pop) (topKRoute cfg parent pop chosen) := by
  have hnil : Fresh (parent.id :: chosen.map (·.id)) (scope cfg parent pop) [] :=
    ⟨List.nodup_nil, fun c hc => absurd hc List.not_mem_nil⟩
  unfold topKRoute
  split
  · exact hnil
  · refine hnil.fill fun c hc => ?_
    rw [byFitness, List.mem_mergeSort] at hc
    exact hc

theorem length_topKRoute {chosen : List Candidate} :
    (topKRoute cfg parent pop chosen).length ≤ cfg.numTopKInspirations.toNat := by
  unfold topKRoute
  split
  · exact Nat.zero_le _
  · exact length_fill (Nat.zero_le _)

theorem topKRoute_ne_nil {chosen : List Candidate} (hroom : 0 < cfg.numTopKInspirations) (hc : c ∈ scope cfg parent pop)
    (hnew : c.id ∉ parent.id :: chosen.map (·.id)) : topKRoute cfg parent pop chosen ≠ [] := by
  rw [topKRoute, if_neg (not_le.mpr hroom)]
  exact fill_ne_nil_of_mem hroom (List.mem_mergeSort.mpr hc) hnew

theorem drawn_fresh (hids : (pop.map (·.id)).Nodup) : Fresh [parent.id] (scope cfg parent pop)
    ((drawn cfg g parent pop s).archive ++ (drawn cfg g parent pop s).topK) := by
  have harchive : Fresh [parent.id] (scope cfg parent pop) (archiveRoute cfg g parent pop s).1 := archiveRoute_fresh hids
  have htopK : Fresh (parent.id :: (archiveRoute cfg g parent pop s).1.map (·.id)) (scope cfg parent pop)
      (topKRoute cfg parent pop (archiveRoute cfg g parent pop s).1) := topKRoute_fresh
  constructor
  · rw [List.map_append, List.nodup_append]
    refine ⟨harchive.distinct, htopK.distinct, fun i hi j hj heq => ?_⟩
    obtain ⟨c, hc, hid⟩ := List.mem_map.mp hj
    refine (htopK.new c hc).2 (List.mem_cons_of_mem _ ?_)
    rw [hid, ← heq]
    exact hi
  · intro c hc
    cases List.mem_append.mp hc with
    | inl hc => exact harchive.new c hc
    | inr hc =>
      have hnew := htopK.new c hc
      rw [List.mem_cons, not_or] at hnew
      exact ⟨hnew.1, by simpa using hnew.2.1⟩

theorem Fresh.bounded (h : Fresh [parent.id] (scope cfg parent pop) (d.archive ++ d.topK))
    (harchive : d.archive.length ≤ cfg.numArchiveInspirations.toNat) (htopK : d.topK.length ≤ cfg.numTopKInspirations.toNat)
    (hsize : (d.archive ++ d.topK).length = (before.archive ++ before.topK).length)
    (hnotes : ∀ note ∈ d.notes, note.1 ∈ (d.archive ++ d.topK).map (·.id)) : Bounded cfg parent pop before d where
  distinct := h.distinct
  others hmem := by
    obtain ⟨c, hc, hid⟩ := List.mem_map.mp hmem
    exact (h.new c hc).2 (by simp [hid])
  archive_le := harchive
  topK_le := htopK
  within c hc := scope_within (h.new c hc).1
  size := hsize
  notes := hnotes

theorem drawn_bounded (hids : (pop.map (·.id)).Nodup) :
    Bounded cfg parent pop (drawn cfg g parent pop s) (drawn cfg g parent pop s) :=
  (drawn_fresh hids).bounded length_archiveRoute length_topKRoute rfl fun _ h => absurd h List.not_mem_nil

theorem Bounded.withPick (h : Bounded cfg parent pop d d)
    (hpicked : picked.1 ∈ scope cfg parent pop) (hother : picked.1.id ≠ parent.id) :
    Bounded cfg parent pop d (withPick parent d picked) := by
  unfold Inspirations.withPick
  split
  · next hmem =>
    refine ⟨h.distinct, h.others, h.archive_le, h.topK_le, h.within, rfl, fun note hnote => ?_⟩
    rw [List.mem_singleton.mp hnote]
    cases List.mem_cons.mp hmem with
    | inl hparent => exact absurd hparent hother
    | inr hchosen => exact hchosen
  · next hnew =>
    rw [List.mem_cons, not_or] at hnew
    split
    · exact h
    · next htopK =>
      have hlast : d.topK = d.topK.dropLast ++ [d.topK.getLast htopK] := (List.dropLast_append_getLast htopK).symm
      have hkept : (d.archive ++ d.topK.dropLast).Sublist (d.archive ++ d.topK) :=
        (List.Sublist.refl _).append (List.dropLast_sublist _)
      have hcontents : ∀ c ∈ d.archive ++ (d.topK.dropLast ++ [picked.1]),
          c ∈ d.archive ++ d.topK ∨ c = picked.1 := by
        intro c hc
        rw [← List.append_assoc] at hc
        cases List.mem_append.mp hc with
        | inl hc => exact Or.inl (hkept.subset hc)
        | inr hc => exact Or.inr (List.mem_singleton.mp hc)
      constructor
      · rw [← List.append_assoc, List.map_append, List.nodup_append]
        refine ⟨h.distinct.sublist (hkept.map _), List.nodup_singleton _, fun i hi j hj heq => hnew.2 ?_⟩
        rw [List.map_singleton, List.mem_singleton] at hj
        rw [← hj, ← heq]
        exact (hkept.map _).subset hi
      · intro hmem
        obtain ⟨c, hc, hid⟩ := List.mem_map.mp hmem
        cases hcontents c hc with
        | inl hc => exact h.others (hid ▸ List.mem_map_of_mem hc)
        | inr hc => exact hother (hc ▸ hid)
      · exact h.archive_le
      · refine le_trans (le_of_eq ?_) h.topK_le
        rw [List.length_append, List.length_dropLast, List.length_singleton]
        have hpos := List.length_pos_iff.mpr htopK
        omega
      · intro c hc
        cases hcontents c hc with
        | inl hc => exact h.within c hc
        | inr hc =>
          rw [hc]
          exact scope_within hpicked
      · have hpos := List.length_pos_iff.mpr htopK
        simp only [List.length_append, List.length_dropLast, List.length_singleton]
        omega
      · intro note hnote
        rw [List.mem_singleton.mp hnote]
        simp

/-- The draw is a bounded set of other programs unless the policy picks the parent: its note is then for a program
that is not shown. -/
theorem inspirations_bounded_iff (cfg : InspirationConfig) {σ : Type} (g : Generator σ)
    (policy : Option InspirationPolicy) (parent : Candidate) (pop : List Candidate) (s : σ)
    (hids : (pop.map (·.id)).Nodup) :
    Bounded cfg parent pop (sample cfg g none parent pop s) (sample cfg g policy parent pop s) ↔
      ∀ p ∈ policy, ∀ picked ∈ p.pick parent (scope cfg parent pop), picked.1.id ≠ parent.id := by
  have hbefore : sample cfg g none parent pop s = drawn cfg g parent pop s := rfl
  rw [hbefore]
  cases policy with
  | none =>
    refine ⟨fun _ p hp => ?_, fun _ => drawn_bounded hids⟩
    cases hp
  | some p =>
    cases hpick : p.pick parent (scope cfg parent pop) with
    | none =>
      have hdraw : sample cfg g (some p) parent pop s = drawn cfg g parent pop s := by
        simp only [sample, Option.bind_some, hpick]
      rw [hdraw]
      refine ⟨fun _ q hq picked hpicked => ?_, fun _ => drawn_bounded hids⟩
      cases hq
      rw [hpick] at hpicked
      cases hpicked
    | some picked =>
      have hdraw : sample cfg g (some p) parent pop s = withPick parent (drawn cfg g parent pop s) picked := by
        simp only [sample, Option.bind_some, hpick]
      rw [hdraw]
      constructor
      · intro h q hq other hother hparent
        cases hq
        rw [hpick] at hother
        cases hother
        have hnoted : withPick parent (drawn cfg g parent pop s) picked =
            { drawn cfg g parent pop s with notes := [(picked.1.id, picked.2)] } := by
          rw [withPick, if_pos (by simp [hparent])]
        rw [hnoted] at h
        have hmem := h.notes _ (List.mem_singleton.mpr rfl)
        rw [hparent] at hmem
        exact h.others hmem
      · intro h
        exact (drawn_bounded hids).withPick (p.pick_mem _ _ _ hpick) (h p rfl picked hpick)

end

end

def anyPick : InspirationConfig where
  eliteShare _ := 0

def firstOf : Generator Unit where
  integers s _ := (0, s)
  integers_lt _ _ h := h

def soleParent : Candidate where
  id := "parent".toList
  generation := 0
  report := some ⟨1, true⟩
  inArchive := true

def otherProgram : Candidate where
  id := "other".toList
  generation := 0
  report := some ⟨1, true⟩

theorem head_mem (scope : List Candidate) (picked : Candidate × Text)
    (h : scope.head?.map (fun c => (c, "fastest".toList)) = some picked) : picked.1 ∈ scope := by
  obtain ⟨c, hc, rfl⟩ := Option.map_eq_some_iff.mp h
  exact List.mem_of_mem_head? hc

def firstOfScope : InspirationPolicy where
  pick _ scope := scope.head?.map fun c => (c, "fastest".toList)
  pick_mem _ := head_mem

theorem inspirations_bounded_iff_other :
    Bounded anyPick soleParent [otherProgram] (sample anyPick firstOf none soleParent [otherProgram] ())
      (sample anyPick firstOf (some firstOfScope) soleParent [otherProgram] ()) := by
  refine (inspirations_bounded_iff anyPick firstOf (some firstOfScope) soleParent [otherProgram] ()
    (List.nodup_singleton _)).mpr fun p hp picked hpicked => ?_
  cases hp
  have hother : (firstOfScope.pick soleParent (scope anyPick soleParent [otherProgram])).map (·.1.id) =
      some "other".toList := by decide +kernel
  rw [hpicked] at hother
  have hid : picked.1.id = "other".toList := Option.some.inj hother
  rw [hid]
  decide

theorem note_for_parent : ¬ ∀ (cfg : InspirationConfig) (σ : Type) (g : Generator σ) (policy : Option InspirationPolicy)
    (parent : Candidate) (pop : List Candidate) (s : σ), (pop.map (·.id)).Nodup →
      Bounded cfg parent pop (sample cfg g none parent pop s) (sample cfg g policy parent pop s) := by
  intro hclaim
  have hbounded := hclaim anyPick Unit firstOf (some firstOfScope) soleParent [soleParent] () (List.nodup_singleton _)
  have hnotes : (sample anyPick firstOf (some firstOfScope) soleParent [soleParent] ()).notes =
      [("parent".toList, "fastest".toList)] := by decide +kernel
  have hmem := hbounded.notes ("parent".toList, "fastest".toList) (by rw [hnotes]; exact List.mem_singleton.mpr rfl)
  exact hbounded.others hmem

end EvoHarness.Core.Population.Inspirations
