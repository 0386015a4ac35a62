import EvoHarness.Core.Agent.Compaction
import EvoHarness.Library.JsonMembers

/-! What compaction gives up first. A result belongs to the tool that was called for it; compaction
looks its id up in the whole session. -/
namespace EvoHarness.Core.Agent
open PyText Hoare

section
variable (b : NativeToolAgentBackend) (est : List LLMMessage → ℕ) (messages : List LLMMessage)

def resultAt (l : Location) : Option LLMToolResult :=
  (messages[l.messageIndex]?).bind fun m => m.toolResults[l.resultIndex]?

def Location.place (l : Location) : ℕ × ℕ := (l.messageIndex, l.resultIndex)

def Intact (l : Location) : Prop := resultAt messages l = some l.result

def old : List Location := (locations messages).take ((locations messages).length - b.recentToolResultsToKeep)

def kept : List Location := (locations messages).drop ((locations messages).length - b.recentToolResultsToKeep)

/-- The tool of the call that a result answers, which stands in the message before. -/
def ownTool (l : Location) : Text :=
  match l.messageIndex with
  | 0 => []
  | i + 1 =>
    match (((messages[i]?).map LLMMessage.toolCalls).getD []).find? (·.callId = l.result.callId) with
    | some call => call.name
    | none => []

def ownEphemeral (l : Location) : Bool :=
  match b.tools.find? (·.name = ownTool messages l) with
  | some tool => tool.ephemeral
  | none => false

end

section
variable {messages : List LLMMessage} {l l' : Location}

def Location.compact (l : Location) : LLMToolResult :=
  ⟨l.result.callId, compactedToolContent l.result.isError, l.result.isError⟩

theorem mem_locations_iff : l ∈ locations messages ↔ Intact messages l ∧ isCompactedResult l.result = false := by
  unfold locations Intact resultAt
  rw [List.mem_flatMap]
  constructor
  · intro h
    obtain ⟨m, hm, hr⟩ := h
    obtain ⟨r, hr, hsome⟩ := List.mem_filterMap.mp hr
    have hmi := List.mem_zipIdx_iff_getElem?.mp hm
    have hri := List.mem_zipIdx_iff_getElem?.mp hr
    by_cases hc : isCompactedResult r.1 = true
    · rw [if_pos hc] at hsome
      exact nomatch hsome
    · rw [if_neg hc] at hsome
      obtain rfl := Option.some.inj hsome
      rw [hmi]
      exact ⟨hri, Bool.eq_false_iff.mpr hc⟩
  · intro h
    obtain ⟨hresult, hfull⟩ := h
    obtain ⟨m, hm, hr⟩ := Option.bind_eq_some_iff.mp hresult
    refine ⟨(m, l.messageIndex), List.mem_zipIdx_iff_getElem?.mpr hm, List.mem_filterMap.mpr ?_⟩
    refine ⟨(l.result, l.resultIndex), List.mem_zipIdx_iff_getElem?.mpr hr, ?_⟩
    rw [if_neg (by rw [hfull]; exact Bool.false_ne_true)]

theorem resultAt_congr (h : l.place = l'.place) : resultAt messages l = resultAt messages l' := by
  simp only [Location.place, Prod.mk.injEq] at h
  rw [resultAt, resultAt, h.1, h.2]

theorem eq_of_place (hl : Intact messages l) (hl' : Intact messages l') (h : l.place = l'.place) : l = l' := by
  have hresult : l.result = l'.result := by
    rw [Intact, resultAt_congr h] at hl
    exact Option.some.inj (hl.symm.trans hl')
  cases l
  cases l'
  simp only [Location.place, Prod.mk.injEq] at h
  simp_all

theorem resultAt_compactAt (l l' : Location) :
    resultAt (compactAt messages l) l' =
      if l.place = l'.place then (resultAt messages l').map fun _ => l.compact else resultAt messages l' := by
  unfold compactAt
  cases hm : messages[l.messageIndex]? with
  | none =>
    by_cases hplace : l.place = l'.place
    · have hnone : resultAt messages l = none := by rw [resultAt, hm]; rfl
      rw [if_pos hplace, ← resultAt_congr hplace, hnone]
      rfl
    · rw [if_neg hplace]
  | some original =>
    have hlt := (List.getElem?_eq_some_iff.mp hm).1
    unfold resultAt Location.place
    dsimp only
    rw [List.getElem?_set]
    by_cases hi : l.messageIndex = l'.messageIndex
    · rw [if_pos hi, if_pos hlt, ← hi, hm]
      show (original.toolResults.set l.resultIndex l.compact)[l'.resultIndex]? =
        if (l.messageIndex, l.resultIndex) = (l.messageIndex, l'.resultIndex)
        then (original.toolResults[l'.resultIndex]?).map _ else original.toolResults[l'.resultIndex]?
      rw [List.getElem?_set]
      by_cases hj : l.resultIndex = l'.resultIndex
      · have hsame : (l.messageIndex, l.resultIndex) = (l.messageIndex, l.resultIndex) := rfl
        rw [if_pos hj, ← hj, if_pos hsame]
        by_cases hin : l.resultIndex < original.toolResults.length
        · rw [if_pos hin, List.getElem?_eq_getElem hin]
          rfl
        · rw [if_neg hin, List.getElem?_eq_none (not_lt.mp hin)]
          rfl
      · rw [if_neg hj, if_neg (by simp [hj])]
    · rw [if_neg hi, if_neg (by simp [hi])]

theorem isCompactedResult_compact (l : Location) : isCompactedResult l.compact = true := by
  simp [isCompactedResult, Location.compact]

/-- A full result is intact after a place is compacted if and only if it was before and stands elsewhere. -/
theorem intact_compactAt (hfull : isCompactedResult l'.result = false) :
    Intact (compactAt messages l) l' ↔ Intact messages l' ∧ l.place ≠ l'.place := by
  unfold Intact
  rw [resultAt_compactAt]
  split
  · next hplace =>
    constructor
    · intro h
      obtain ⟨r, _, heq⟩ := Option.map_eq_some_iff.mp h
      rw [← heq, isCompactedResult_compact] at hfull
      exact nomatch hfull
    · exact fun h => absurd hplace h.2
  · next hplace => exact ⟨fun h => ⟨h, hplace⟩, fun h => h.1⟩

theorem locations_apart (messages : List LLMMessage) :
    (locations messages).Pairwise fun l l' => l.place ≠ l'.place := by
  have hindices : ∀ {α : Type} (xs : List α), xs.zipIdx.Pairwise fun x y => x.2 ≠ y.2 := by
    intro α xs
    rw [← List.pairwise_map (f := Prod.snd) (R := (· ≠ ·))]
    exact List.nodup_zipIdx_map_snd xs
  unfold locations
  rw [List.pairwise_flatMap]
  constructor
  · intro m _
    rw [List.pairwise_filterMap]
    refine (hindices _).imp fun {r r'} hne l hl l' hl' hplace => hne ?_
    split at hl
    · exact nomatch hl
    · split at hl'
      · exact nomatch hl'
      · rw [← Option.some.inj hl, ← Option.some.inj hl'] at hplace
        exact (Prod.mk.inj hplace).2
  · refine (hindices _).imp fun {m m'} hne l hl l' hl' hplace => hne ?_
    obtain ⟨r, _, hl⟩ := List.mem_filterMap.mp hl
    obtain ⟨r', _, hl'⟩ := List.mem_filterMap.mp hl'
    split at hl
    · exact nomatch hl
    · split at hl'
      · exact nomatch hl'
      · rw [← Option.some.inj hl, ← Option.some.inj hl'] at hplace
        exact (Prod.mk.inj hplace).1

end

section
variable (b : NativeToolAgentBackend) (est : List LLMMessage → ℕ)

/-- Under the ceiling only ephemeral results go; over it a diagnostic result goes only when no old ephemeral one
that is still there would shrink the estimate; and the last results stay. -/
structure CheapestFirst (before after : List LLMMessage) : Prop where
  pressure : est before ≤ b.maxInputTokens →
    ∀ l ∈ locations before, ¬ Intact after l → ownEphemeral b before l = true
  ceiling : b.maxInputTokens < est before →
    ∀ p ∈ givenUp b est true (compactable b before true) before, ownEphemeral b before p.2 = false →
      ∀ e ∈ old b before, ownEphemeral b before e = true → Intact p.1 e → est p.1 ≤ est (compactAt p.1 e)
  kept : ∀ l ∈ kept b before, Intact after l

def Variant (before after : List LLMMessage) : Prop := ∃ ls ⊆ old b before, after = ls.foldl compactAt before

/-- An old result that does not shrink the estimate does not shrink it when others are given up. -/
def Lasting (messages : List LLMMessage) : Prop :=
  ∀ after, Variant b messages after → ∀ e ∈ old b messages, ∀ l ∈ old b messages,
    est after ≤ est (compactAt after e) → est (compactAt after l) ≤ est (compactAt (compactAt after l) e)

/-- No old result is one to three characters longer than what replaces it. -/
def Coarse (messages : List LLMMessage) : Prop := ∀ l ∈ old b messages,
  l.result.content.length ≤ (compactedToolContent l.result.isError).length ∨
    (compactedToolContent l.result.isError).length + 4 ≤ l.result.content.length

/-- No old diagnostic result counts as ephemeral, unless there is no trigger below the ceiling, and none is tried
before an ephemeral one. -/
structure TriedInOrder (messages : List LLMMessage) : Prop where
  pressure : b.compactTriggerRatio < 1 →
    ∀ l ∈ old b messages, isEphemeral b messages l = true → ownEphemeral b messages l = true
  ceiling : (compactable b messages true).Pairwise fun d e =>
    ownEphemeral b messages e = true → ownEphemeral b messages d = true

end

section
variable {b : NativeToolAgentBackend} {est : List LLMMessage → ℕ} {messages : List LLMMessage} {overBudget : Bool}

theorem mem_old {l : Location} (h : l ∈ old b messages) : l ∈ locations messages := List.mem_of_mem_take h

theorem mem_compactable {l : Location} :
    l ∈ compactable b messages overBudget ↔
      l ∈ old b messages ∧ (overBudget = true ∨ isEphemeral b messages l = true) := by
  show l ∈ (if overBudget = true then _ else _) ↔ _
  cases overBudget with
  | false => simp [old]
  | true =>
    simp only [if_true, List.mem_append, List.mem_filter, Bool.not_eq_true', true_or, and_true]
    cases isEphemeral b messages l <;> simp [old]

theorem Variant.refl : Variant b messages messages := ⟨[], List.nil_subset _, rfl⟩

theorem Variant.compactAt {after : List LLMMessage} {l : Location} (h : Variant b messages after)
    (hl : l ∈ old b messages) : Variant b messages (compactAt after l) := by
  obtain ⟨ls, hls, rfl⟩ := h
  refine ⟨ls ++ [l], List.append_subset.mpr ⟨hls, by simpa using hl⟩, ?_⟩
  rw [List.foldl_append]
  rfl

theorem intact_compacted {l : Location} {ls : List Location} {after : List LLMMessage}
    (hfull : isCompactedResult l.result = false) (hintact : Intact after l) (hls : ∀ l' ∈ ls, l'.place ≠ l.place) :
    Intact (compactedMessages b est overBudget ls after) l := by
  induction ls generalizing after with
  | nil => exact hintact
  | cons l' rest ih =>
    have hrest (after : List LLMMessage) (h : Intact after l) : Intact (compactedMessages b est overBudget rest after) l :=
      ih h fun l'' hl'' => hls l'' (List.mem_cons_of_mem _ hl'')
    have hnext : Intact (Agent.compactAt after l') l :=
      (intact_compactAt hfull).mpr ⟨hintact, hls l' (List.mem_cons_self ..)⟩
    unfold compactedMessages
    split
    · exact hrest after hintact
    · split
      · exact hnext
      · exact hrest _ hnext

theorem intact_kept {l : Location} (hl : l ∈ kept b messages) : Intact (prepared b est messages) l := by
  have hmem := mem_locations_iff.mp (List.mem_of_mem_drop hl)
  unfold prepared
  split
  · exact hmem.1
  · apply intact_compacted hmem.2 hmem.1
    intro l' hl'
    have hapart := locations_apart messages
    rw [← List.take_append_drop ((locations messages).length - b.recentToolResultsToKeep) (locations messages)] at hapart
    exact (List.pairwise_append.mp hapart).2.2 l' (mem_compactable.mp hl').1 l hl

/-- When a diagnostic result goes, every ephemeral one before it in the list has been tried. -/
theorem givenUp_inOrder (hlasting : Lasting b est messages) {done ls : List Location} {after : List LLMMessage}
    (hafter : Variant b messages after) (hold : ∀ l ∈ done ++ ls, l ∈ old b messages)
    (horder : (done ++ ls).Pairwise fun d e => ownEphemeral b messages e = true → ownEphemeral b messages d = true)
    (hdone : ∀ e ∈ done, Intact after e → est after ≤ est (compactAt after e)) :
    ∀ p ∈ givenUp b est overBudget ls after, ownEphemeral b messages p.2 = false →
      ∀ e ∈ done ++ ls, ownEphemeral b messages e = true → Intact p.1 e → est p.1 ≤ est (compactAt p.1 e) := by
  induction ls generalizing done after with
  | nil => exact fun p hp => nomatch hp
  | cons l rest ih =>
    have hl : l ∈ old b messages := hold l (by simp)
    have hfullOf : ∀ e ∈ done ++ l :: rest, isCompactedResult e.result = false :=
      fun e he => (mem_locations_iff.mp (mem_old (hold e he))).2
    have hhead : ownEphemeral b messages l = false → ∀ e ∈ done ++ l :: rest, ownEphemeral b messages e = true →
        Intact after e → est after ≤ est (compactAt after e) := by
      intro hdiagnostic e he heph hintact
      cases List.mem_append.mp he with
      | inl hearlier => exact hdone e hearlier hintact
      | inr hlater =>
        cases List.mem_cons.mp hlater with
        | inl hself =>
          rw [hself, hdiagnostic] at heph
          exact nomatch heph
        | inr hrest =>
          have hbehind := (List.pairwise_cons.mp (List.pairwise_append.mp horder).2.1).1 e hrest heph
          rw [hdiagnostic] at hbehind
          exact nomatch hbehind
    have hmove : done ++ l :: rest = (done ++ [l]) ++ rest := by simp
    have hstay : est after ≤ est (compactAt after l) →
        ∀ e ∈ done ++ [l], Intact after e → est after ≤ est (compactAt after e) := by
      intro hle e he hintact
      cases List.mem_append.mp he with
      | inl hearlier => exact hdone e hearlier hintact
      | inr hself => rwa [List.mem_singleton.mp hself]
    have hgo : ∀ e ∈ done ++ [l], Intact (compactAt after l) e →
        est (compactAt after l) ≤ est (compactAt (compactAt after l) e) := by
      intro e he hintact
      have hmem : e ∈ done ++ l :: rest := by rw [hmove]; exact List.mem_append_left _ he
      obtain ⟨hbefore, hplace⟩ := (intact_compactAt (hfullOf e hmem)).mp hintact
      cases List.mem_append.mp he with
      | inl hearlier => exact hlasting after hafter e (hold e hmem) l hl (hdone e hearlier hbefore)
      | inr hself => exact absurd (congrArg Location.place (List.mem_singleton.mp hself).symm) hplace
    rw [hmove] at hold horder
    unfold givenUp
    intro p hp
    split at hp
    · next hle =>
      rw [hmove]
      exact ih hafter hold horder (hstay hle) p hp
    · split at hp
      · rw [List.mem_singleton.mp hp]
        exact hhead
      · cases List.mem_cons.mp hp with
        | inl hnow =>
          rw [hnow]
          exact hhead
        | inr hlater =>
          rw [hmove]
          exact ih (hafter.compactAt hl) hold horder hgo p hlater

variable {dumps : List (Text × Json.Value) → Text} {toolCharacters : ℕ} {after : List LLMMessage}

theorem tool_of_result {m : LLMMessage} {j : ℕ} {r : LLMToolResult} (h : m.toolResults[j]? = some r) :
    m = .tool m.toolResults := by
  cases m with
  | tool rs => rfl
  | _ => cases h

theorem characters_tool (rs : List LLMToolResult) :
    (LLMMessage.tool rs).characters dumps = 4 + (rs.map (·.characters)).sum := rfl

/-- Replacing a result changes the characters by those of its content. -/
theorem characters_compactAt {l : Location} {r : LLMToolResult} (h : resultAt after l = some r)
    (hid : r.callId = l.result.callId) :
    characters dumps (compactAt after l) + r.content.length =
      characters dumps after + (compactedToolContent l.result.isError).length := by
  obtain ⟨m, hm, hr⟩ := Option.bind_eq_some_iff.mp h
  have hcompact : compactAt after l = after.set l.messageIndex (.tool (m.toolResults.set l.resultIndex l.compact)) := by
    rw [compactAt, hm]
    rfl
  have hmessages : characters dumps (after.set l.messageIndex (.tool (m.toolResults.set l.resultIndex l.compact))) +
      m.characters dumps = characters dumps after +
        (LLMMessage.tool (m.toolResults.set l.resultIndex l.compact)).characters dumps := sum_map_set _ _ hm
  have hresults : ((m.toolResults.set l.resultIndex l.compact).map (·.characters)).sum + r.characters =
      (m.toolResults.map (·.characters)).sum + l.compact.characters := sum_map_set _ _ hr
  have hold : m.characters dumps = 4 + (m.toolResults.map (·.characters)).sum := by
    rw [tool_of_result hr]
    rfl
  have hnew : l.compact.characters = l.result.callId.length + (compactedToolContent l.result.isError).length := rfl
  have hlong : r.characters = l.result.callId.length + r.content.length := by rw [LLMToolResult.characters, hid]
  rw [characters_tool, hold] at hmessages
  rw [hnew, hlong] at hresults
  rw [hcompact]
  omega

/-- Where old results have been replaced, each is as it was or its replacement. -/
theorem Variant.result (h : Variant b messages after) {l : Location} (hl : l ∈ old b messages) :
    Intact after l ∨ resultAt after l = some l.compact := by
  obtain ⟨ls, hls, rfl⟩ := h
  have hstart : ∀ l ∈ old b messages, Intact messages l ∨ resultAt messages l = some l.compact :=
    fun l hl => .inl (mem_locations_iff.mp (mem_old hl)).1
  suffices hrun : ∀ now : List LLMMessage, (∀ l ∈ old b messages, Intact now l ∨ resultAt now l = some l.compact) →
      ∀ l ∈ old b messages, Intact (ls.foldl Agent.compactAt now) l ∨
        resultAt (ls.foldl Agent.compactAt now) l = some l.compact from hrun messages hstart l hl
  clear hl
  induction ls with
  | nil => exact fun _ h => h
  | cons l' ls ih =>
    rw [List.cons_subset] at hls
    intro now hnow
    refine ih hls.2 (Agent.compactAt now l') fun l hl => ?_
    have hresult := @resultAt_compactAt now l' l
    by_cases hplace : l'.place = l.place
    · have hsame : l' = l :=
        eq_of_place (mem_locations_iff.mp (mem_old hls.1)).1 (mem_locations_iff.mp (mem_old hl)).1 hplace
      rw [if_pos hplace, hsame] at hresult
      refine .inr ?_
      rw [hsame, hresult]
      cases hnow l hl with
      | inl hintact => rw [show resultAt now l = some l.result from hintact]; rfl
      | inr hgone => rw [hgone]; rfl
    · rw [if_neg hplace] at hresult
      rw [Intact, hresult]
      exact hnow l hl

theorem estimateTokens_compactAt (h : Variant b messages after) {e : Location} (he : e ∈ old b messages)
    (hcoarse : Coarse b messages) :
    estimateTokens dumps toolCharacters after ≤ estimateTokens dumps toolCharacters (compactAt after e) ↔
      ¬Intact after e ∨ e.result.content.length ≤ (compactedToolContent e.result.isError).length := by
  have hfull := (mem_locations_iff.mp (mem_old he)).2
  by_cases hintact : Intact after e
  · have hcharacters := @characters_compactAt dumps after e e.result hintact rfl
    have hlength := hcoarse e he
    unfold estimateTokens
    simp only [hintact, not_true_eq_false, false_or]
    constructor
    · intro hle
      omega
    · intro hshort
      omega
  · have hgone := (h.result he).resolve_left hintact
    have hcharacters := @characters_compactAt dumps after e e.compact hgone rfl
    have hsame : e.compact.content = compactedToolContent e.result.isError := rfl
    rw [hsame] at hcharacters
    unfold estimateTokens
    refine iff_of_true ?_ (.inl hintact)
    omega

/-- The shipped estimator lasts where no old result is a little longer than what replaces it. -/
theorem estimateTokens_lasting (hcoarse : Coarse b messages) :
    Lasting b (estimateTokens dumps toolCharacters) messages := by
  intro after hafter e he l hl hle
  have hfull := (mem_locations_iff.mp (mem_old he)).2
  rw [estimateTokens_compactAt hafter he hcoarse] at hle
  rw [estimateTokens_compactAt (hafter.compactAt hl) he hcoarse, intact_compactAt hfull]
  refine hle.imp_left fun hgone hintact => hgone hintact.1

theorem TriedInOrder.cheapestFirst (h : TriedInOrder b messages) (hlasting : Lasting b est messages) :
    CheapestFirst b est messages (prepared b est messages) where
  pressure := by
    intro hunder l hl hgone
    have hmem := mem_locations_iff.mp hl
    unfold prepared at hgone
    split at hgone
    · exact absurd hmem.1 hgone
    · next hpressed =>
      have hover : isOver b est messages = false := decide_eq_false (not_lt.mpr hunder)
      rw [hover] at hgone
      have htried : ∃ l' ∈ compactable b messages false, l'.place = l.place := by
        by_contra hnone
        push Not at hnone
        exact hgone (intact_compacted hmem.2 hmem.1 hnone)
      obtain ⟨l', hl', hplace⟩ := htried
      obtain ⟨hold, heph⟩ := mem_compactable.mp hl'
      obtain rfl := eq_of_place (mem_locations_iff.mp (mem_old hold)).1 hmem.1 hplace
      refine h.pressure ?_ l' hold (heph.resolve_left Bool.false_ne_true)
      by_contra hratio
      have hone : b.compactTriggerRatio = 1 := le_antisymm b.ratio_le (not_lt.mp hratio)
      exact hpressed ⟨hunder, by rw [hone, one_mul]; exact_mod_cast hunder⟩
  ceiling := by
    intro _ p hp hdiagnostic e he
    have hold : ∀ l ∈ [] ++ compactable b messages true, l ∈ old b messages := by
      intro l hl
      have htried : l ∈ compactable b messages true := hl
      exact (mem_compactable.mp htried).1
    have hdone : ∀ e ∈ ([] : List Location), Intact messages e → est messages ≤ est (compactAt messages e) :=
      fun e he => nomatch he
    exact givenUp_inOrder hlasting Variant.refl hold h.ceiling hdone p hp hdiagnostic e
      (mem_compactable.mpr ⟨he, .inl rfl⟩)
  kept := fun l hl => intact_kept hl

instance (messages : List LLMMessage) (l : Location) : Decidable (Intact messages l) :=
  inferInstanceAs (Decidable (_ = _))

def weigh (base : ℕ) (chosen : List Location) (messages : List LLMMessage) : ℕ :=
  base + (chosen.filter fun c => Intact messages c).length

variable {base : ℕ} {chosen : List Location}

theorem weigh_le_iff (hfull : ∀ c ∈ chosen, isCompactedResult c.result = false) (after : List LLMMessage) (l : Location) :
    weigh base chosen after ≤ weigh base chosen (compactAt after l) ↔ ∀ c ∈ chosen, Intact after c → l.place ≠ c.place := by
  have hless : (chosen.filter fun c => Intact (compactAt after l) c) =
      (chosen.filter fun c => Intact after c).filter fun c => l.place ≠ c.place := by
    rw [List.filter_filter]
    apply List.filter_congr
    intro c hc
    rw [Bool.eq_iff_iff, Bool.and_eq_true, decide_eq_true_iff, decide_eq_true_iff, decide_eq_true_iff,
      intact_compactAt (hfull c hc), and_comm]
  unfold weigh
  rw [hless, Nat.add_le_add_iff_left]
  constructor
  · intro hle c hc hintact
    have hall := (List.length_filter_eq_length_iff).mp (le_antisymm (List.length_filter_le _ _) hle)
    exact of_decide_eq_true (hall c (List.mem_filter.mpr ⟨hc, decide_eq_true hintact⟩))
  · intro hapart
    have hall : (chosen.filter fun c => Intact after c).filter (fun c => l.place ≠ c.place) =
        chosen.filter fun c => Intact after c := by
      rw [List.filter_eq_self]
      intro c hc
      obtain ⟨hc, hintact⟩ := List.mem_filter.mp hc
      exact decide_eq_true (hapart c hc (of_decide_eq_true hintact))
    rw [hall]

theorem weigh_lasting (hfull : ∀ c ∈ chosen, isCompactedResult c.result = false) :
    Lasting b (weigh base chosen) messages := by
  intro after _ e _ l _ hle
  rw [weigh_le_iff hfull] at hle ⊢
  intro c hc hintact
  exact hle c hc ((intact_compactAt (hfull c hc)).mp hintact).1

theorem not_intact_compacted {l : Location} {ls : List Location} {after : List LLMMessage}
    (hfull : isCompactedResult l.result = false) (hgone : ¬ Intact after l) :
    ¬ Intact (compactedMessages b est overBudget ls after) l := by
  induction ls generalizing after with
  | nil => exact hgone
  | cons l' rest ih =>
    have hnext : ¬ Intact (compactAt after l') l := fun h => hgone ((intact_compactAt hfull).mp h).1
    unfold compactedMessages
    split
    · exact ih hgone
    · split
      · exact hnext
      · exact ih hnext

theorem weighed_gone {l : Location} {ls : List Location} {after : List LLMMessage} (hl : l ∈ ls)
    (hfull : isCompactedResult l.result = false) : ¬ Intact (compactedMessages b (weigh base [l]) false ls after) l := by
  have hweigh (after : List LLMMessage) (l' : Location) : weigh base [l] after ≤ weigh base [l] (compactAt after l') ↔
      ∀ c ∈ [l], Intact after c → l'.place ≠ c.place :=
    weigh_le_iff (by simpa using hfull) after l'
  induction ls generalizing after with
  | nil => cases hl
  | cons l' rest ih =>
    unfold compactedMessages
    by_cases hplace : l'.place = l.place
    · have hnext : ¬ Intact (compactAt after l') l := fun h => ((intact_compactAt hfull).mp h).2 hplace
      split
      · next hle =>
        exact not_intact_compacted hfull fun hintact =>
          (hweigh after l').mp hle l (List.mem_singleton_self l) hintact hplace
      · rw [if_neg (fun h => by cases h.1)]
        exact not_intact_compacted hfull hnext
    · have hrest : l ∈ rest := (List.mem_cons.mp hl).resolve_left fun h => hplace (by rw [h])
      split
      · exact ih hrest
      · rw [if_neg (fun h => by cases h.1)]
        exact ih hrest

theorem first_weighed {d : Location} {before rest : List Location} {after : List LLMMessage}
    (hfull : ∀ c ∈ chosen, isCompactedResult c.result = false) (hd : d ∈ chosen) (hintact : Intact after d)
    (hbefore : ∀ l ∈ before, ∀ c ∈ chosen, l.place ≠ c.place) :
    (after, d) ∈ givenUp b (weigh base chosen) overBudget (before ++ d :: rest) after := by
  induction before with
  | nil =>
    rw [List.nil_append, givenUp, if_neg]
    · split <;> exact List.mem_cons_self ..
    · rw [weigh_le_iff hfull]
      exact fun h => h d hd hintact rfl
  | cons l before ih =>
    rw [List.cons_append, givenUp, if_pos]
    · exact ih fun l' hl' => hbefore l' (List.mem_cons_of_mem _ hl')
    · rw [weigh_le_iff hfull]
      exact fun c hc _ => hbefore l (List.mem_cons_self ..) c hc

theorem compactable_apart : (compactable b messages true).Pairwise fun l l' => l.place ≠ l'.place := by
  have hold : (old b messages).Pairwise fun l l' => l.place ≠ l'.place :=
    (locations_apart messages).sublist (List.take_sublist _ _)
  show (((old b messages).filter _) ++ ((old b messages).filter _)).Pairwise _
  rw [List.pairwise_append]
  refine ⟨hold.filter _, hold.filter _, ?_⟩
  intro l hl l' hl' hplace
  obtain ⟨hl, heph⟩ := List.mem_filter.mp hl
  obtain ⟨hl', hnot⟩ := List.mem_filter.mp hl'
  have heq := eq_of_place (mem_locations_iff.mp (mem_old hl)).1 (mem_locations_iff.mp (mem_old hl')).1 hplace
  rw [← heq, heph] at hnot
  exact nomatch hnot

theorem triedInOrder_of_cheapestFirst
    (h : ∀ est, Lasting b est messages → CheapestFirst b est messages (prepared b est messages)) :
    TriedInOrder b messages where
  pressure := by
    intro hratio l hold heph
    have hmem := mem_locations_iff.mp (mem_old hold)
    have hpos : 1 ≤ b.maxInputTokens := b.one_le_input
    have hestimate : weigh (b.maxInputTokens - 1) [l] messages = b.maxInputTokens := by
      have hone : [l].filter (fun c => Intact messages c) = [l] := by simp [hmem.1]
      rw [weigh, hone, List.length_singleton]
      omega
    have hpressed : ¬ Relaxed b (weigh (b.maxInputTokens - 1) [l]) messages := by
      intro hrelaxed
      have hle := hrelaxed.2
      rw [hestimate] at hle
      have hmax : (0 : ℚ≥0) < b.maxInputTokens := by exact_mod_cast hpos
      have hless : b.compactTriggerRatio * b.maxInputTokens < 1 * b.maxInputTokens :=
        mul_lt_mul_of_pos_right hratio hmax
      rw [one_mul] at hless
      exact absurd hle (not_le.mpr hless)
    have hgone : ¬ Intact (prepared b (weigh (b.maxInputTokens - 1) [l]) messages) l := by
      have hover : isOver b (weigh (b.maxInputTokens - 1) [l]) messages = false := by
        rw [isOver, hestimate]
        exact decide_eq_false (lt_irrefl _)
      rw [prepared, if_neg hpressed, hover]
      exact weighed_gone (mem_compactable.mpr ⟨hold, .inr heph⟩) hmem.2
    exact (h _ (weigh_lasting (by simpa using hmem.2))).pressure (le_of_eq hestimate) l (mem_old hold) hgone
  ceiling := by
    rw [List.pairwise_iff_forall_sublist]
    intro d e hsub heph
    obtain ⟨before, rest, hsplit, hd, he⟩ := List.cons_sublist_iff.mp hsub
    obtain ⟨p, q, rfl⟩ := List.append_of_mem hd
    have he : e ∈ rest := List.singleton_sublist.mp he
    have htried : compactable b messages true = p ++ d :: (q ++ rest) := by rw [hsplit]; simp
    have hmemOf : ∀ c ∈ compactable b messages true, Intact messages c ∧ isCompactedResult c.result = false :=
      fun c hc => mem_locations_iff.mp (mem_old (mem_compactable.mp hc).1)
    have hdmem := hmemOf d (by rw [htried]; simp)
    have hemem := hmemOf e (by rw [htried]; simp [he])
    have hfull : ∀ c ∈ [d, e], isCompactedResult c.result = false := by
      simp [hdmem.2, hemem.2]
    have hapart : (compactable b messages true).Pairwise fun l l' => l.place ≠ l'.place := compactable_apart
    rw [htried, List.pairwise_append] at hapart
    have hbefore : ∀ l ∈ p, ∀ c ∈ [d, e], l.place ≠ c.place := by
      intro l hl c hc
      apply hapart.2.2 l hl c
      cases List.mem_cons.mp hc with
      | inl hself => rw [hself]; exact List.mem_cons_self ..
      | inr hother =>
        rw [List.mem_singleton.mp hother]
        exact List.mem_cons_of_mem _ (List.mem_append_right _ he)
    have hover : b.maxInputTokens < weigh b.maxInputTokens [d, e] messages := by
      have htwo : [d, e].filter (fun c => Intact messages c) = [d, e] := by simp [hdmem.1, hemem.1]
      rw [weigh, htwo]
      exact Nat.lt_add_of_pos_right (Nat.zero_lt_succ _)
    have hlaw := (h _ (weigh_lasting hfull)).ceiling hover
    rw [htried] at hlaw
    by_contra hdiagnostic
    have hle := hlaw (messages, d) (first_weighed hfull (by simp) hdmem.1 hbefore)
      (Bool.eq_false_iff.mpr hdiagnostic) e (mem_compactable.mp (by rw [htried]; simp [he])).1 heph hemem.1
    exact (weigh_le_iff hfull _ _).mp hle e (by simp) hemem.1 rfl

end

/-- Compaction gives up the cheapest results first, for every estimator that lasts, if and only if the order in which
it tries the old results has no diagnostic one before an ephemeral one; the estimator that is shipped lasts where no old
result is one to three characters longer than what replaces it; and what compaction leaves is what the runtime leaves
when it is answered by the estimator. -/
theorem cheapestFirst_iff (b : NativeToolAgentBackend) (messages : List LLMMessage) :
    ((∀ est, Lasting b est messages → CheapestFirst b est messages (prepared b est messages)) ↔
      TriedInOrder b messages) ∧
    (TriedInOrder b messages → Coarse b messages → ∀ dumps toolCharacters,
      CheapestFirst b (estimateTokens dumps toolCharacters) messages
        (prepared b (estimateTokens dumps toolCharacters) messages)) ∧
      ∀ est env (w : World), Estimates b est env w → w.session.messages = messages →
        (prepareContext b env w).2.session.messages = prepared b est messages := by
  refine ⟨⟨triedInOrder_of_cheapestFirst, fun h est hlasting => h.cheapestFirst hlasting⟩, ?_, ?_⟩
  · intro h hcoarse dumps toolCharacters
    exact h.cheapestFirst (estimateTokens_lasting hcoarse)
  · intro est env w hest hmessages
    rw [prepareContext_messages hest, hmessages]

theorem compactedToolContent_eq (isError : Bool) :
    compactedToolContent isError = Json.compact (.object [("compacted".toList, .bool true),
      ("message".toList, .string "older tool result removed".toList), ("ok".toList, .bool !isError)]) := by
  unfold compactedToolContent Json.dumpsCompact
  rw [Json.sorted_object_eq, Json.arranged_eq]
  · exact (List.Perm.swap _ _ _).trans ((List.Perm.swap _ _ _).cons _)
  · have hkeys : ["compacted".toList, "message".toList, "ok".toList].Pairwise fun k k' : Text => k < k' := by
      decide
    exact List.pairwise_map.mp hkeys

def checkAndBash : NativeToolAgentBackend where
  model := "m".toList
  tools := [⟨"check".toList, false⟩, ⟨"bash".toList, true⟩]
  maxInputTokens := 120
  recentToolResultsToKeep := 1
  model_nonblank := oneTool.model_nonblank
  names_nodup := by decide
  one_le_input := by decide
  one_le_parallel := oneTool.one_le_parallel
  ratio_pos := oneTool.ratio_pos
  ratio_le := oneTool.ratio_le

def checkResult : LLMToolResult := ⟨"c1".toList, List.replicate 110 'x', false⟩

def bashResult : LLMToolResult := ⟨"c1".toList, ['y'], false⟩

/-- Two exchanges; the second calls bash under the id that the first called check under. -/
def calledTwice : List LLMMessage :=
  [.system ['s'], .user ['u'], .assistant [] [⟨"c1".toList, "check".toList, []⟩], .tool [checkResult],
    .assistant [] [⟨"c1".toList, "bash".toList, []⟩], .tool [bashResult]]

def resultChars (messages : List LLMMessage) : ℕ :=
  ((messages.flatMap LLMMessage.toolResults).map (·.content.length)).sum

theorem compactedToolContent_length : (compactedToolContent false).length = 66 := by
  rw [compactedToolContent_eq]
  decide

theorem full_of_length {r : LLMToolResult} (herror : r.isError = false) (h : r.content.length ≠ 66) :
    isCompactedResult r = false := by
  apply decide_eq_false
  rw [herror]
  intro heq
  rw [heq, compactedToolContent_length] at h
  exact h rfl

theorem locations_calledTwice : locations calledTwice = [⟨3, 0, checkResult⟩, ⟨5, 0, bashResult⟩] := by
  have hcheck : isCompactedResult checkResult = false := full_of_length rfl (by decide)
  have hbash : isCompactedResult bashResult = false := full_of_length rfl (by decide)
  simp [locations, calledTwice, List.zipIdx, LLMMessage.toolResults, hcheck, hbash]

def checked : Location := ⟨3, 0, checkResult⟩

theorem old_calledTwice : old checkAndBash calledTwice = [checked] := by
  rw [old, locations_calledTwice]
  rfl

theorem prepared_calledTwice : prepared checkAndBash resultChars calledTwice = compactAt calledTwice checked := by
  have hpressed : ¬ Relaxed checkAndBash resultChars calledTwice := by decide +kernel
  have hover : isOver checkAndBash resultChars calledTwice = false := by decide
  have htried : compactable checkAndBash calledTwice false = [checked] := by
    have heph : isEphemeral checkAndBash calledTwice checked = true := by decide
    show (old checkAndBash calledTwice).filter (isEphemeral checkAndBash calledTwice) = _
    rw [old_calledTwice, List.filter_cons_of_pos heph, List.filter_nil]
  have hless : ¬ resultChars calledTwice ≤ resultChars (compactAt calledTwice checked) := by
    show ¬ 111 ≤ (compactedToolContent false).length + ((['y'].length) + 0)
    rw [compactedToolContent_length]
    decide
  rw [prepared, if_neg hpressed, hover, htried, compactedMessages, if_neg hless, if_neg (fun h => by cases h.1), compactedMessages]

theorem diagnostic_given_up :
    ¬ CheapestFirst checkAndBash resultChars calledTwice (prepared checkAndBash resultChars calledTwice) := by
  intro h
  have hmem : checked ∈ locations calledTwice := by
    apply mem_old
    rw [old_calledTwice]
    exact List.mem_cons_self ..
  have hgone : ¬ Intact (prepared checkAndBash resultChars calledTwice) checked := by
    rw [prepared_calledTwice, intact_compactAt (mem_locations_iff.mp hmem).2]
    exact fun hintact => hintact.2 rfl
  exact absurd (h.pressure (by decide) checked hmem hgone) (by decide)

end EvoHarness.Core.Agent
