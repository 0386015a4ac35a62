import EvoHarness.Core.Agent.Estimate
import EvoHarness.Core.Agent.History

/-! Compaction under an estimator that is a function of the messages: which results it gives up and
in what order, and how much of the window it leaves. -/
namespace EvoHarness.Core.Agent
open PyText Hoare

section
variable (b : NativeToolAgentBackend) (est : List LLMMessage → ℕ) (env : ℕ → Reply)

def givenUp (overBudget : Bool) : List Location → List LLMMessage → List (List LLMMessage × Location)
  | [], _ => []
  | l :: rest, messages =>
    if est messages ≤ est (compactAt messages l) then givenUp overBudget rest messages
    else if overBudget = true ∧ est (compactAt messages l) ≤ b.maxInputTokens then [(messages, l)]
    else (messages, l) :: givenUp overBudget rest (compactAt messages l)

def compactedMessages (overBudget : Bool) : List Location → List LLMMessage → List LLMMessage
  | [], messages => messages
  | l :: rest, messages =>
    if est messages ≤ est (compactAt messages l) then compactedMessages overBudget rest messages
    else if overBudget = true ∧ est (compactAt messages l) ≤ b.maxInputTokens then compactAt messages l
    else compactedMessages overBudget rest (compactAt messages l)

/-- The replies from `i` on are what `est` says of each trial. -/
def EstimatesFrom (overBudget : Bool) : List Location → List LLMMessage → ℕ → Prop
  | [], _, _ => True
  | l :: rest, messages, i =>
    (env i).estimate = .ok (est (compactAt messages l)) ∧
      if est messages ≤ est (compactAt messages l) then EstimatesFrom overBudget rest messages (i + 1)
      else if overBudget = true ∧ est (compactAt messages l) ≤ b.maxInputTokens then True
      else EstimatesFrom overBudget rest (compactAt messages l) (i + 1)

def Relaxed (messages : List LLMMessage) : Prop :=
  est messages ≤ b.maxInputTokens ∧ (est messages : ℚ≥0) ≤ b.compactTriggerRatio * b.maxInputTokens

instance (messages : List LLMMessage) : Decidable (Relaxed b est messages) := inferInstanceAs (Decidable (_ ∧ _))

def isOver (messages : List LLMMessage) : Bool := decide (b.maxInputTokens < est messages)

def prepared (messages : List LLMMessage) : List LLMMessage :=
  if Relaxed b est messages then messages
  else compactedMessages b est (isOver b est messages) (compactable b messages (isOver b est messages)) messages

/-- In this world `_prepare_context` is answered by `est`. -/
def Estimates (w : World) : Prop :=
  (env w.asked).estimate = .ok (est w.session.messages) ∧
    (¬ Relaxed b est w.session.messages →
      EstimatesFrom b est env (isOver b est w.session.messages)
        (compactable b w.session.messages (isOver b est w.session.messages)) w.session.messages (w.asked + 1))

variable {b est env}

theorem compacted_eq_self {overBudget : Bool} {ls : List Location} {messages : List LLMMessage}
    (h : givenUp b est overBudget ls messages = []) : compactedMessages b est overBudget ls messages = messages := by
  induction ls with
  | nil => rfl
  | cons l rest ih =>
    unfold givenUp at h
    unfold compactedMessages
    split at h
    · next hle => rw [if_pos hle, ih h]
    · split at h
      · exact nomatch h
      · exact nomatch h

theorem estimateInputTokens_run {w : World} {n : ℕ} (h : (env w.asked).estimate = .ok (n : ℤ)) :
    estimateInputTokens env w = (.ok n, { w with asked := w.asked + 1 }) := by
  unfold estimateInputTokens
  rw [Prog.bind_ok (show consult env w = (.ok (env w.asked), { w with asked := w.asked + 1 }) from rfl)]
  rw [h]
  show (if (n : ℤ) < 0 then _ else _ : Prog World Fault ℕ) _ = _
  rw [if_neg (by omega)]
  rfl

/-- The loop gives up what `givenUp` says and leaves what `compactedMessages` says. -/
theorem compactFrom_eq {overBudget : Bool} {ls : List Location} {c : Compaction} {w : World}
    (hc : c.estimated = est w.session.messages) (h : EstimatesFrom b est env overBudget ls w.session.messages w.asked) :
    ∃ w', compactFrom b env overBudget ls c w =
        (.ok ⟨c.callIds ++ (givenUp b est overBudget ls w.session.messages).map (·.2.result.callId),
          est (compactedMessages b est overBudget ls w.session.messages)⟩, w') ∧
      w'.session.messages = compactedMessages b est overBudget ls w.session.messages := by
  induction ls generalizing c w with
  | nil =>
    refine ⟨w, ?_, rfl⟩
    rw [compactFrom, givenUp, compactedMessages, List.map_nil, List.append_nil, ← hc]
    rfl
  | cons l rest ih =>
    obtain ⟨hreply, hrest⟩ := h
    unfold compactFrom givenUp compactedMessages
    rw [Prog.bind_ok (Prog.get_run (w := w))]
    have hset : changeSession (fun s => s.withMessages true (compactAt s.messages l)) w =
        (.ok (), { w with session := w.session.withMessages true (compactAt w.session.messages l) }) := rfl
    have hask : estimateInputTokens env { w with session := w.session.withMessages true (compactAt w.session.messages l) } =
        (.ok (est (compactAt w.session.messages l)), { w with
          asked := w.asked + 1
          session := w.session.withMessages true (compactAt w.session.messages l) }) := estimateInputTokens_run hreply
    rw [Prog.bind_ok hset, Prog.bind_ok hask, hc]
    by_cases hle : est w.session.messages ≤ est (compactAt w.session.messages l)
    · simp only [if_pos hle] at hrest ⊢
      rw [Prog.bind_ok (show changeSession (fun s => s.withMessages true w.session.messages) _ = (.ok (), _) from rfl)]
      exact ih (w := { w with
        asked := w.asked + 1
        session := (w.session.withMessages true (compactAt w.session.messages l)).withMessages true w.session.messages })
        hc hrest
    · simp only [if_neg hle] at hrest ⊢
      by_cases hstop : overBudget = true ∧ est (compactAt w.session.messages l) ≤ b.maxInputTokens
      · simp only [if_pos hstop]
        exact ⟨_, rfl, rfl⟩
      · simp only [if_neg hstop] at hrest ⊢
        obtain ⟨w', hrun, hmessages⟩ := ih (c := ⟨c.callIds ++ [l.result.callId], est (compactAt w.session.messages l)⟩)
          (w := { w with
            asked := w.asked + 1
            session := w.session.withMessages true (compactAt w.session.messages l) }) rfl hrest
        refine ⟨w', hrun.trans ?_, hmessages⟩
        rw [List.map_cons, List.append_assoc]
        rfl

def Still {α : Type} (m : Prog World Fault α) : Prop := Prog.Moves (fun w w' => w'.session.messages = w.session.messages) m

theorem Still.bind {α β : Type} {m : Prog World Fault α} {f : α → Prog World Fault β} (hm : Still m)
    (hf : ∀ a, Still (f a)) : Still (m >>= f) :=
  Prog.Moves.bind (fun _ _ _ h h' => h'.trans h) hm hf

theorem recordEvent_still (kind : AgentEventKind) (callId toolName : Option Text) (content : Text) :
    Still (recordEvent env kind callId toolName content) := by
  refine .bind (fun _ => rfl) fun _ => .bind (fun _ => rfl) fun w => ?_
  split
  · exact fun _ => rfl
  · refine .bind (fun _ => rfl) fun reply => ?_
    cases reply.emitError with
    | none => exact fun _ => rfl
    | some described => exact fun _ => rfl

theorem finishing_still (termination : AgentTermination) (finalMessage model : Text) :
    Still (finishing env termination finalMessage model) := by
  refine .bind (.bind (.bind (fun _ => rfl) fun w => ?_) fun u => .bind (fun _ => rfl) fun before =>
    .bind (recordEvent_still _ _ _ _) fun _ => .bind (fun _ => rfl) fun w => ?_) fun r => fun _ => rfl
  · cases w.session.usageSnapshot.deltaFrom w.run.usageBefore <;> exact fun _ => rfl
  · split
    · exact .bind (fun _ => rfl) fun _ => .bind (fun _ => rfl) fun _ => fun _ => rfl
    · exact fun _ => rfl

theorem finishing_ne_none (termination : AgentTermination) (finalMessage model : Text) (w : World) :
    (finishing env termination finalMessage model w).1 ≠ .ok none := by
  intro h
  have hrun : finishing env termination finalMessage model w =
      (.ok none, (finishing env termination finalMessage model w).2) := Prod.ext h rfl
  obtain ⟨r, w', _, hpure⟩ := Prog.bind_returns hrun
  exact nomatch congrArg Prod.fst hpure

theorem orSinkError_still (model : Text) {next : Prog World Fault (Option AgentSessionResult)} (h : Still next) :
    Still (orSinkError env model next) := by
  refine .bind (fun _ => rfl) fun w => ?_
  cases w.run.sinkError with
  | some error => exact finishing_still _ _ _
  | none => exact h

theorem afterCompaction_still (overBudget : Bool) (before : ℕ) (c : Compaction) :
    Still (afterCompaction b env overBudget before c) := by
  unfold afterCompaction
  split
  · exact fun _ => rfl
  · split
    · exact finishing_still _ _ _
    · refine .bind (recordEvent_still _ _ _ _) fun _ => orSinkError_still _ ?_
      split
      · exact finishing_still _ _ _
      · exact fun _ => rfl

theorem afterCompaction_none {overBudget : Bool} {before : ℕ} {c : Compaction} {v v' : World}
    (h : afterCompaction b env overBudget before c v = (.ok none, v')) :
    (c.callIds = [] ∧ overBudget = false) ∨ c.estimated ≤ b.maxInputTokens := by
  unfold afterCompaction at h
  split at h
  · next hnothing => exact .inl hnothing
  · split at h
    · exact absurd (congrArg Prod.fst h) (finishing_ne_none _ _ _ _)
    · obtain ⟨_, u, _, hrest⟩ := Prog.bind_returns h
      obtain ⟨u', _, hget, hrest⟩ := Prog.bind_returns hrest
      right
      by_contra hover
      cases hs : u'.run.sinkError with
      | some error =>
        rw [hs] at hrest
        exact absurd (congrArg Prod.fst hrest) (finishing_ne_none _ _ _ _)
      | none =>
        rw [hs] at hrest
        dsimp only at hrest
        rw [if_pos (not_le.mp hover)] at hrest
        exact absurd (congrArg Prod.fst hrest) (finishing_ne_none _ _ _ _)

theorem compactContext_eq {overBudget : Bool} {w : World} (hover : overBudget = isOver b est w.session.messages)
    (h : EstimatesFrom b est env overBudget (compactable b w.session.messages overBudget) w.session.messages w.asked) :
    ∃ (w' : World) (m : Prog World Fault (Option AgentSessionResult)),
      w'.session.messages = compactedMessages b est overBudget (compactable b w.session.messages overBudget) w.session.messages ∧
        compactContext b env overBudget (est w.session.messages) w = m w' ∧ Still m ∧
        ∀ v v', m v = (.ok none, v') →
          est (compactedMessages b est overBudget (compactable b w.session.messages overBudget) w.session.messages) ≤
            b.maxInputTokens := by
  have hunder : overBudget = false → est w.session.messages ≤ b.maxInputTokens := by
    intro hfalse
    rw [hfalse, isOver] at hover
    exact not_lt.mp (of_decide_eq_false hover.symm)
  unfold compactContext
  rw [Prog.bind_ok (Prog.get_run (w := w))]
  by_cases hnil : compactable b w.session.messages overBudget = []
  · rw [hnil]
    cases overBudget with
    | false => exact ⟨w, pure none, rfl, rfl, fun _ => rfl, fun _ _ _ => hunder rfl⟩
    | true =>
      exact ⟨w, _, rfl, rfl, finishing_still _ _ _, fun _ _ hnone =>
        absurd (congrArg Prod.fst hnone) (finishing_ne_none _ _ _ _)⟩
  · rw [if_neg (fun hboth => hnil hboth.2), if_neg hnil]
    obtain ⟨w', hrun, hmessages⟩ := compactFrom_eq (c := { estimated := est w.session.messages }) rfl h
    rw [Prog.bind_ok hrun]
    refine ⟨w', _, hmessages, rfl, afterCompaction_still _ _ _, fun v v' hnone => ?_⟩
    cases afterCompaction_none hnone with
    | inl hnothing =>
      obtain ⟨hids, hfalse⟩ := hnothing
      rw [List.nil_append, List.map_eq_nil_iff] at hids
      rw [compacted_eq_self hids]
      exact hunder hfalse
    | inr hle => exact hle

/-- `_prepare_context` leaves the conversation as `prepared` says, and what it does then changes no message and
lets the run go on only if the estimate is within the ceiling. -/
theorem prepareContext_eq {w : World} (h : Estimates b est env w) :
    ∃ (w' : World) (m : Prog World Fault (Option AgentSessionResult)),
      w'.session.messages = prepared b est w.session.messages ∧ prepareContext b env w = m w' ∧ Still m ∧
        ∀ v v', m v = (.ok none, v') → est (prepared b est w.session.messages) ≤ b.maxInputTokens := by
  obtain ⟨hreply, hrest⟩ := h
  unfold prepareContext prepared
  rw [Prog.bind_ok (estimateInputTokens_run hreply)]
  by_cases hrelaxed : Relaxed b est w.session.messages
  · have hboth : est w.session.messages ≤ b.maxInputTokens ∧
        (est w.session.messages : ℚ≥0) ≤ b.compactTriggerRatio * b.maxInputTokens := hrelaxed
    rw [if_pos hrelaxed, if_pos hboth]
    exact ⟨{ w with asked := w.asked + 1 }, pure none, rfl, rfl, fun _ => rfl, fun _ _ _ => hboth.1⟩
  · have hboth : ¬ (est w.session.messages ≤ b.maxInputTokens ∧
        (est w.session.messages : ℚ≥0) ≤ b.compactTriggerRatio * b.maxInputTokens) := hrelaxed
    rw [if_neg hrelaxed, if_neg hboth]
    exact compactContext_eq (w := { w with asked := w.asked + 1 }) rfl (hrest hrelaxed)

theorem prepareContext_messages {w : World} (h : Estimates b est env w) :
    (prepareContext b env w).2.session.messages = prepared b est w.session.messages := by
  obtain ⟨w', m, hmessages, hrun, hstill, _⟩ := prepareContext_eq h
  rw [hrun, hstill w', hmessages]

theorem prepareContext_fits {w w' : World} (h : Estimates b est env w) (hnone : prepareContext b env w = (.ok none, w')) :
    est w'.session.messages ≤ b.maxInputTokens := by
  have hmessages := prepareContext_messages h
  rw [hnone] at hmessages
  obtain ⟨v, m, _, hrun, _, hfits⟩ := prepareContext_eq h
  rw [hmessages]
  exact hfits v w' (hrun.symm.trans hnone)

variable {limits : AgentSessionLimits}

theorem admission_none {w w' : World} (h : admission b env limits w = (.ok none, w')) :
    prepareContext b env (clock env w).2 = (.ok none, w') := by
  have hadmit : admitModelQuery b env limits w = (.ok none, w') := by
    unfold admission Prog.rescue at h
    cases hm : admitModelQuery b env limits w with
    | mk r v =>
      rw [hm] at h
      cases r with
      | ok o => exact h
      | error e =>
        cases e with
        | billing m => exact nomatch congrArg Prod.fst h
        | value m => exact absurd (congrArg Prod.fst h) (finishing_ne_none _ _ _ _)
        | runtime m => exact absurd (congrArg Prod.fst h) (finishing_ne_none _ _ _ _)
        | other d => exact absurd (congrArg Prod.fst h) (finishing_ne_none _ _ _ _)
  obtain ⟨u, v, husage, hrest⟩ := Prog.bind_returns hadmit
  have hv : v = w := by
    unfold usage at husage
    rw [Prog.bind_ok (Prog.get_run (w := w))] at husage
    cases hd : w.session.usageSnapshot.deltaFrom w.run.usageBefore with
    | error e =>
      rw [hd] at husage
      exact nomatch congrArg Prod.fst husage
    | ok u =>
      rw [hd] at husage
      exact (congrArg Prod.snd husage).symm
  subst hv
  rw [Prog.bind_ok (Prog.get_run (w := v)),
    Prog.bind_ok (show clock env v = (.ok (clock env v).2.now, (clock env v).2) from rfl)] at hrest
  split at hrest
  · exact absurd (congrArg Prod.fst hrest) (finishing_ne_none _ _ _ _)
  · split at hrest
    · exact absurd (congrArg Prod.fst hrest) (finishing_ne_none _ _ _ _)
    · split at hrest
      · exact absurd (congrArg Prod.fst hrest) (finishing_ne_none _ _ _ _)
      · exact hrest

theorem mem_roundsAsked {fuel : ℕ} {w : World} {a : Asked} (h : a ∈ roundsAsked b env limits fuel w) :
    a ∈ turnAsked b env limits a.start := by
  induction fuel generalizing w with
  | zero => simp [roundsAsked] at h
  | succ n ih =>
    rw [roundsAsked] at h
    cases List.mem_append.mp h with
    | inl hnow =>
      obtain ⟨w', _, heq⟩ := mem_turnAsked hnow
      rw [show a.start = w by rw [heq]]
      exact hnow
    | inr hlater =>
      split at hlater
      · exact ih hlater
      · simp at hlater

theorem Host.mem_queries {host : Host} {request : AgentSessionRequest} {fuel : ℕ} {a : Asked}
    (h : a ∈ host.queries b env request fuel) : a ∈ turnAsked b env request.limits a.start := by
  unfold Host.queries sessionAsked at h
  split at h
  · simp at h
  · split at h
    · split at h
      · exact mem_roundsAsked h
      · simp at h
    · simp at h

theorem query_context_fits {w : World} {a : Asked} (ha : a ∈ turnAsked b env limits w)
    (hest : Estimates b est env (clock env w).2) : est a.world.session.messages ≤ b.maxInputTokens := by
  obtain ⟨w', hadmit, rfl⟩ := mem_turnAsked ha
  have hfits := prepareContext_fits hest (admission_none hadmit)
  exact hfits

variable (est) in
/-- A message more costs the estimate at most this. -/
def CostsAtMost (cost : LLMMessage → ℕ) : Prop := ∀ messages m, est (messages ++ [m]) ≤ est messages + cost m

variable (est) in
/-- A message more costs the estimate at least this. -/
def CostsAtLeast (cost : LLMMessage → ℕ) : Prop := ∀ messages m, est messages + cost m ≤ est (messages ++ [m])

end

/-- At every query of every run the admitted context is within the ceiling. What is sent is so where what the budget note
costs fits above the context, and is not where a note of at least that cost does not; by the estimator that is shipped
it is so exactly where the characters of the context, of the tools and of the note, which its numbers give, fit. -/
theorem query_fits_iff (b : NativeToolAgentBackend) (env : ℕ → Reply) (est : List LLMMessage → ℕ) (whole : ℚ≥0 → Text)
    (host : Host) (request : AgentSessionRequest) (fuel : ℕ) (a : Asked) (ha : a ∈ host.queries b env request fuel)
    (hest : Estimates b est env (clock env a.start).2) :
    est a.world.session.messages ≤ b.maxInputTokens ∧
      (∀ cost, CostsAtMost est cost →
        est a.world.session.messages + cost (.user ((budgetNote request.limits a.world).text whole)) ≤ b.maxInputTokens →
          est (messagesWithBudget whole request.limits a.world) ≤ b.maxInputTokens) ∧
      (∀ cost, CostsAtLeast est cost → est (messagesWithBudget whole request.limits a.world) ≤ b.maxInputTokens →
        est a.world.session.messages + cost (.user ((budgetNote request.limits a.world).text whole)) ≤ b.maxInputTokens) ∧
      ∀ dumps toolCharacters, est = estimateTokens dumps toolCharacters →
        (est (messagesWithBudget whole request.limits a.world) ≤ b.maxInputTokens ↔
          characters dumps a.world.session.messages + toolCharacters +
            (budgetNote request.limits a.world).characters whole ≤ 4 * b.maxInputTokens) := by
  refine ⟨query_context_fits (Host.mem_queries ha) hest, fun cost hcost hroom => ?_, fun cost hcost hfits => ?_,
    fun dumps toolCharacters hshipped => ?_⟩
  · exact (hcost _ _).trans hroom
  · exact (hcost _ _).trans hfits
  · rw [hshipped, sent_fits_iff]

def window (n : ℕ) (hn : 1 ≤ n) : NativeToolAgentBackend where
  model := "m".toList
  tools := [⟨"bash".toList, true⟩]
  maxInputTokens := n
  model_nonblank := oneTool.model_nonblank
  names_nodup := oneTool.names_nodup
  one_le_input := hn
  one_le_parallel := oneTool.one_le_parallel
  ratio_pos := oneTool.ratio_pos
  ratio_le := oneTool.ratio_le

/-- Every response is final, and a conversation of two messages is estimated at two. -/
def twoMessages (_ : ℕ) : Reply := { freshId := "s".toList, estimate := .ok 2, answer := .response done }

/-- The lengths of the conversations of a query, and how many results there are to compact. -/
def sizes (a : Asked) : ℕ × ℕ × ℕ :=
  (a.start.session.messages.length, (locations a.start.session.messages).length, a.world.session.messages.length)

theorem twoMessages_estimates {n : ℕ} {hn : 1 ≤ n} {a : Asked} (h : sizes a = (2, 0, 2)) :
    Estimates (window n hn) List.length twoMessages (clock twoMessages a.start).2 := by
  simp only [sizes, Prod.mk.injEq, List.length_eq_zero_iff] at h
  obtain ⟨hlength, hnone, _⟩ := h
  constructor
  · show Except.ok (2 : ℤ) = Except.ok ((a.start.session.messages.length : ℕ) : ℤ)
    rw [hlength]
    rfl
  · intro _
    have hcompactable : ∀ overBudget, compactable (window n hn) a.start.session.messages overBudget = [] := by
      intro overBudget
      cases overBudget <;> simp [compactable, hnone]
    show EstimatesFrom _ _ _ _ (compactable (window n hn) a.start.session.messages _) _ _
    rw [hcompactable]
    trivial

theorem query_fits_three :
    ∃ a ∈ Host.queries (window 3 (by decide)) twoMessages {} enough 1,
      a.world.session.messages.length = 2 ∧ (messagesWithBudget (fun _ => []) enough.limits a.world).length ≤ 3 := by
  have hsizes : (Host.queries (window 3 (by decide)) twoMessages {} enough 1).map sizes = [(2, 0, 2)] := by decide +kernel
  have hmem : (2, 0, 2) ∈ (Host.queries (window 3 (by decide)) twoMessages {} enough 1).map sizes := by
    rw [hsizes]
    exact List.mem_cons_self ..
  obtain ⟨a, ha, hsize⟩ := List.mem_map.mp hmem
  have htwo : a.world.session.messages.length = 2 := congrArg (fun s => s.2.2) hsize
  have hone : CostsAtMost List.length fun _ => 1 := fun messages m => by rw [List.length_append, List.length_singleton]
  refine ⟨a, ha, htwo, ?_⟩
  exact (query_fits_iff (window 3 (by decide)) twoMessages List.length (fun _ => []) {} enough 1 a ha
    (twoMessages_estimates hsize)).2.1 _ hone (by rw [htwo]; exact le_refl 3)

/-- A context that fills the window exactly is let through, and a third message is sent. The estimate is the number
of messages. -/
theorem note_overflows :
    ∃ a ∈ Host.queries (window 2 (by decide)) twoMessages {} enough 1,
      Estimates (window 2 (by decide)) List.length twoMessages (clock twoMessages a.start).2 ∧
        ¬ (messagesWithBudget (fun _ => []) enough.limits a.world).length ≤ (window 2 (by decide)).maxInputTokens := by
  have hsizes : (Host.queries (window 2 (by decide)) twoMessages {} enough 1).map sizes = [(2, 0, 2)] := by decide +kernel
  have hmem : (2, 0, 2) ∈ (Host.queries (window 2 (by decide)) twoMessages {} enough 1).map sizes := by
    rw [hsizes]
    exact List.mem_cons_self ..
  obtain ⟨a, ha, hsize⟩ := List.mem_map.mp hmem
  refine ⟨a, ha, twoMessages_estimates hsize, ?_⟩
  simp only [sizes, Prod.mk.injEq] at hsize
  rw [messagesWithBudget, List.length_append, hsize.2.2]
  show ¬ 2 + 1 ≤ 2
  decide

end EvoHarness.Core.Agent
