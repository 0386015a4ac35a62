import EvoHarness.Core.Llm.Parsers

/-! Which answers of an endpoint raise an error that is not declared. -/
namespace EvoHarness.Core.Llm.Parsers
open PyText PyData Hoare Traversal
open Agent (LLMStopReason)

def Declared {α : Type} (r : Except ParseError α) : Prop := ∀ e, r = .error e → e.declared = true

theorem declared_ok {α : Type} (a : α) : Declared (.ok a) := fun _ h => nomatch h

theorem declared_error_iff {α : Type} {e : ParseError} : Declared (.error e : Except ParseError α) ↔ e.declared = true :=
  ⟨fun h => h e rfl, fun h e' he => by cases he; exact h⟩

theorem declared_bind_iff {α β : Type} {x : Except ParseError α} {f : α → Except ParseError β} :
    Declared (x >>= f) ↔ Declared x ∧ ∀ a, x = .ok a → Declared (f a) := by
  cases x with
  | error e =>
    refine Iff.trans ?_ (and_iff_left fun a h => nomatch h).symm
    exact declared_error_iff.trans declared_error_iff.symm
  | ok a =>
    refine Iff.trans ?_ (and_iff_right (declared_ok a)).symm
    exact ⟨fun h b hb => by cases hb; exact h, fun h => h a rfl⟩

variable {py : Builtins}

def callRefused (py : Builtins) (callId name arguments : Data) : Bool :=
  match arguments with
  | .string t =>
    match py.loads t with
    | .ok x => !(LLMToolCall.make callId name x).isOk
    | .error (.valueError _) => true
    | .error .recursionError => false
  | _ => true

def TooDeep (py : Builtins) (arguments : Data) : Prop := ∃ t, arguments = .string t ∧ py.loads t = .error .recursionError

theorem make_call_cases (callId name arguments : Data) :
    (∃ message, LLMToolCall.make callId name arguments = .error (.valueError message)) ∨
    ∃ call, LLMToolCall.make callId name arguments = .ok call ∧ callId = .string call.callId := by
  unfold LLMToolCall.make
  split
  · split
    · exact .inl ⟨_, rfl⟩
    · split
      · split
        · exact .inl ⟨_, rfl⟩
        · split
          · exact .inr ⟨_, rfl, rfl⟩
          · exact .inl ⟨_, rfl⟩
      · exact .inl ⟨_, rfl⟩
  · exact .inl ⟨_, rfl⟩

theorem toolCall_cases (py : Builtins) (callId name arguments : Data) :
    (callRefused py callId name arguments = true ∧ ¬TooDeep py arguments ∧
      ∃ message, toolCall py callId name arguments = .error (.valueError message)) ∨
    (callRefused py callId name arguments = false ∧ TooDeep py arguments ∧
      toolCall py callId name arguments = .error .recursionError) ∨
    (callRefused py callId name arguments = false ∧ ¬TooDeep py arguments ∧
      ∃ call, toolCall py callId name arguments = .ok call ∧ callId = .string call.callId) := by
  cases arguments with
  | string t =>
    have hdeep : TooDeep py (.string t) ↔ py.loads t = .error .recursionError :=
      ⟨fun h => by obtain ⟨_, ht, h⟩ := h; cases ht; exact h, fun h => ⟨t, rfl, h⟩⟩
    rw [hdeep]
    cases hloads : py.loads t with
    | error fault =>
      cases fault with
      | valueError message =>
        have hcall : toolCall py callId name (.string t) = .error (.valueError message) := by
          rw [toolCall, loads, hloads]
          rfl
        exact .inl ⟨by rw [callRefused, hloads], (fun h => by cases h), message, hcall⟩
      | recursionError =>
        have hcall : toolCall py callId name (.string t) = .error .recursionError := by
          rw [toolCall, loads, hloads]
          rfl
        exact .inr (.inl ⟨by rw [callRefused, hloads], rfl, hcall⟩)
    | ok x =>
      have hcall : toolCall py callId name (.string t) = LLMToolCall.make callId name x := by
        rw [toolCall, loads, hloads]
        rfl
      have hrefused : callRefused py callId name (.string t) = !(LLMToolCall.make callId name x).isOk := by
        rw [callRefused, hloads]
      rw [hrefused, hcall]
      rcases make_call_cases callId name x with ⟨message, hmake⟩ | ⟨call, hmake, hid⟩
      · exact .inl ⟨by rw [hmake]; rfl, (fun h => by cases h), message, hmake⟩
      · exact .inr (.inr ⟨by rw [hmake]; rfl, (fun h => by cases h), call, hmake, hid⟩)
  | _ => exact .inl ⟨rfl, (fun h => by obtain ⟨_, h, _⟩ := h; cases h), _, rfl⟩

def itemRefused (py : Builtins) : Data → Bool
  | .object ps =>
    if isText "message".toList (get ps "type".toList) then false
    else if isText "function_call".toList (get ps "type".toList) then
      callRefused py (get ps "call_id".toList) (get ps "name".toList) (get ps "arguments".toList)
    else false
  | _ => true

/-- A message whose content is neither empty nor anything to go through, or a call whose arguments nest too deep. -/
def ItemEscapes (py : Builtins) : Data → Prop
  | .object ps =>
    if isText "message".toList (get ps "type".toList) then
      truthy (get ps "content".toList) = true ∧ iterate? (get ps "content".toList) = none
    else isText "function_call".toList (get ps "type".toList) = true ∧ TooDeep py (get ps "arguments".toList)
  | _ => False

def calledId : Data → Option Text
  | .object ps =>
    if isText "message".toList (get ps "type".toList) then none
    else if isText "function_call".toList (get ps "type".toList) then
      match get ps "call_id".toList with
      | .string id => some id
      | _ => none
    else none
  | _ => none

theorem atIndex_ok_iff {α : Type} {index : ℕ} {r : Except ParseError α} {a : α} : atIndex index r = .ok a ↔ r = .ok a := by
  unfold atIndex
  split
  · exact iff_of_false (fun h => nomatch h) fun h => nomatch h
  · exact Iff.rfl

theorem readItem_sorts : Sorts (readItem py) (fun e => e.declared = true) (itemRefused py) (ItemEscapes py) := by
  refine Sorts.of_cases fun i item => ?_
  cases item with
  | object ps =>
    rw [itemRefused, ItemEscapes, readItem]
    split
    · split
      · next htruthy =>
        cases hiterate : iterate? (get ps "content".toList) with
        | none => exact .inr (.inl ⟨rfl, ⟨htruthy, rfl⟩, _, rfl, by decide⟩)
        | some parts => exact .inr (.inr ⟨rfl, (fun h => by cases h.2), _, rfl⟩)
      · next htruthy => exact .inr (.inr ⟨rfl, fun h => htruthy h.1, _, rfl⟩)
    · split
      · next hcall =>
        rw [hcall]
        rcases toolCall_cases py (get ps "call_id".toList) (get ps "name".toList) (get ps "arguments".toList) with
          ⟨hrefused, hdeep, message, h⟩ | ⟨hrefused, hdeep, h⟩ | ⟨hrefused, hdeep, call, h, -⟩
        · exact .inl ⟨hrefused, fun h' => hdeep h'.2, _, by rw [h]; rfl, rfl⟩
        · exact .inr (.inl ⟨hrefused, ⟨rfl, hdeep⟩, _, by rw [h]; rfl, by decide⟩)
        · exact .inr (.inr ⟨hrefused, fun h' => hdeep h'.2, _, by rw [h]; rfl⟩)
      · next hcall => exact .inr (.inr ⟨rfl, fun h => hcall h.1, _, rfl⟩)
  | _ => exact .inl ⟨rfl, id, _, rfl, rfl⟩

theorem readItem_ids {i : ℕ} {item : Data} {c : Collected} (h : readItem py i item = .ok c) :
    c.calls.map (·.callId) = (calledId item).toList := by
  cases item with
  | object ps =>
    rw [readItem] at h
    rw [calledId]
    split at h
    · next hmessage =>
      rw [if_pos hmessage]
      split at h
      · split at h
        · cases h
          rfl
        · cases h
      · cases h
        rfl
    · next hmessage =>
      rw [if_neg hmessage]
      split at h
      · next hcall =>
        rw [if_pos hcall]
        obtain ⟨call, hread, hc⟩ := bind_ok_iff.mp h
        cases hc
        rw [atIndex_ok_iff] at hread
        rcases toolCall_cases py (get ps "call_id".toList) (get ps "name".toList) (get ps "arguments".toList) with
          ⟨-, -, message, h⟩ | ⟨-, -, h⟩ | ⟨-, -, call', h, hid⟩
        · rw [h] at hread
          cases hread
        · rw [h] at hread
          cases hread
        · rw [h] at hread
          cases hread
          rw [hid]
          rfl
      · next hcall =>
        rw [if_neg hcall]
        cases h
        rfl
  | _ => cases h

theorem gather_ids {items : List Data} {read : List Collected} (h : gather (readItem py) 0 items = .ok read) :
    (read.flatMap (·.calls)).map (·.callId) = items.filterMap calledId := by
  have hforall := gather_forall h
  clear h
  induction hforall with
  | nil => rfl
  | @cons item c items read hread _ ih =>
    obtain ⟨i, hi⟩ := hread
    rw [List.flatMap_cons, List.map_append, readItem_ids hi, ih, List.filterMap_cons]
    cases calledId item <;> rfl

/-- A response can be built of the counters, the model, the cost and the ids that were called. -/
structure Accountable (py : Builtins) (ps : List (Text × Data)) (ids : List Text) (requestedModel : Text)
    (cost : FloatValue) : Prop where
  named : strip (modelOf py ps requestedModel) ≠ []
  paid : cost.below 0 = false
  counted : ∃ prompt completion cached : ℤ,
    count py (get (members (get ps "usage".toList)) "input_tokens".toList) = .ok prompt ∧
    count py (get (members (get ps "usage".toList)) "output_tokens".toList) = .ok completion ∧
    count py (get (members (get (members (get ps "usage".toList)) "input_tokens_details".toList)) "cached_tokens".toList) =
      .ok cached ∧ 0 ≤ prompt ∧ 0 ≤ completion ∧ 0 ≤ cached ∧ cached ≤ prompt
  distinct : ids.Nodup
  whole : ids ≠ [] → cutOff ps = none

theorem count_undeclared {x : Data} {e : ParseError} (h : count py x = .error e) : e.declared = false := by
  unfold count at h
  split at h
  · split at h
    · exact nomatch h
    · exact nomatch h
    · exact nomatch h
    · cases h
      rfl
    · cases h
      rfl
    · split at h
      · exact nomatch h
      · cases h
        rfl
    · cases h
      rfl
  · exact nomatch h

variable {text model : Text} {cost : FloatValue} {prompt completion cached : ℤ} {calls : List LLMToolCall}
  {stop : LLMStopReason}

theorem make_error {e : ParseError} (h : LLMResponse.make text model cost prompt completion cached calls stop = .error e) :
    ∃ message, e = .valueError message := by
  unfold LLMResponse.make at h
  split at h
  · exact ⟨_, (Except.error.inj h).symm⟩
  · split at h
    · split at h
      · split at h
        · split at h
          · exact ⟨_, (Except.error.inj h).symm⟩
          · split at h
            · exact ⟨_, (Except.error.inj h).symm⟩
            · exact nomatch h
        · exact ⟨_, (Except.error.inj h).symm⟩
      · exact ⟨_, (Except.error.inj h).symm⟩
    · exact ⟨_, (Except.error.inj h).symm⟩

theorem make_ok_iff : (∃ r, LLMResponse.make text model cost prompt completion cached calls stop = .ok r) ↔
    strip model ≠ [] ∧ (cost.below 0 = false ∧ 0 ≤ prompt ∧ 0 ≤ completion ∧ 0 ≤ cached) ∧ cached ≤ prompt ∧
      (calls.map (·.callId)).Nodup ∧ (stop = .toolCalls ↔ calls ≠ []) := by
  constructor
  · rintro ⟨r, h⟩
    unfold LLMResponse.make at h
    split at h
    · exact nomatch h
    · next hmodel =>
      split at h
      · next haccounting =>
        split at h
        · next hcached =>
          split at h
          · next hids =>
            split at h
            · exact nomatch h
            · next hcalls =>
              split at h
              · exact nomatch h
              · next hstop =>
                exact ⟨hmodel, haccounting, hcached, hids, fun h hnil => hstop ⟨h, hnil⟩,
                  fun h => by_contra fun h' => hcalls ⟨h, h'⟩⟩
          · exact nomatch h
        · exact nomatch h
      · exact nomatch h
  · rintro ⟨hmodel, haccounting, hcached, hids, hcalls⟩
    unfold LLMResponse.make
    rw [dif_neg hmodel, dif_pos haccounting, dif_pos hcached, dif_pos hids, dif_neg fun h => h.2 (hcalls.mpr h.1),
      dif_neg fun h => hcalls.mp h.1 h.2]
    exact ⟨_, rfl⟩

theorem cutOff_ne {ps : List (Text × Data)} : cutOff ps ≠ some .toolCalls ∧ cutOff ps ≠ some .completed := by
  unfold cutOff
  split
  · dsimp only
    split
    · decide
    · split <;> decide
  · decide

/-- The stop reason goes with the calls unless the response was cut off while it called. -/
theorem stop_iff {ps : List (Text × Data)} {calls : List LLMToolCall} :
    ((cutOff ps).getD (if calls ≠ [] then .toolCalls else .completed) = .toolCalls ↔ calls ≠ []) ↔
      (calls ≠ [] → cutOff ps = none) := by
  cases hcut : cutOff ps with
  | none =>
    rw [Option.getD_none]
    by_cases hcalls : calls = [] <;> simp [hcalls]
  | some stop =>
    have hstop : stop ≠ .toolCalls := by
      rintro rfl
      exact cutOff_ne.1 hcut
    by_cases hcalls : calls = [] <;> simp [hcalls, hstop]

theorem finish_undeclared {ps : List (Text × Data)} {requestedModel : Text} {read : List Collected} {e : ParseError}
    (h : finish py ps requestedModel cost read = .error e) : e.declared = false := by
  have hbind : ∀ {α : Type} {x : Except ParseError ℤ} {f : ℤ → Except ParseError α},
      (∀ e, x = .error e → e.declared = false) → (∀ z e, f z = .error e → e.declared = false) →
      ∀ e, (x >>= f) = .error e → e.declared = false := by
    intro α x f hx hf e he
    cases x with
    | error e' =>
      cases he
      exact hx _ rfl
    | ok z => exact hf z e he
  unfold finish at h
  refine hbind (fun _ => count_undeclared) (fun _ => hbind (fun _ => count_undeclared) fun _ =>
    hbind (fun _ => count_undeclared) fun _ e he => ?_) e h
  obtain ⟨message, rfl⟩ := make_error he
  rfl

theorem finish_declared_iff {ps : List (Text × Data)} {requestedModel : Text} {read : List Collected} :
    Declared (finish py ps requestedModel cost read) ↔
      Accountable py ps ((read.flatMap (·.calls)).map (·.callId)) requestedModel cost := by
  have hdeclared : Declared (finish py ps requestedModel cost read) ↔ ∃ r, finish py ps requestedModel cost read = .ok r := by
    cases hfinish : finish py ps requestedModel cost read with
    | error e =>
      rw [declared_error_iff, finish_undeclared hfinish]
      exact iff_of_false (by decide) fun ⟨_, h⟩ => nomatch h
    | ok r => exact iff_of_true (declared_ok r) ⟨r, rfl⟩
  have hids : (read.flatMap (·.calls)).map (·.callId) ≠ [] ↔ read.flatMap (·.calls) ≠ [] :=
    not_congr List.map_eq_nil_iff
  rw [hdeclared]
  unfold finish
  constructor
  · rintro ⟨r, h⟩
    simp only [bind_ok_iff] at h
    obtain ⟨prompt, hprompt, completion, hcompletion, cached, hcached, hmake⟩ := h
    obtain ⟨hmodel, ⟨hcost, hprompt', hcompletion', hcached'⟩, hle, hnodup, hcalls⟩ := make_ok_iff.mp ⟨r, hmake⟩
    exact {
      named := hmodel
      paid := hcost
      counted := ⟨prompt, completion, cached, hprompt, hcompletion, hcached, hprompt', hcompletion', hcached', hle⟩
      distinct := hnodup
      whole := fun h => stop_iff.mp hcalls (hids.mp h) }
  · intro h
    obtain ⟨prompt, completion, cached, hprompt, hcompletion, hcached, hprompt', hcompletion', hcached', hle⟩ := h.counted
    obtain ⟨r, hr⟩ := make_ok_iff.mpr ⟨h.named, ⟨h.paid, hprompt', hcompletion', hcached'⟩, hle, h.distinct,
      stop_iff.mpr fun hcalls => h.whole (hids.mpr hcalls)⟩
    exact ⟨r, bind_ok_iff.mpr ⟨prompt, hprompt, bind_ok_iff.mpr ⟨completion, hcompletion,
      bind_ok_iff.mpr ⟨cached, hcached, hr⟩⟩⟩⟩

/-- No item escapes before the first one that is refused, and if none is refused a response can be built. -/
def Sound (py : Builtins) (ps : List (Text × Data)) (requestedModel : Text) (cost : FloatValue) : Prop :=
  ∀ items, get ps "output".toList = .array items →
    (∀ item ∈ items.takeWhile (fun item => !itemRefused py item), ¬ItemEscapes py item) ∧
      ((∀ item ∈ items, itemRefused py item = false) → Accountable py ps (items.filterMap calledId) requestedModel cost)

theorem responses_declared_iff (ps : List (Text × Data)) (requestedModel : Text) :
    Declared (parseResponsesResponse py (.object ps) requestedModel cost) ↔ Sound py ps requestedModel cost := by
  rw [parseResponsesResponse, Sound]
  cases houtput : get ps "output".toList with
  | array items =>
    dsimp only
    rw [declared_bind_iff]
    have hitems : (∀ e, gather (readItem py) 0 items = .error e → e.declared = true) ↔ _ := readItem_sorts.gather_iff 0 items
    constructor
    · rintro ⟨hgather, hfinish⟩ items' hitems'
      cases hitems'
      have hescapes := hitems.mp hgather
      refine ⟨hescapes, fun hrefused => ?_⟩
      have hall : items.takeWhile (fun item => !itemRefused py item) = items :=
        List.takeWhile_eq_self_iff.mpr fun item hitem => by rw [hrefused item hitem]; rfl
      rw [hall] at hescapes
      obtain ⟨read, hread⟩ := (readItem_sorts.gather_ok_iff 0 items).mpr fun item hitem =>
        ⟨hrefused item hitem, hescapes item hitem⟩
      rw [← gather_ids hread]
      exact finish_declared_iff.mp (hfinish read hread)
    · intro h
      obtain ⟨hescapes, haccount⟩ := h items rfl
      refine ⟨hitems.mpr hescapes, fun read hread => finish_declared_iff.mpr ?_⟩
      rw [gather_ids hread]
      exact haccount fun item hitem => ((readItem_sorts.gather_ok_iff 0 items).mp ⟨read, hread⟩ item hitem).1
  | _ => exact iff_of_true (declared_error_iff.mpr rfl) fun items h => nomatch h

def chatCallRefused (py : Builtins) : Data → Bool
  | .object ps =>
    if isText "function".toList (get ps "type".toList) = false then true
    else
      match get ps "function".toList with
      | .object fs => callRefused py (get ps "id".toList) (get fs "name".toList) (get fs "arguments".toList)
      | _ => true
  | _ => true

def ChatCallEscapes (py : Builtins) (call : Data) : Prop :=
  ∃ ps fs, call = .object ps ∧ isText "function".toList (get ps "type".toList) = true ∧
    get ps "function".toList = .object fs ∧ TooDeep py (get fs "arguments".toList)

theorem readCall_sorts : Sorts (readCall py) (fun e => e.declared = true) (chatCallRefused py) (ChatCallEscapes py) := by
  refine Sorts.of_cases fun i call => ?_
  cases call with
  | object ps =>
    rw [chatCallRefused]
    by_cases htype : isText "function".toList (get ps "type".toList) = false
    · rw [if_pos htype]
      refine .inl ⟨rfl, ?_, _, by rw [readCall, if_pos htype]; rfl, rfl⟩
      rintro ⟨ps', fs, ⟨⟩, h, -⟩
      rw [htype] at h
      cases h
    · rw [if_neg htype]
      cases hfunction : get ps "function".toList with
      | object fs =>
        have hread : readCall py i (.object ps) = atIndex i
            (toolCall py (get ps "id".toList) (get fs "name".toList) (get fs "arguments".toList)) := by
          rw [readCall, if_neg htype, hfunction]
        have hescapes : ChatCallEscapes py (.object ps) ↔ TooDeep py (get fs "arguments".toList) := by
          constructor
          · rintro ⟨ps', fs', ⟨⟩, -, h, hdeep⟩
            cases hfunction.symm.trans h
            exact hdeep
          · exact fun hdeep => ⟨ps, fs, rfl, (Bool.not_eq_false _).mp htype, hfunction, hdeep⟩
        rw [hread, hescapes]
        rcases toolCall_cases py (get ps "id".toList) (get fs "name".toList) (get fs "arguments".toList) with
          ⟨hrefused, hdeep, message, h⟩ | ⟨hrefused, hdeep, h⟩ | ⟨hrefused, hdeep, call, h, -⟩
        · exact .inl ⟨hrefused, hdeep, _, by rw [h]; rfl, rfl⟩
        · exact .inr (.inl ⟨hrefused, hdeep, _, by rw [h]; rfl, by decide⟩)
        · exact .inr (.inr ⟨hrefused, hdeep, _, by rw [h]; rfl⟩)
      | _ =>
        refine .inl ⟨rfl, ?_, _, by rw [readCall, if_neg htype, hfunction]; rfl, rfl⟩
        rintro ⟨ps', fs, ⟨⟩, -, h, -⟩
        rw [hfunction] at h
        cases h
  | _ => exact .inl ⟨rfl, (fun h => by obtain ⟨_, _, h, _⟩ := h; cases h), _, rfl, rfl⟩

theorem chosen_declared (ps : List (Text × Data)) : Declared (chosen py ps) := by
  unfold chosen
  split
  · exact declared_error_iff.mpr rfl
  · split
    · exact declared_error_iff.mpr rfl
    · exact declared_error_iff.mpr rfl
    · split
      · exact declared_ok _
      · exact declared_error_iff.mpr rfl
    · exact declared_error_iff.mpr rfl
    · exact declared_error_iff.mpr rfl

theorem chosen_ok_iff {ps choice message : List (Text × Data)} : chosen py ps = .ok (choice, message) ↔
    (∀ es, get ps "error".toList ≠ .object es) ∧ (∃ rest, get ps "choices".toList = .array (.object choice :: rest)) ∧
      get choice "message".toList = .object message := by
  unfold chosen
  constructor
  · intro h
    split at h
    · exact nomatch h
    · next herror =>
      split at h
      · exact nomatch h
      · exact nomatch h
      · next choice' rest hchoices =>
        split at h
        · next message' hmessage =>
          cases h
          exact ⟨herror, ⟨rest, hchoices⟩, hmessage⟩
        · exact nomatch h
      · exact nomatch h
      · exact nomatch h
  · rintro ⟨herror, ⟨rest, hchoices⟩, hmessage⟩
    split
    · next es hes => exact absurd hes (herror es)
    · rw [hchoices]
      dsimp only
      rw [hmessage]

theorem optionalText_declared (message : Text) (x : Data) : Declared (optionalText message x) := by
  cases x with
  | null => exact declared_ok _
  | string t => exact declared_ok _
  | _ => exact declared_error_iff.mpr rfl

theorem asProtocolError_make_declared :
    Declared (asProtocolError (LLMResponse.make text model cost prompt completion cached calls stop)) := by
  cases hmake : LLMResponse.make text model cost prompt completion cached calls stop with
  | ok r => exact declared_ok r
  | error e =>
    obtain ⟨message, rfl⟩ := make_error hmake
    exact declared_error_iff.mpr rfl

theorem conclude_declared (ps choice : List (Text × Data)) (text refusal requestedModel : Text) :
    Declared (conclude py ps choice text refusal requestedModel cost calls) := by
  have hstop : Declared (stopReasonOf py choice refusal calls) := by
    unfold stopReasonOf
    split
    · split
      · exact declared_error_iff.mpr rfl
      · split
        · split
          · exact declared_error_iff.mpr rfl
          · exact declared_ok _
        · split
          · exact declared_error_iff.mpr rfl
          · split <;> exact declared_ok _
    · exact declared_error_iff.mpr rfl
  have husage : ∀ x, Declared (usageOf x) := by
    intro x
    cases x with
    | null => exact declared_ok _
    | object usage => exact declared_ok _
    | _ => exact declared_error_iff.mpr rfl
  have hcount : ∀ x, Declared (tokenCount x) := by
    intro x
    cases x with
    | int z =>
      rw [tokenCount]
      split
      · exact declared_error_iff.mpr rfl
      · exact declared_ok _
    | _ => exact declared_error_iff.mpr rfl
  have hmodel : ∀ x, Declared (providerModel requestedModel x) := by
    intro x
    cases x with
    | null => exact declared_ok _
    | string t => exact declared_ok _
    | _ => exact declared_error_iff.mpr rfl
  unfold conclude
  exact declared_bind_iff.mpr ⟨hstop, fun _ _ => declared_bind_iff.mpr ⟨husage _, fun _ _ => declared_bind_iff.mpr ⟨hcount _,
    fun _ _ => declared_bind_iff.mpr ⟨hcount _, fun _ _ => declared_bind_iff.mpr ⟨hmodel _,
      fun _ _ => asProtocolError_make_declared⟩⟩⟩⟩⟩

def Reached (ps : List (Text × Data)) (calls : List Data) : Prop :=
  ∃ choice rest message, (∀ es, get ps "error".toList ≠ .object es) ∧
    get ps "choices".toList = .array (.object choice :: rest) ∧ get choice "message".toList = .object message ∧
    (get message "content".toList = .null ∨ ∃ t, get message "content".toList = .string t) ∧
    (get message "refusal".toList = .null ∨ ∃ t, get message "refusal".toList = .string t) ∧
    get message "tool_calls".toList = .array calls

theorem optionalText_ok_iff {message : Text} {x : Data} :
    (∃ t, optionalText message x = .ok t) ↔ x = .null ∨ ∃ t, x = .string t := by
  cases x <;> simp [optionalText]

def ChatSound (py : Builtins) (ps : List (Text × Data)) : Prop :=
  ∀ calls, Reached ps calls → ∀ call ∈ calls.takeWhile (fun call => !chatCallRefused py call), ¬ChatCallEscapes py call

theorem toolCalls_declared_iff (message : List (Text × Data)) : Declared (parseOpenaiToolCalls py message) ↔
    ∀ calls, get message "tool_calls".toList = .array calls →
      ∀ call ∈ calls.takeWhile (fun call => !chatCallRefused py call), ¬ChatCallEscapes py call := by
  unfold parseOpenaiToolCalls
  cases hcalls : get message "tool_calls".toList with
  | null => exact iff_of_true (declared_ok _) fun calls h => nomatch h
  | array calls =>
    refine Iff.trans (readCall_sorts.gather_iff 0 calls) ⟨fun h calls' hcalls' => ?_, fun h => h calls rfl⟩
    cases hcalls'
    exact h
  | _ => exact iff_of_true (declared_error_iff.mpr rfl) fun calls h => nomatch h

theorem chat_declared_iff (ps : List (Text × Data)) (requestedModel : Text) :
    Declared (parseOpenaiChatResponse py (.object ps) requestedModel cost) ↔ ChatSound py ps := by
  have hparse : Declared (parseOpenaiChatResponse py (.object ps) requestedModel cost) ↔ ∀ choice message,
      chosen py ps = .ok (choice, message) →
      (∃ t, optionalText "provider message content must be a string or null".toList (get message "content".toList) = .ok t) →
      (∃ t, optionalText "provider refusal must be a string".toList (get message "refusal".toList) = .ok t) →
      Declared (parseOpenaiToolCalls py message) := by
    rw [parseOpenaiChatResponse]
    simp only [declared_bind_iff, chosen_declared, optionalText_declared, conclude_declared, true_and, implies_true, and_true,
      forall_exists_index, Prod.forall]
  rw [hparse, ChatSound]
  constructor
  · rintro h calls ⟨choice, rest, message, herror, hchoices, hmessage, hcontent, hrefusal, hcalls⟩
    exact (toolCalls_declared_iff message).mp (h choice message (chosen_ok_iff.mpr ⟨herror, ⟨rest, hchoices⟩, hmessage⟩)
      (optionalText_ok_iff.mpr hcontent) (optionalText_ok_iff.mpr hrefusal)) calls hcalls
  · intro h choice message hchosen hcontent hrefusal
    obtain ⟨herror, ⟨rest, hchoices⟩, hmessage⟩ := chosen_ok_iff.mp hchosen
    exact (toolCalls_declared_iff message).mpr fun calls hcalls => h calls ⟨choice, rest, message, herror, hchoices, hmessage,
      optionalText_ok_iff.mp hcontent, optionalText_ok_iff.mp hrefusal, hcalls⟩

/-- The parsers of both protocols: what they raise is declared exactly for the answers that are sound. -/
theorem parsers_total_iff (py : Builtins) (ps : List (Text × Data)) (requestedModel : Text) (cost : FloatValue) :
    ((∀ e, parseResponsesResponse py (.object ps) requestedModel cost = .error e → e.declared = true) ↔
      Sound py ps requestedModel cost) ∧
    ((∀ e, parseOpenaiChatResponse py (.object ps) requestedModel cost = .error e → e.declared = true) ↔
      ChatSound py ps) :=
  ⟨responses_declared_iff ps requestedModel, chat_declared_iff ps requestedModel⟩

def plainPython : Builtins where
  loads t := if t = "\x7b\x7d".toList then .ok (.object []) else .error (.valueError "Expecting value".toList)
  dumps _ := []
  intText _ := none
  strOf _ := []
  repr _ := []

def truncatedCall : List (Text × Data) :=
  [("status".toList, .string "incomplete".toList),
    ("incomplete_details".toList, .object [("reason".toList, .string "max_output_tokens".toList)]),
    ("output".toList, .array [.object [("type".toList, .string "function_call".toList),
      ("call_id".toList, .string "c1".toList), ("name".toList, .string "calc".toList),
      ("arguments".toList, .string "\x7b\x7d".toList)]])]

theorem truncated_call_escapes : ∃ e, parseResponsesResponse plainPython (.object truncatedCall) "m".toList (.finite 0) =
    .error e ∧ e = .valueError "responses with tool_calls must use TOOL_CALLS stop reason".toList ∧ e.declared = false :=
  ⟨_, rfl, rfl, rfl⟩

end EvoHarness.Core.Llm.Parsers
