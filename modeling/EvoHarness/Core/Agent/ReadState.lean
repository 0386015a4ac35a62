import EvoHarness.Core.Agent.Runtime
import EvoHarness.Library.JsonMembers
import EvoHarness.Library.Runs

/-! `workspace_read` and its memory: which answers refer to a result that the session still holds. -/
namespace EvoHarness.Core.Agent
open PyText Json

deriving instance DecidableEq for Location

abbrev AgentToolError := Text × Text

/-- What finding and reading the file of a raw path gives: the path that is shown, and the text. -/
abbrev Workspace := Text → Except AgentToolError (Text × Text)

structure WorkspaceReadTool where
  hash : Text → Text
  maxOutputChars : ℕ := 100000
  maxLines : ℕ := 2000

def invalidArguments (message : Text) {α : Type} : Except AgentToolError α :=
  .error ("invalid-arguments".toList, message)

def listed (names : List Text) : Text := '[' :: (join ", ".toList (names.map quoted) ++ [']'])

def argumentNames : List Text := ["limit".toList, "offset".toList, "path".toList]

/-- `_validate_exact_arguments(arguments, {"path", "offset", "limit"})` -/
def validateExactArguments (arguments : List (Text × Value)) : Except AgentToolError Unit :=
  let missing := argumentNames.filter fun name => (get arguments name).isNone
  let extra := ((arguments.map (·.1)).filter (· ∉ argumentNames)).mergeSort fun a b => decide (a ≤ b)
  if missing = [] ∧ extra = [] then .ok ()
  else
    invalidArguments ("invalid arguments: ".toList ++ join ", ".toList
      ((if missing = [] then [] else ["missing=".toList ++ listed missing]) ++
        (if extra = [] then [] else ["unexpected=".toList ++ listed extra])))

def requiredString (arguments : List (Text × Value)) (name : Text) : Except AgentToolError Text :=
  match get arguments name with
  | some (.string t) =>
    if t = [] then invalidArguments (name ++ " must be a non-empty string".toList) else .ok t
  | _ => invalidArguments (name ++ " must be a non-empty string".toList)

/-- `_required_int(arguments, name, minimum=1, maximum=maximum)` -/
def requiredInt (arguments : List (Text × Value)) (name : Text) (maximum : Option ℕ) : Except AgentToolError ℕ :=
  match get arguments name with
  | some (.number n) =>
    match n.toInt? with
    | none => invalidArguments (name ++ " must be an integer".toList)
    | some z =>
      if z < 1 ∨ (maximum.any fun m => decide ((m : ℤ) < z)) = true then
        invalidArguments (name ++ " must be at least 1".toList ++
          ((maximum.map fun m => " and at most ".toList ++ decimal m).getD []))
      else .ok z.toNat
  | _ => invalidArguments (name ++ " must be an integer".toList)

structure Selection where
  display : Text
  offset : ℕ
  limit : ℕ
  numbered : Text
  endLine : ℕ
  totalLines : ℕ

def numberedLines (offset : ℕ) (selected : List Text) : Text :=
  join ['\n'] ((selected.zipIdx offset).map fun line => decimal line.2 ++ '\t' :: line.1)

/-- What `invoke` reads before it looks at what was read earlier. -/
def WorkspaceReadTool.select (tool : WorkspaceReadTool) (files : Workspace) (call : LLMToolCall) :
    Except AgentToolError Selection := do
  validateExactArguments call.arguments
  let rawPath ← requiredString call.arguments "path".toList
  let offset ← requiredInt call.arguments "offset".toList none
  let limit ← requiredInt call.arguments "limit".toList (some tool.maxLines)
  let found ← files rawPath
  let lines := splitlines found.2
  let selected := (lines.drop (offset - 1)).take limit
  let numbered := numberedLines offset selected
  if tool.maxOutputChars < numbered.length then
    .error ("output-too-large".toList, "selected range is too large; retry with a smaller limit".toList)
  else
    .ok {
      display := found.1, offset, limit, numbered
      endLine := min (offset - 1 + selected.length) lines.length
      totalLines := lines.length }

def readKey (display : Text) (offset limit : ℕ) : Text := display ++ ':' :: (decimal offset ++ ':' :: decimal limit)

def Selection.key (a : Selection) : Text := readKey a.display a.offset a.limit

def contentPayload (display : Text) (offset : ℕ) (numbered : Text) (endLine totalLines : ℕ) : List (Text × Value) :=
  [("ok".toList, .bool true), ("path".toList, .string display), ("content".toList, .string numbered),
    ("start_line".toList, .number (.ofNat offset)), ("end_line".toList, .number (.ofNat endLine)),
    ("total_lines".toList, .number (.ofNat totalLines)), ("has_more".toList, .bool (endLine < totalLines)),
    ("next_offset".toList, if endLine < totalLines then .number (.ofNat (endLine + 1)) else .null)]

def unchangedPayload (display : Text) : List (Text × Value) :=
  [("ok".toList, .bool true), ("path".toList, .string display), ("unchanged".toList, .bool true),
    ("message".toList, .string ("These exact lines are unchanged since your earlier workspace_read of this range. ".toList ++
      "Refer to that result instead of re-reading; it is still current.".toList))]

abbrev ReadState := Text → Option Text

/-- `invoke`, through the registry: the result and what is remembered. -/
def WorkspaceReadTool.invoke (tool : WorkspaceReadTool) (files : Workspace) (readState : ReadState)
    (call : LLMToolCall) : LLMToolResult × ReadState :=
  match tool.select files call with
  | .error e => (makeToolError call.callId e.1 e.2, readState)
  | .ok a =>
    if readState a.key = some (tool.hash a.numbered) then
      (makeToolResult call.callId (.object (unchangedPayload a.display)) false, readState)
    else
      (makeToolResult call.callId (.object (contentPayload a.display a.offset a.numbered a.endLine a.totalLines)) false,
        Function.update readState a.key (some (tool.hash a.numbered)))

/-- `running` are the results of the calls that were executed for the response in `handling`. -/
structure ReadSession where
  files : Workspace
  readState : ReadState := fun _ => none
  messages : List LLMMessage := []
  handling : Option (Text × List LLMToolCall) := none
  running : List LLMToolResult := []

/-- `edit` is any change of the files. `read` runs `workspace_read`, for the response or in a thread
that outlives its deadline, and `other` any other tool. `exchange` appends a response and its
results. `compact` is one replacement of `_prepare_context`. -/
inductive ReadEvent where
  | edit (files : Workspace)
  | say (m : LLMMessage)
  | respond (content : Text) (calls : List LLMToolCall)
  | read (call : LLMToolCall)
  | other (r : LLMToolResult)
  | exchange (results : List LLMToolResult)
  | compact (l : Location)

variable (tool : WorkspaceReadTool)

def ReadSession.exchange (s : ReadSession) (results : List LLMToolResult) : Option ReadSession :=
  match s.handling with
  | none => none
  | some response =>
    if results.map (·.callId) = response.2.map (·.callId) ∧ ∀ r ∈ results, r ∈ s.running ∨ r.isError = true then
      some {
        s with
        messages := s.messages ++ [.assistant response.1 response.2, .tool results]
        handling := none
        running := [] }
    else none

def readStep (s : ReadSession) : ReadEvent → Option ReadSession
  | .edit files => some { s with files }
  | .say m => if m.toolResults = [] then some { s with messages := s.messages ++ [m] } else none
  | .respond content calls => if s.handling.isNone then some { s with handling := some (content, calls) } else none
  | .read call =>
    let answer := tool.invoke s.files s.readState call
    some { s with readState := answer.2, running := s.running ++ [answer.1] }
  | .other r => some { s with running := s.running ++ [r] }
  | .exchange results => s.exchange results
  | .compact l => if l ∈ locations s.messages then some { s with messages := compactAt s.messages l } else none

def Shows (r : LLMToolResult) (display : Text) (offset : ℕ) (numbered : Text) : Prop :=
  ∃ endLine totalLines, r.content = dumpsCompact (.object (contentPayload display offset numbered endLine totalLines))

def Visible (messages : List LLMMessage) (a : Selection) : Prop :=
  ∃ m ∈ messages, ∃ r ∈ m.toolResults, Shows r a.display a.offset a.numbered

/-- Whenever a read answers that a range is unchanged, the messages hold its lines. -/
def Honest (s : ReadSession) : ReadEvent → Prop
  | .read call => ∀ a, tool.select s.files call = .ok a → s.readState a.key = some (tool.hash a.numbered) →
      Visible s.messages a
  | _ => True

def Remembered (readState : ReadState) (r : LLMToolResult) : Prop :=
  ∃ display offset limit numbered, Shows r display offset numbered ∧
    readState (readKey display offset limit) = some (tool.hash numbered)

/-- No result that the memory relies on is compacted or lost, no response reads the same lines
twice, and other lines have another hash. -/
def Sparing (s : ReadSession) : ReadEvent → Prop
  | .read call => ∀ a, tool.select s.files call = .ok a → s.readState a.key = some (tool.hash a.numbered) →
      (∀ r ∈ s.running, ∀ numbered, Shows r a.display a.offset numbered → tool.hash numbered ≠ tool.hash a.numbered) ∧
      ∀ m ∈ s.messages, ∀ r ∈ m.toolResults, ∀ numbered, Shows r a.display a.offset numbered →
        tool.hash numbered = tool.hash a.numbered → numbered = a.numbered
  | .exchange results => ∀ r ∈ s.running, Remembered tool s.readState r → r ∈ results
  | .compact l => ¬ Remembered tool s.readState l.result
  | _ => True

theorem decimal_eq (n : ℕ) : decimal n = Nat.toDigits 10 n := Nat.toList_repr

theorem decimal_injective {m n : ℕ} (h : decimal m = decimal n) : m = n := by
  rw [decimal_eq, decimal_eq] at h
  calc
    m = Nat.ofDigitChars 10 (Nat.toDigits 10 m) 0 := Nat.ofDigitChars_ten_toDigits.symm
    _ = Nat.ofDigitChars 10 (Nat.toDigits 10 n) 0 := by rw [h]
    _ = n := Nat.ofDigitChars_ten_toDigits

theorem no_colon_decimal (n : ℕ) : ':' ∉ decimal n := by
  intro h
  rw [decimal_eq] at h
  exact absurd (toDigits_digits n ':' h) (by decide)

theorem cut_at_colon {a b c d : Text} (hb : ':' ∉ b) (hd : ':' ∉ d) (h : a ++ ':' :: b = c ++ ':' :: d) :
    a = c ∧ b = d := by
  have hback : ∀ {x y : Text}, ':' ∉ y → (x ++ ':' :: y).rtakeWhile (· ≠ ':') = y := by
    intro x y hy
    have hall : ∀ e ∈ y.reverse, decide (e ≠ ':') = true := by
      intro e he
      exact decide_eq_true fun heq => hy (heq ▸ List.mem_reverse.mp he)
    rw [List.rtakeWhile, List.reverse_append, List.reverse_cons, List.append_assoc, List.takeWhile_append_of_pos hall]
    simp
  have hbd : b = d := by rw [← hback (x := a) hb, h, hback hd]
  rw [hbd] at h
  exact ⟨List.append_cancel_right h, hbd⟩

theorem readKey_injective {d d' : Text} {o o' l l' : ℕ} (h : readKey d o l = readKey d' o' l') :
    d = d' ∧ o = o' ∧ l = l' := by
  unfold readKey at h
  have hassoc : ∀ x y z : Text, x ++ ':' :: (y ++ ':' :: z) = (x ++ ':' :: y) ++ ':' :: z := by simp
  rw [hassoc, hassoc] at h
  obtain ⟨hleft, hlimit⟩ := cut_at_colon (no_colon_decimal l) (no_colon_decimal l') h
  obtain ⟨hdisplay, hoffset⟩ := cut_at_colon (no_colon_decimal o) (no_colon_decimal o') hleft
  exact ⟨hdisplay, decimal_injective hoffset, decimal_injective hlimit⟩

def Backed (s : ReadSession) : Prop :=
  ∀ display offset limit digest, s.readState (readKey display offset limit) = some digest →
    ∃ r numbered, Shows r display offset numbered ∧ tool.hash numbered = digest ∧
      (r ∈ s.running ∨ ∃ m ∈ s.messages, r ∈ m.toolResults)

variable {tool} {s t : ReadSession}

theorem Backed.grow (h : Backed tool s) (hstate : t.readState = s.readState) (hrunning : s.running ⊆ t.running)
    (hmessages : s.messages ⊆ t.messages) : Backed tool t := by
  intro display offset limit digest hread
  rw [hstate] at hread
  obtain ⟨r, numbered, hshows, hdigest, hplace⟩ := h display offset limit digest hread
  refine ⟨r, numbered, hshows, hdigest, ?_⟩
  cases hplace with
  | inl hr => exact .inl (hrunning hr)
  | inr hr =>
    obtain ⟨m, hm, hr⟩ := hr
    exact .inr ⟨m, hmessages hm, hr⟩

theorem Backed.read (h : Backed tool s) (call : LLMToolCall) :
    Backed tool { s with
      readState := (tool.invoke s.files s.readState call).2
      running := s.running ++ [(tool.invoke s.files s.readState call).1] } := by
  unfold WorkspaceReadTool.invoke
  cases hselect : tool.select s.files call with
  | error e => exact h.grow rfl (List.subset_append_left _ _) (List.Subset.refl _)
  | ok a =>
    dsimp only
    split
    · exact h.grow rfl (List.subset_append_left _ _) (List.Subset.refl _)
    · intro display offset limit digest hread
      dsimp only at hread ⊢
      by_cases hkey : readKey display offset limit = a.key
      · obtain ⟨hdisplay, hoffset, _⟩ := readKey_injective hkey
        rw [hkey, Function.update_self] at hread
        refine ⟨_, a.numbered, ?_, Option.some.inj hread, .inl (List.mem_append_right _ (List.mem_singleton.mpr rfl))⟩
        rw [hdisplay, hoffset]
        exact ⟨a.endLine, a.totalLines, rfl⟩
      · rw [Function.update_of_ne hkey] at hread
        obtain ⟨r, numbered, hshows, hdigest, hplace⟩ := h display offset limit digest hread
        exact ⟨r, numbered, hshows, hdigest, hplace.imp (List.mem_append_left _) id⟩

theorem Backed.exchange (h : Backed tool s) {results : List LLMToolResult} (hexchange : s.exchange results = some t)
    (hkept : ∀ r ∈ s.running, Remembered tool s.readState r → r ∈ results) : Backed tool t := by
  unfold ReadSession.exchange at hexchange
  split at hexchange
  · exact nomatch hexchange
  rename_i response _
  split at hexchange
  · rw [← Option.some.inj hexchange]
    intro display offset limit digest hread
    obtain ⟨r, numbered, hshows, hdigest, hplace⟩ := h display offset limit digest hread
    refine ⟨r, numbered, hshows, hdigest, .inr ?_⟩
    cases hplace with
    | inl hr =>
      have hmem := hkept r hr ⟨display, offset, limit, numbered, hshows, hdigest ▸ hread⟩
      exact ⟨.tool results, by simp, hmem⟩
    | inr hr =>
      obtain ⟨m, hm, hr⟩ := hr
      exact ⟨m, List.mem_append_left _ hm, hr⟩
  · exact nomatch hexchange

theorem mem_locations {messages : List LLMMessage} {l : Location} (hl : l ∈ locations messages) :
    ∃ m, messages[l.messageIndex]? = some m ∧ m.toolResults[l.resultIndex]? = some l.result := by
  obtain ⟨m, hm, hr⟩ := List.mem_flatMap.mp hl
  obtain ⟨r, hr, hsome⟩ := List.mem_filterMap.mp hr
  have hmi := List.mem_zipIdx_iff_getElem?.mp hm
  have hri := List.mem_zipIdx_iff_getElem?.mp hr
  split at hsome
  · exact nomatch hsome
  · rw [← Option.some.inj hsome]
    exact ⟨m.1, hmi, hri⟩

theorem mem_set_of_ne {α : Type} {xs : List α} {x y z : α} {i : ℕ} (hy : xs[i]? = some y) (hx : x ∈ xs) (hne : x ≠ y) :
    x ∈ xs.set i z := by
  obtain ⟨j, hj⟩ := List.mem_iff_getElem?.mp hx
  have hij : i ≠ j := by
    intro heq
    rw [heq, hj] at hy
    exact hne (Option.some.inj hy)
  apply List.mem_iff_getElem?.mpr
  exact ⟨j, by rw [List.getElem?_set_ne hij, hj]⟩

theorem compactAt_keeps {messages : List LLMMessage} {l : Location} (hl : l ∈ locations messages) {m : LLMMessage}
    (hm : m ∈ messages) {r : LLMToolResult} (hr : r ∈ m.toolResults) (hne : r ≠ l.result) :
    ∃ m' ∈ compactAt messages l, r ∈ m'.toolResults := by
  obtain ⟨original, horiginal, hresult⟩ := mem_locations hl
  unfold compactAt
  rw [horiginal]
  dsimp only
  obtain ⟨i, hi⟩ := List.mem_iff_getElem?.mp hm
  by_cases hindex : l.messageIndex = i
  · rw [hindex, hi] at horiginal
    obtain rfl := Option.some.inj horiginal
    have hlength : l.messageIndex < messages.length := by
      rw [hindex]
      exact (List.getElem?_eq_some_iff.mp hi).1
    exact ⟨_, List.mem_set hlength _, mem_set_of_ne hresult hr hne⟩
  · refine ⟨m, List.mem_iff_getElem?.mpr ⟨i, ?_⟩, hr⟩
    rw [List.getElem?_set_ne hindex, hi]

theorem Backed.compact (h : Backed tool s) {l : Location} (hl : l ∈ locations s.messages)
    (hspared : ¬ Remembered tool s.readState l.result) :
    Backed tool { s with messages := compactAt s.messages l } := by
  intro display offset limit digest hread
  obtain ⟨r, numbered, hshows, hdigest, hplace⟩ := h display offset limit digest hread
  refine ⟨r, numbered, hshows, hdigest, ?_⟩
  cases hplace with
  | inl hr => exact .inl hr
  | inr hr =>
    obtain ⟨m, hm, hr⟩ := hr
    refine .inr (compactAt_keeps hl hm hr fun heq => hspared ?_)
    exact ⟨display, offset, limit, numbered, heq ▸ hshows, hdigest ▸ hread⟩

theorem backed_step {event : ReadEvent} (h : Backed tool s) (hsparing : Sparing tool s event)
    (hstep : readStep tool s event = some t) : Backed tool t := by
  cases event with
  | edit files =>
    rw [← Option.some.inj hstep]
    exact h.grow rfl (List.Subset.refl _) (List.Subset.refl _)
  | say m =>
    unfold readStep at hstep
    dsimp only at hstep
    split at hstep
    · rw [← Option.some.inj hstep]
      exact h.grow rfl (List.Subset.refl _) (List.subset_append_left _ _)
    · exact nomatch hstep
  | respond content calls =>
    unfold readStep at hstep
    dsimp only at hstep
    split at hstep
    · rw [← Option.some.inj hstep]
      exact h.grow rfl (List.Subset.refl _) (List.Subset.refl _)
    · exact nomatch hstep
  | read call =>
    rw [← Option.some.inj hstep]
    exact h.read call
  | other r =>
    rw [← Option.some.inj hstep]
    exact h.grow rfl (List.subset_append_left _ _) (List.Subset.refl _)
  | exchange results => exact h.exchange hstep hsparing
  | compact l =>
    unfold readStep at hstep
    dsimp only at hstep
    split at hstep
    · rename_i hl
      rw [← Option.some.inj hstep]
      exact h.compact hl hsparing
    · exact nomatch hstep

theorem honest_of_backed {event : ReadEvent} (h : Backed tool s) (hsparing : Sparing tool s event) :
    Honest tool s event := by
  cases event with
  | read call =>
    intro a hselect hread
    obtain ⟨hfresh, hdistinct⟩ := hsparing a hselect hread
    obtain ⟨r, numbered, hshows, hdigest, hplace⟩ := h a.display a.offset a.limit _ hread
    cases hplace with
    | inl hr => exact absurd hdigest (hfresh r hr numbered hshows)
    | inr hr =>
      obtain ⟨m, hm, hr⟩ := hr
      rw [hdistinct m hm r hr numbered hshows hdigest] at hshows
      exact ⟨m, hm, r, hr, hshows⟩
  | edit files => trivial
  | say m => trivial
  | respond content calls => trivial
  | other r => trivial
  | exchange results => trivial
  | compact l => trivial

/-- As long as nothing that the memory relies on is compacted or lost, every answer that refers to
an earlier result refers to lines the model can still see. -/
theorem reads_honest (files : Workspace) (messages : List LLMMessage) (events : List ReadEvent)
    (h : Runs.Meets (readStep tool) (Sparing tool) { files, messages } events) :
    Runs.Meets (readStep tool) (Honest tool) { files, messages } events := by
  have hstart : Backed tool { files, messages } := fun _ _ _ _ hread => nomatch hread
  exact Runs.meets_of_meets (fun _ _ _ hs hok hstep => backed_step hs hok hstep)
    (fun _ _ hs hok => honest_of_backed hs hok) hstart h

theorem distinct_contentPayload (display : Text) (offset : ℕ) (numbered : Text) (endLine totalLines : ℕ) :
    Distinct (.object (contentPayload display offset numbered endLine totalLines)) := by
  have hkeys : (["ok".toList, "path".toList, "content".toList, "start_line".toList, "end_line".toList,
      "total_lines".toList, "has_more".toList, "next_offset".toList] : List Text).Nodup := by decide
  refine ⟨hkeys, trivial, trivial, trivial, trivial, trivial, trivial, trivial, ?_, trivial⟩
  split <;> trivial

theorem content_ne_compacted (display : Text) (offset : ℕ) (numbered : Text) (endLine totalLines : ℕ) (isError : Bool) :
    dumpsCompact (.object (contentPayload display offset numbered endLine totalLines)) ≠
      compactedToolContent isError := by
  intro h
  have hcompacted : Distinct (.object [("ok".toList, .bool !isError), ("compacted".toList, .bool true),
      ("message".toList, .string "older tool result removed".toList)]) :=
    ⟨(by decide : (["ok".toList, "compacted".toList, "message".toList] : List Text).Nodup), trivial, trivial,
      trivial, trivial⟩
  have hsorted := sorted_of_dumpsCompact (distinct_contentPayload ..) hcompacted ⟨_, rfl⟩ ⟨_, rfl⟩ h
  have hcontent : get (contentPayload display offset numbered endLine totalLines) "content".toList =
      some (.string numbered) := rfl
  obtain ⟨y, hy, _⟩ := get_sorted hsorted hcompacted.1 hcontent
  exact nomatch hy

theorem content_injective {d d' n n' : Text} {o o' e e' t t' : ℕ}
    (h : dumpsCompact (.object (contentPayload d o n e t)) = dumpsCompact (.object (contentPayload d' o' n' e' t'))) :
    n = n' := by
  have hsorted := sorted_of_dumpsCompact (distinct_contentPayload ..) (distinct_contentPayload ..) ⟨_, rfl⟩ ⟨_, rfl⟩ h
  have hcontent : get (contentPayload d o n e t) "content".toList = some (.string n) := rfl
  obtain ⟨y, hy, hny⟩ := get_sorted hsorted (distinct_contentPayload d' o' n' e' t').1 hcontent
  obtain rfl : Value.string n' = y := Option.some.inj hy
  simp only [sorted] at hny
  exact Value.string.inj hny

def oneLine : Workspace := fun p =>
  if p = "a.py".toList then .ok ("a.py".toList, ['x'])
  else .error ("not-found".toList, "path does not exist: ".toList ++ p)

def readTool : WorkspaceReadTool where
  hash _ := "de0181fb473c9eba3d914855b037f6be02778eef702e02dbcecd3b8fd4edb9b9".toList

def readsLine (callId : Text) : LLMToolCall where
  callId := callId
  name := "workspace_read".toList
  arguments := [("path".toList, .string "a.py".toList), ("offset".toList, .number (.ofNat 1)),
    ("limit".toList, .number (.ofNat 1))]

def line : Selection where
  display := "a.py".toList
  offset := 1
  limit := 1
  numbered := ['1', '\t', 'x']
  endLine := 1
  totalLines := 1

theorem select_line (callId : Text) : readTool.select oneLine (readsLine callId) = .ok line := by
  have hvalid : validateExactArguments (readsLine callId).arguments = .ok () := by
    have hextra : (((readsLine callId).arguments.map (·.1)).filter (· ∉ argumentNames)) = [] := by
      show ((["path".toList, "offset".toList, "limit".toList] : List Text).filter (· ∉ argumentNames)) = []
      decide
    unfold validateExactArguments
    rw [hextra, List.mergeSort_nil]
    rfl
  unfold WorkspaceReadTool.select
  rw [hvalid]
  rfl

def returned : LLMToolResult :=
  makeToolResult "c1".toList (.object (contentPayload "a.py".toList 1 ['1', '\t', 'x'] 1 1)) false

def remembering : ReadState := Function.update (fun _ => none) line.key (some (readTool.hash line.numbered))

theorem invoke_first : readTool.invoke oneLine (fun _ => none) (readsLine "c1".toList) = (returned, remembering) := by
  unfold WorkspaceReadTool.invoke
  rw [select_line]
  rfl

theorem not_compacted_returned : isCompactedResult returned = false :=
  decide_eq_false (content_ne_compacted _ _ _ _ _ _)

def afterRead (r : LLMToolResult) : ReadSession where
  files := oneLine
  readState := remembering
  messages := [.assistant [] [readsLine "c1".toList], .tool [r]]

def compacted : LLMToolResult := ⟨"c1".toList, compactedToolContent false, false⟩

def compactedEarly : List ReadEvent :=
  [.respond [] [readsLine "c1".toList], .read (readsLine "c1".toList), .exchange [returned],
    .compact ⟨1, 0, returned⟩, .read (readsLine "c2".toList)]

def handlingFirst : ReadSession where
  files := oneLine
  handling := some ([], [readsLine "c1".toList])

def ranFirst : ReadSession where
  files := oneLine
  readState := remembering
  handling := some ([], [readsLine "c1".toList])
  running := [returned]

theorem step_first : readStep readTool handlingFirst (.read (readsLine "c1".toList)) = some ranFirst := by
  unfold readStep handlingFirst
  simp only [invoke_first]
  rfl

theorem step_exchange : readStep readTool ranFirst (.exchange [returned]) = some (afterRead returned) := by
  unfold readStep ReadSession.exchange ranFirst
  dsimp only
  rw [if_pos ⟨rfl, fun r hr => .inl hr⟩]
  rfl

theorem refers_to_compacted : ¬ Runs.Meets (readStep readTool) (Honest readTool) { files := oneLine } compactedEarly := by
  intro h
  have hlocation : ⟨1, 0, returned⟩ ∈ locations (afterRead returned).messages := by
    unfold locations
    refine List.mem_flatMap.mpr ⟨(.tool [returned], 1), by simp [afterRead, List.zipIdx], ?_⟩
    refine List.mem_filterMap.mpr ⟨(returned, 0), by simp [LLMMessage.toolResults, List.zipIdx], ?_⟩
    simp only [not_compacted_returned, Bool.false_eq_true, if_false]
  have hcompact : readStep readTool (afterRead returned) (.compact ⟨1, 0, returned⟩) = some (afterRead compacted) := by
    unfold readStep
    dsimp only
    rw [if_pos hlocation]
    rfl
  have hlast := ((((h handlingFirst rfl).2 _ step_first).2 _ step_exchange).2 _ hcompact).2
  have hremembered : (afterRead compacted).readState line.key = some (readTool.hash line.numbered) := by
    show remembering line.key = _
    rw [remembering, Function.update_self]
  have hhonest := (hlast _ rfl).1 line (select_line _) hremembered
  obtain ⟨m, hm, r, hr, endLine, totalLines, hcontent⟩ := hhonest
  have hcases : m = .assistant [] [readsLine "c1".toList] ∨ m = .tool [compacted] := by
    simpa [afterRead] using hm
  cases hcases with
  | inl hm => exact nomatch hm ▸ hr
  | inr hm =>
    rw [hm] at hr
    rw [List.mem_singleton.mp hr] at hcontent
    exact content_ne_compacted _ _ _ _ _ _ hcontent.symm

def readTwice : List ReadEvent :=
  [.respond [] [readsLine "c1".toList], .read (readsLine "c1".toList), .exchange [returned],
    .read (readsLine "c2".toList)]

theorem reads_honest_twice : Runs.Meets (readStep readTool) (Honest readTool) { files := oneLine } readTwice := by
  apply reads_honest oneLine []
  intro s hs
  obtain rfl : handlingFirst = s := Option.some.inj hs
  refine ⟨trivial, fun t ht => ⟨fun a _ hread => (nomatch hread), fun u hu => ⟨?_, fun v hv => ⟨?_, trivial⟩⟩⟩⟩
  · obtain rfl := Option.some.inj (step_first.symm.trans ht)
    exact fun r hr _ => hr
  · obtain rfl := Option.some.inj (step_first.symm.trans ht)
    obtain rfl := Option.some.inj (step_exchange.symm.trans hu)
    intro a hselect _
    obtain rfl := Except.ok.inj ((select_line _).symm.trans hselect)
    refine ⟨fun r hr => (nomatch hr), fun m hm r hr numbered hshows _ => ?_⟩
    obtain ⟨endLine, totalLines, hcontent⟩ := hshows
    have hcases : m = .assistant [] [readsLine "c1".toList] ∨ m = .tool [returned] := by
      simpa [afterRead] using hm
    cases hcases with
    | inl hm => exact nomatch hm ▸ hr
    | inr hm =>
      rw [hm] at hr
      rw [List.mem_singleton.mp hr] at hcontent
      exact (content_injective hcontent).symm

end EvoHarness.Core.Agent
