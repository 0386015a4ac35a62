import EvoHarness.Core.Agent.Queries

/-! The estimator that is shipped: a quarter of the characters of the messages and the tools. -/
namespace EvoHarness.Core.Agent
open PyText

def LLMMessage.role : LLMMessage → Text
  | .system _ => "system".toList
  | .user _ => "user".toList
  | .assistant _ _ => "assistant".toList
  | .tool _ => "tool".toList

section
variable (dumps : List (Text × Json.Value) → Text) (toolCharacters : ℕ)

def LLMToolCall.characters (call : LLMToolCall) : ℕ :=
  call.callId.length + call.name.length + (dumps call.arguments).length

def LLMToolResult.characters (result : LLMToolResult) : ℕ := result.callId.length + result.content.length

def LLMMessage.characters (m : LLMMessage) : ℕ :=
  m.role.length + m.content.length + (m.toolCalls.map (·.characters dumps)).sum + (m.toolResults.map (·.characters)).sum

def characters (messages : List LLMMessage) : ℕ := (messages.map (·.characters dumps)).sum

/-- `_estimate_tokens`. The tools are the same at every query, and so are their characters; `dumps` writes the arguments
of a call. -/
def estimateTokens (messages : List LLMMessage) : ℕ := (characters dumps messages + toolCharacters + 3) / 4

end

/-- The characters of the budget note and of its role. -/
def BudgetNote.characters (whole : ℚ≥0 → Text) (n : BudgetNote) : ℕ :=
  56 + (decimal n.turn).length + (decimal n.maxTurns).length + (decimal n.left).length + (whole n.minutesLeft).length +
    if n.left ≤ budgetWarnTurns then 181 else 80

variable {dumps : List (Text × Json.Value) → Text} {toolCharacters : ℕ}

theorem sum_map_set {α : Type} (f : α → ℕ) {xs : List α} {i : ℕ} {x : α} (y : α) (h : xs[i]? = some x) :
    ((xs.set i y).map f).sum + f x = (xs.map f).sum + f y := by
  induction xs generalizing i with
  | nil => cases h
  | cons a xs ih =>
    cases i with
    | zero =>
      cases h
      simp only [List.set_cons_zero, List.map_cons, List.sum_cons]
      omega
    | succ i =>
      have hrest := ih (List.getElem?_cons_succ ▸ h)
      simp only [List.set_cons_succ, List.map_cons, List.sum_cons]
      omega

theorem characters_append (messages more : List LLMMessage) :
    characters dumps (messages ++ more) = characters dumps messages + characters dumps more := by
  rw [characters, List.map_append, List.sum_append]
  rfl

theorem BudgetNote.length_tail (n : BudgetNote) : n.tail.length = if n.left ≤ budgetWarnTurns then 181 else 80 := by
  unfold BudgetNote.tail
  split
  · decide +kernel
  · decide +kernel

theorem BudgetNote.length_text (whole : ℚ≥0 → Text) (n : BudgetNote) : (n.text whole).length + 4 = n.characters whole := by
  have hturn : "[budget] turn ".toList.length = 14 := rfl
  have hof : " of ".toList.length = 4 := rfl
  have hsep : "; ".toList.length = 2 := rfl
  have hleft : " left, ".toList.length = 7 := rfl
  have hminutes : " wall-clock minutes left.".toList.length = 25 := rfl
  unfold BudgetNote.text BudgetNote.characters
  rw [List.length_append, List.length_append, List.length_append, List.length_append, List.length_append,
    List.length_append, List.length_append, List.length_append, List.length_append, BudgetNote.length_tail, hturn, hof,
    hsep, hleft, hminutes]
  generalize (decimal n.turn).length = a
  generalize (decimal n.maxTurns).length = b
  generalize (decimal n.left).length = c
  generalize (whole n.minutesLeft).length = d
  generalize (if n.left ≤ budgetWarnTurns then 181 else 80) = e
  omega

theorem BudgetNote.characters_eq (whole : ℚ≥0 → Text) (n : BudgetNote) :
    (LLMMessage.user (n.text whole)).characters dumps = n.characters whole := by
  rw [← n.length_text whole, LLMMessage.characters]
  show 4 + (n.text whole).length + 0 + 0 = _
  omega

theorem estimateTokens_le_iff {messages : List LLMMessage} {n : ℕ} :
    estimateTokens dumps toolCharacters messages ≤ n ↔ characters dumps messages + toolCharacters ≤ 4 * n := by
  unfold estimateTokens
  omega

/-- What is sent fits if and only if the characters of the context, the tools and the note do. -/
theorem sent_fits_iff (whole : ℚ≥0 → Text) (limits : AgentSessionLimits) (w : World) (n : ℕ) :
    estimateTokens dumps toolCharacters (messagesWithBudget whole limits w) ≤ n ↔
      characters dumps w.session.messages + toolCharacters + (budgetNote limits w).characters whole ≤ 4 * n := by
  have hnote : characters dumps [.user ((budgetNote limits w).text whole)] = (budgetNote limits w).characters whole := by
    rw [← @BudgetNote.characters_eq dumps]
    simp [characters]
  rw [estimateTokens_le_iff, messagesWithBudget, characters_append, hnote]
  omega

end EvoHarness.Core.Agent
