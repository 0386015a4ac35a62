import EvoHarness.Library.Floats
import EvoHarness.Library.Utf8Replace

/-! What the transport raises for an error status of an OpenAI-compatible endpoint. -/
namespace EvoHarness.Core.Llm
open PyText PyBytes

/-- `urllib.error.HTTPError`: its status, `str(exc)`, the `Retry-After` header, and the body unless
reading it raises. -/
structure HTTPError where
  code : ℤ
  message : Text
  retryAfter : Option Text := none
  body : Option Bytes

inductive TransportError where
  | rateLimit (message : Text) (retryAfterS : Option FloatValue)
  | transient (message : Text)
  | billing (message : Text)
  | http (e : HTTPError)

def TransportError.retryable : TransportError → Bool
  | .rateLimit _ _ | .transient _ => true
  | _ => false

def routingFaultMarks : List Text :=
  ["unknown provider".toList, "no healthy upstream".toList, "no deployments available".toList,
    "model not available".toList]

def billingMarks : List Text :=
  ["insufficient balance".toList, "insufficient_balance".toList, "insufficient quota".toList,
    "insufficient_quota".toList, "billing_error".toList, "exceeded your current quota".toList,
    "payment required".toList]

/-- `c.lower()`, as far as it gives ASCII letters: besides the ASCII capitals these are the Kelvin
sign and the capital i with a dot. -/
def lowerChar (c : Char) : Text :=
  if c = Char.ofNat 0x212A then ['k'] else if c = Char.ofNat 0x130 then ['i', Char.ofNat 0x307] else [c.toLower]

def lower (t : Text) : Text := t.flatMap lowerChar

def marked (marks : List Text) (detail : Text) : Bool := marks.any fun mark => contains mark (lower detail)

def isBillingFailure (code : ℤ) (detail : Text) : Bool :=
  [400, 402, 403, 429].contains code && marked billingMarks detail

def isRoutingFault (code : ℤ) (detail : Text) : Bool :=
  (400 ≤ code && code < 500 && !([401, 403, 429] : List ℤ).contains code) && marked routingFaultMarks detail

namespace HTTPError

def text (e : HTTPError) : Text := decodeReplace (e.body.getD [])

def detail (e : HTTPError) : Text :=
  match e.body with
  | some body => decodeReplace (body.take 300)
  | none => "<unreadable>".toList

def shown (what : String) (e : HTTPError) : Text :=
  what.toList ++ " (HTTP ".toList ++ (toString e.code).toList ++ "): ".toList ++ e.detail

variable (float : Text → Option FloatValue)

/-- `float(header) if header else None`, with `None` for what is no number. -/
def retryAfterS (e : HTTPError) : Option FloatValue :=
  e.retryAfter.bind fun header => if header = [] then none else float header

def raised (e : HTTPError) : TransportError :=
  if e.code = 429 then .rateLimit e.message (e.retryAfterS float)
  else if e.code = 408 ∨ 500 ≤ e.code then .transient e.message
  else if isBillingFailure e.code e.detail then .billing (e.shown "account cannot pay for the call")
  else if isRoutingFault e.code e.detail then .transient (e.shown "provider routing fault")
  else .http e

end HTTPError

theorem billing_code {code : ℤ} {detail : Text} (h : isBillingFailure code detail = true) :
    code = 400 ∨ code = 402 ∨ code = 403 ∨ code = 429 := by
  unfold isBillingFailure at h
  rw [Bool.and_eq_true, List.contains_iff_mem] at h
  simpa using h.1

section
variable {float : Text → Option FloatValue} {e : HTTPError}

theorem raised_early (h : e.code = 429) : e.raised float = .rateLimit e.message (e.retryAfterS float) := if_pos h

theorem raised_billing_iff {detail : Text} (h : isBillingFailure e.code detail = true) (hlimit : e.code ≠ 429) :
    (∃ message, e.raised float = .billing message) ↔ marked billingMarks e.detail = true := by
  have hcode := billing_code h
  have hlisted : isBillingFailure e.code e.detail = marked billingMarks e.detail := by
    unfold isBillingFailure at h ⊢
    rw [Bool.and_eq_true] at h
    rw [h.1, Bool.true_and]
  have hlate : ¬(e.code = 408 ∨ 500 ≤ e.code) := by omega
  unfold HTTPError.raised
  rw [if_neg hlimit, if_neg hlate, hlisted]
  constructor
  · intro hraised
    obtain ⟨message, hmessage⟩ := hraised
    by_contra hmark
    rw [if_neg hmark] at hmessage
    split at hmessage <;> exact nomatch hmessage
  · intro hmark
    rw [if_pos hmark]
    exact ⟨_, rfl⟩

end

/-- A billing failure is raised as one exactly if its status is not 429 and a mark stands in the first
300 bytes of its body. -/
theorem billing_recognised_iff (float : Text → Option FloatValue) (e : HTTPError)
    (h : isBillingFailure e.code e.text = true) :
    ((∃ message, e.raised float = .billing message) ∧ (e.raised float).retryable = false) ↔
      e.code ≠ 429 ∧ marked billingMarks e.detail = true := by
  by_cases hlimit : e.code = 429
  · rw [raised_early hlimit]
    refine ⟨fun hraised => ?_, fun hmarked => absurd hlimit hmarked.1⟩
    obtain ⟨message, hmessage⟩ := hraised.1
    exact nomatch hmessage
  · rw [← raised_billing_iff h hlimit]
    constructor
    · exact fun hraised => ⟨hlimit, hraised.1⟩
    · intro hraised
      obtain ⟨message, hmessage⟩ := hraised.2
      exact ⟨⟨message, hmessage⟩, by rw [hmessage]; rfl⟩

def outOfQuota (code : ℤ) : HTTPError where
  code := code
  message := "HTTP Error".toList
  body := some (encode "\x7b\"code\": \"insufficient_quota\"\x7d".toList)

theorem quota_recognised : ((∃ message, (outOfQuota 403).raised (fun _ => none) = .billing message) ∧
    ((outOfQuota 403).raised fun _ => none).retryable = false) :=
  (billing_recognised_iff (fun _ => none) (outOfQuota 403) (by decide)).mpr (by decide)

theorem quota_taken_for_rate_limit : ¬ ∀ (float : Text → Option FloatValue) (e : HTTPError),
    isBillingFailure e.code e.text = true →
      (∃ message, e.raised float = .billing message) ∧ (e.raised float).retryable = false := by
  intro hclaim
  obtain ⟨⟨message, hmessage⟩, -⟩ := hclaim (fun _ => none) (outOfQuota 429) (by decide)
  rw [raised_early rfl] at hmessage
  exact nomatch hmessage

end EvoHarness.Core.Llm
