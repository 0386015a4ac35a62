import EvoHarness.Renaming
import EvoHarness.Tokens

/-! What two signatures with one identity have in common: their tokens, once the
binders of one may stand behind a `∀` in the other. -/
namespace EvoHarness.Proof
open PyText
namespace Signature

def statedTokens (s : Signature) : List Text := tokens s.rest

/-- The name is set off, the binders' brackets balance and hold every comma, and white
space means no more to Lean than it does to the hasher. -/
def Clean (s : Signature) : Prop :=
  s.SetOff ∧ Balanced ':' s.binders ∧ Balanced ',' s.binders ∧ PlainText s.binders ∧
    PlainText s.conclusion

variable {s t : Signature}

theorem statedTokens_eq (h : PlainText s.binders) :
    s.statedTokens = tokens s.binders ++ ":".toList :: tokens s.conclusion := by
  have hclosed : (Reader.between.readAll (s.binders ++ s.colonGap)).2 = true := by
    rw [Reader.readAll_append_blank h.2 s.colonGap_blank, h.2]
  rw [statedTokens, rest, List.append_assoc, List.append_assoc,
    tokens_blank_append s.binderGap_blank, ← List.append_assoc, tokens_delimiter hclosed (by decide),
    tokens_blank_append s.conclusionGap_blank]
  congr 1
  rw [tokens, Reader.readAll_append_blank h.2 s.colonGap_blank, tokens]

theorem squeeze_proposition (h : s.Clean) :
    squeeze (proposition s.text) =
      if s.binders = [] then squeeze s.conclusion
      else "∀ ".toList ++ squeeze s.binders ++ ", ".toList ++ squeeze s.conclusion := by
  have hkw : "theorem".toList ∈ keywords := by decide
  have hn : LegalName "x".toList := by decide
  rw [(s.squeeze_restated_iff hkw hn).mpr h.1]
  split
  · next hb => rw [s.respell_bare hkw hn hb]
  · next hb =>
    rw [s.respell_binders hkw hn hb, propositionOf_balanced h.2.1 s.binders_trimmed hb
      s.conclusion_trimmed s.conclusion_ne (by decide) (by decide)]
    have hsq := squeeze_forall (not_isBlank_of_trimmed s.binders_trimmed hb)
      (not_isBlank_of_trimmed s.conclusion_trimmed s.conclusion_ne)
    rwa [strip_of_trimmed s.binders_trimmed, strip_of_trimmed s.conclusion_trimmed] at hsq

theorem balanced_squeeze {mark : Char} (hm : IsMark mark) {x : Text} (h : Balanced mark x) :
    Balanced mark (squeeze x) := by
  unfold Balanced
  rw [depthAfter_of_ink_eq hm ink_squeeze]
  exact h

theorem tokens_spelled_out (hs : s.Clean) (ht : t.Clean)
    (h : squeeze s.conclusion = "∀ ".toList ++ squeeze t.binders ++ ", ".toList ++ squeeze t.conclusion) :
    tokens s.conclusion = "∀".toList :: (tokens t.binders ++ ",".toList :: tokens t.conclusion) := by
  have hclosed : (Reader.between.readAll (squeeze t.binders)).2 = true := by
    rw [readAll_squeeze ht.2.2.2.1.1 t.binders_trimmed, ht.2.2.2.1.2]
  rw [← tokens_squeeze hs.2.2.2.2 s.conclusion_trimmed, h, tokens_forall hclosed,
    tokens_squeeze ht.2.2.2.1 t.binders_trimmed, tokens_squeeze ht.2.2.2.2 t.conclusion_trimmed]

end Signature

/-- Two clean signatures with one identity have the same binders and conclusion, token
for token, unless one has no binders and its conclusion is the other's `∀` over its
binders. -/
theorem merged_same_tokens {sha256 : Text → Text} (hsha : Function.Injective sha256) (s t : Signature)
    (hs : s.Clean) (ht : t.Clean) (h : exactText sha256 s.text = exactText sha256 t.text) :
    (s.statedTokens = t.statedTokens ∧ tokens s.binders = tokens t.binders ∧
        tokens s.conclusion = tokens t.conclusion) ∨
      (s.binders = [] ∧ tokens s.conclusion =
        "∀".toList :: (tokens t.binders ++ ",".toList :: tokens t.conclusion)) ∨
      (t.binders = [] ∧ tokens t.conclusion =
        "∀".toList :: (tokens s.binders ++ ",".toList :: tokens s.conclusion)) := by
  have heq := (exactText_inj hsha).mp h
  rw [Signature.squeeze_proposition hs, Signature.squeeze_proposition ht] at heq
  -- the same binders and the same conclusion, as texts, give the same tokens
  have same : squeeze s.binders = squeeze t.binders → squeeze s.conclusion = squeeze t.conclusion →
      s.statedTokens = t.statedTokens ∧ tokens s.binders = tokens t.binders ∧
        tokens s.conclusion = tokens t.conclusion := by
    intro hb hc
    have hb' : tokens s.binders = tokens t.binders := by
      rw [← tokens_squeeze hs.2.2.2.1 s.binders_trimmed, hb, tokens_squeeze ht.2.2.2.1 t.binders_trimmed]
    have hc' : tokens s.conclusion = tokens t.conclusion := by
      rw [← tokens_squeeze hs.2.2.2.2 s.conclusion_trimmed, hc,
        tokens_squeeze ht.2.2.2.2 t.conclusion_trimmed]
    refine ⟨?_, hb', hc'⟩
    rw [Signature.statedTokens_eq hs.2.2.2.1, Signature.statedTokens_eq ht.2.2.2.1, hb', hc']
  by_cases hsb : s.binders = [] <;> by_cases htb : t.binders = []
  · rw [if_pos hsb, if_pos htb] at heq
    exact Or.inl (same (by rw [hsb, htb]) heq)
  · rw [if_pos hsb, if_neg htb] at heq
    exact Or.inr (Or.inl ⟨hsb, Signature.tokens_spelled_out hs ht heq⟩)
  · rw [if_neg hsb, if_pos htb] at heq
    exact Or.inr (Or.inr ⟨htb, Signature.tokens_spelled_out ht hs heq.symm⟩)
  · rw [if_neg hsb, if_neg htb] at heq
    -- the first comma outside brackets ends the binders on both sides
    have hcut : squeeze s.binders ++ ',' :: (' ' :: squeeze s.conclusion) =
        squeeze t.binders ++ ',' :: (' ' :: squeeze t.conclusion) := by
      simpa using heq
    obtain ⟨hb, hc⟩ := depthAfter_unique isMark_comma
      (Signature.balanced_squeeze isMark_comma hs.2.2.1)
      (Signature.balanced_squeeze isMark_comma ht.2.2.1) hcut
    exact Or.inl (same hb (List.cons.inj hc).2)

theorem merged_same_tokens_forall :
    tokens forallForm.conclusion =
      "∀".toList :: (tokens binderForm.binders ++ ",".toList :: tokens binderForm.conclusion) := by
  have hs : binderForm.Clean := by unfold Signature.Clean Signature.SetOff; decide
  have ht : forallForm.Clean := by unfold Signature.Clean Signature.SetOff; decide
  rcases merged_same_tokens Function.injective_id binderForm forallForm hs ht (by decide) with
    ⟨_, h, _⟩ | ⟨h, _⟩ | ⟨_, h⟩
  · exact absurd h (by decide)
  · exact absurd h (by decide)
  · exact h

/-- One identity, two token sequences: binders written behind a `∀`, and a hypothesis
that goes with the name it is glued to. -/
theorem merged_other_tokens :
    (exactText id binderForm.text = exactText id forallForm.text ∧
        binderForm.statedTokens ≠ forallForm.statedTokens) ∧
      exactText id binderGlued.text = exactText id noBinder.text ∧
        binderGlued.statedTokens ≠ noBinder.statedTokens := by
  decide

end EvoHarness.Proof
