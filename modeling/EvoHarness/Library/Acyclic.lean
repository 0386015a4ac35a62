import Mathlib.Data.Finset.Card
import Mathlib.Logic.Relation

/-! Acyclic relations: when a fan of new edges out of one node keeps the relation
acyclic, and the rank an acyclic relation with finitely many targets has. -/
namespace EvoHarness.Dag
open Relation
variable {α : Type*}

def Acyclic (r : α → α → Prop) : Prop := ∀ a, ¬ TransGen r a a

def addFan (r : α → α → Prop) (p : α) (T : α → Prop) (a b : α) : Prop :=
  r a b ∨ (a = p ∧ T b)

theorem Acyclic.mono {r s : α → α → Prop} (hs : Acyclic s) (h : ∀ a b, r a b → s a b) :
    Acyclic r :=
  fun a ha => hs a (TransGen.mono h _ _ ha)

/-- A path in the fan either avoids the new edges or leaves its last new target
by an old path. -/
theorem path_addFan {r : α → α → Prop} {p : α} {T : α → Prop} {a b : α}
    (h : TransGen (addFan r p T) a b) :
    TransGen r a b ∨ ((a = p ∨ TransGen (addFan r p T) a p) ∧ ∃ t, T t ∧ ReflTransGen r t b) := by
  induction h with
  | single hab =>
    rcases hab with hab | ⟨rfl, hT⟩
    · exact Or.inl (.single hab)
    · exact Or.inr ⟨Or.inl rfl, _, hT, .refl⟩
  | tail hab hbc ih =>
    rcases hbc with hbc | ⟨rfl, hT⟩
    · rcases ih with ih | ⟨hp, t, hT, ht⟩
      · exact Or.inl (ih.tail hbc)
      · exact Or.inr ⟨hp, t, hT, ht.tail hbc⟩
    · exact Or.inr ⟨Or.inr hab, _, hT, .refl⟩

/-- The new edges close no cycle exactly when no new target already leads to `p`. -/
theorem acyclic_addFan_iff {r : α → α → Prop} {p : α} {T : α → Prop} (hr : Acyclic r) :
    Acyclic (addFan r p T) ↔ ∀ t, T t → ¬ ReflTransGen r t p := by
  constructor
  · intro h t hT ht
    have hold : ReflTransGen (addFan r p T) t p := ReflTransGen.mono (fun _ _ => Or.inl) _ _ ht
    have hnew : addFan r p T p t := Or.inr ⟨rfl, hT⟩
    exact h p (TransGen.head' hnew hold)
  · intro h a ha
    -- a cycle through a new edge gives an old path from a new target to `p`
    have key : ∀ {c}, TransGen (addFan r p T) p c → c = p → False := by
      intro c hc hcp
      subst hcp
      rcases path_addFan hc with hold | ⟨_, t, hT, ht⟩
      · exact hr _ hold
      · exact h t hT ht
    rcases path_addFan ha with hold | ⟨hap | hap, t, hT, ht⟩
    · exact hr a hold
    · subst hap
      exact key ha rfl
    · have hpa : TransGen (addFan r p T) p a :=
        TransGen.head' (Or.inr ⟨rfl, hT⟩) (ReflTransGen.mono (fun _ _ => Or.inl) _ _ ht)
      exact key (hpa.trans hap) rfl

theorem Acyclic.exists_rank {r : α → α → Prop} (hr : Acyclic r) (S : Finset α)
    (hS : ∀ a b, r a b → b ∈ S) :
    ∃ rank : α → ℕ, (∀ a, rank a ≤ S.card) ∧ ∀ a b, r a b → rank b < rank a := by
  classical
  let below : α → Finset α := fun a => S.filter fun b => TransGen r a b
  refine ⟨fun a => (below a).card, fun a => Finset.card_filter_le _ _, fun a b hab => ?_⟩
  apply Finset.card_lt_card
  rw [Finset.ssubset_iff_of_subset]
  · exact ⟨b, by simp [below, hS a b hab, TransGen.single hab], by simp [below, hr b]⟩
  · intro c hc
    simp only [below, Finset.mem_filter] at hc ⊢
    exact ⟨hc.1, TransGen.head hab hc.2⟩

end EvoHarness.Dag
