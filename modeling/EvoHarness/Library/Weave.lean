import Mathlib.Data.List.Basic

/-! A sequence as fixed pieces with fillings between them, and what a splice inside one
filling leaves of it. -/
namespace EvoHarness.Weave
variable {α : Type*}

def woven (piece : List α) (rest : List (List α × List α)) : List α :=
  piece ++ rest.flatMap fun p => p.1 ++ p.2

def pieces (piece : List α) (rest : List (List α × List α)) : List (List α) := piece :: rest.map Prod.snd

/-- The pieces stand in `t`, in order, and all that is between them is filling. -/
def Framed (fixed : List (List α)) (t : List α) : Prop :=
  ∃ piece rest, t = woven piece rest ∧ pieces piece rest = fixed

def gapsFrom : ℕ → List (List α × List α) → List (ℕ × ℕ)
  | _, [] => []
  | n, (c, p) :: rest => (n, n + c.length) :: gapsFrom (n + c.length + p.length) rest

def gaps (piece : List α) (rest : List (List α × List α)) : List (ℕ × ℕ) := gapsFrom piece.length rest

def splice (t : List α) (i j : ℕ) (r : List α) : List α := t.take i ++ r ++ t.drop j

/-- The gaps after `n` elements took the place of those from `i` to `j`. -/
def moveGaps (i j n : ℕ) (gs : List (ℕ × ℕ)) : List (ℕ × ℕ) :=
  gs.map fun g => (if g.1 ≤ i then g.1 else g.1 - (j - i) + n, if j ≤ g.2 then g.2 - (j - i) + n else g.2)

/-- The sequence cut where the gaps are, read from position `n` on. -/
def cutFrom : ℕ → List α → List (ℕ × ℕ) → List α × List (List α × List α)
  | _, t, [] => (t, [])
  | n, t, (a, b) :: gs =>
    let later := cutFrom b (t.drop (b - n)) gs
    (t.take (a - n), ((t.drop (a - n)).take (b - a), later.1) :: later.2)

/-- The gaps stand one behind the other, between `n` and `m`. -/
def Laid : ℕ → ℕ → List (ℕ × ℕ) → Prop
  | n, m, [] => n ≤ m
  | n, m, (a, b) :: gs => n ≤ a ∧ a ≤ b ∧ Laid b m gs

variable {piece t r : List α} {rest : List (List α × List α)} {i j n m : ℕ} {gs : List (ℕ × ℕ)} {g : ℕ × ℕ}

theorem woven_cons (piece c p : List α) (rest : List (List α × List α)) :
    woven piece ((c, p) :: rest) = piece ++ c ++ woven p rest := by
  simp [woven, List.append_assoc]

theorem Framed.isInfix {fixed : List (List α)} {p : List α} (h : Framed fixed t) (hp : p ∈ fixed) : p <:+: t := by
  obtain ⟨piece, rest, rfl, rfl⟩ := h
  induction rest generalizing piece with
  | nil =>
    obtain rfl := List.mem_singleton.mp hp
    simp [woven]
  | cons q rest ih =>
    obtain ⟨c, q⟩ := q
    rw [woven_cons]
    cases List.mem_cons.mp hp with
    | inl heq =>
      rw [heq, List.append_assoc]
      exact (List.prefix_append _ _).isInfix
    | inr hp =>
      have hin := ih q hp
      exact hin.trans (List.suffix_append _ _).isInfix

theorem laid_le (h : Laid n m gs) : n ≤ m := by
  induction gs generalizing n with
  | nil => exact h
  | cons g gs ih =>
    obtain ⟨a, b⟩ := g
    obtain ⟨ha, hb, hrest⟩ := h
    have := ih hrest
    omega

theorem laid_of_pairwise (hapart : gs.Pairwise fun r q => r.2 ≤ q.1) (hle : ∀ g ∈ gs, g.1 ≤ g.2)
    (hbelow : ∀ g ∈ gs, n ≤ g.1) (habove : ∀ g ∈ gs, g.2 ≤ m) (hn : n ≤ m) : Laid n m gs := by
  induction gs generalizing n with
  | nil => exact hn
  | cons g gs ih =>
    obtain ⟨hhead, htail⟩ := List.pairwise_cons.mp hapart
    have hg := List.mem_cons_self (a := g) (l := gs)
    refine ⟨hbelow g hg, hle g hg, ?_⟩
    apply ih htail
    · exact fun q hq => hle q (List.mem_cons_of_mem _ hq)
    · exact fun q hq => hhead q hq
    · exact fun q hq => habove q (List.mem_cons_of_mem _ hq)
    · exact habove g hg

theorem cutFrom_spec (h : Laid n (n + t.length) gs) :
    woven (cutFrom n t gs).1 (cutFrom n t gs).2 = t ∧
      gapsFrom (n + (cutFrom n t gs).1.length) (cutFrom n t gs).2 = gs := by
  induction gs generalizing n t with
  | nil => simp [cutFrom, woven, gapsFrom]
  | cons g gs ih =>
    obtain ⟨a, b⟩ := g
    obtain ⟨ha, hb, hrest⟩ := h
    have hend := laid_le hrest
    have hlen : (t.drop (b - n)).length = t.length - (b - n) := List.length_drop
    have hlater : Laid b (b + (t.drop (b - n)).length) gs := by
      have : b + (t.drop (b - n)).length = n + t.length := by omega
      rwa [this]
    obtain ⟨hwoven, hgaps⟩ := ih hlater
    have htake : (t.take (a - n)).length = a - n := by
      rw [List.length_take]
      omega
    have hmid : ((t.drop (a - n)).take (b - a)).length = b - a := by
      rw [List.length_take, List.length_drop]
      omega
    constructor
    · simp only [cutFrom]
      rw [woven_cons, hwoven]
      have hsplit : b - n = (a - n) + (b - a) := by omega
      rw [hsplit, ← List.drop_drop, List.append_assoc, List.take_append_drop, List.take_append_drop]
    · simp only [cutFrom, gapsFrom]
      rw [htake, hmid]
      have hstart : n + (a - n) = a := by omega
      have hstop : a + (b - a) = b := by omega
      rw [hstart, hstop, hgaps]

theorem splice_append_left {u v : List α} (hi : u.length ≤ i) (hij : i ≤ j) :
    splice (u ++ v) i j r = u ++ splice v (i - u.length) (j - u.length) r := by
  have hj : u.length ≤ j := by omega
  unfold splice
  rw [List.take_append, List.take_of_length_le hi, List.drop_append, List.drop_of_length_le hj]
  simp [List.append_assoc]

theorem splice_append_right {u v : List α} (hij : i ≤ j) (hj : j ≤ u.length) :
    splice (u ++ v) i j r = splice u i j r ++ v := by
  have hi : i ≤ u.length := by omega
  unfold splice
  rw [List.take_append_of_le_length hi, List.drop_append_of_le_length hj]
  simp [List.append_assoc]

theorem length_splice (hij : i ≤ j) (hj : j ≤ t.length) :
    (splice t i j r).length = t.length - (j - i) + r.length := by
  unfold splice
  simp only [List.length_append, List.length_take, List.length_drop]
  omega

theorem moveGaps_behind {k : ℕ} (hij : i < j) (hk : j ≤ k) (rest : List (List α × List α)) :
    moveGaps i j n (gapsFrom k rest) = gapsFrom (k - (j - i) + n) rest := by
  induction rest generalizing k with
  | nil => rfl
  | cons p rest ih =>
    obtain ⟨c, p⟩ := p
    have hstart : ¬ k ≤ i := by omega
    have hend : j ≤ k + c.length := by omega
    have hnext := ih (k := k + c.length + p.length) (by omega)
    unfold moveGaps at hnext
    simp only [gapsFrom, moveGaps, List.map_cons, hnext, hstart, hend, if_true, if_false]
    have hcount : k + c.length - (j - i) + n = k - (j - i) + n + c.length := by omega
    have hcount' : k + c.length + p.length - (j - i) + n = k - (j - i) + n + c.length + p.length := by omega
    rw [hcount, hcount']

theorem le_of_mem_gapsFrom {k : ℕ} (hg : g ∈ gapsFrom k rest) : k ≤ g.1 := by
  induction rest generalizing k with
  | nil => simp [gapsFrom] at hg
  | cons q rest ih =>
    obtain ⟨c, p⟩ := q
    cases List.mem_cons.mp hg with
    | inl heq => simp [heq]
    | inr hlater =>
      have := ih hlater
      omega

theorem splice_in_gap (hij : i < j) (hg : g ∈ gapsFrom (m + piece.length) rest) (hi : g.1 ≤ m + i)
    (hj : m + j ≤ g.2) :
    ∃ rest', splice (woven piece rest) i j r = woven piece rest' ∧ rest'.map Prod.snd = rest.map Prod.snd ∧
      gapsFrom (m + piece.length) rest' =
        moveGaps (m + i) (m + j) r.length (gapsFrom (m + piece.length) rest) := by
  induction rest generalizing m i j piece with
  | nil => simp [gapsFrom] at hg
  | cons q rest ih =>
    obtain ⟨c, p⟩ := q
    cases List.mem_cons.mp hg with
    | inl heq =>
      rw [heq] at hi hj
      simp only at hi hj
      have hstart : piece.length ≤ i := by omega
      have hstop : j - piece.length ≤ c.length := by omega
      have hfit : i - piece.length ≤ j - piece.length := by omega
      refine ⟨(splice c (i - piece.length) (j - piece.length) r, p) :: rest, ?_, rfl, ?_⟩
      · rw [woven_cons, woven_cons, List.append_assoc, splice_append_left hstart (by omega),
          splice_append_right hfit hstop, List.append_assoc]
      · have hlen := length_splice (r := r) hfit hstop
        have hbehind := moveGaps_behind (i := m + i) (j := m + j) (n := r.length)
          (k := m + piece.length + c.length + p.length) (by omega) (by omega) rest
        unfold moveGaps at hbehind
        simp only [gapsFrom, moveGaps, List.map_cons, hbehind]
        have hopen : m + piece.length ≤ m + i := by omega
        have hclose : m + j ≤ m + piece.length + c.length := by omega
        rw [if_pos hopen, if_pos hclose, hlen]
        have hcount : m + piece.length + (c.length - (j - piece.length - (i - piece.length)) + r.length) =
            m + piece.length + c.length - (m + j - (m + i)) + r.length := by omega
        have hcount' : m + piece.length + (c.length - (j - piece.length - (i - piece.length)) + r.length) +
            p.length = m + piece.length + c.length + p.length - (m + j - (m + i)) + r.length := by omega
        rw [hcount', hcount]
    | inr hlater =>
      have hbehind : m + piece.length + c.length + p.length ≤ g.1 := le_of_mem_gapsFrom hlater
      have hfront : (piece ++ c).length = piece.length + c.length := List.length_append
      have hlater' : g ∈ gapsFrom (m + (piece ++ c).length + p.length) rest := by
        rw [hfront]
        simpa [Nat.add_assoc] using hlater
      obtain ⟨rest', hsplice, hpieces, hgaps⟩ := ih (i := i - (piece ++ c).length)
        (j := j - (piece ++ c).length) (by omega) hlater' (by omega) (by omega)
      refine ⟨(c, p) :: rest', ?_, by simp [hpieces], ?_⟩
      · rw [woven_cons, woven_cons, splice_append_left (by omega) (by omega), hsplice]
      · have hi' : m + (piece ++ c).length + (i - (piece ++ c).length) = m + i := by omega
        have hj' : m + (piece ++ c).length + (j - (piece ++ c).length) = m + j := by omega
        rw [hi', hj', hfront] at hgaps
        have hk : m + (piece.length + c.length) + p.length = m + piece.length + c.length + p.length := by omega
        rw [hk] at hgaps
        have hopen : m + piece.length ≤ m + i := by omega
        have hclose : ¬ m + j ≤ m + piece.length + c.length := by omega
        simp only [gapsFrom, moveGaps, List.map_cons, hgaps]
        rw [if_pos hopen, if_neg hclose]

end EvoHarness.Weave
