import EvoHarness.Core.IslandMigration
import Mathlib.Data.List.Lex
import Mathlib.Data.Prod.Lex
import Mathlib.Order.WithBot

/-! The archive: which candidates may breed, and how a refresh marks them. -/
namespace EvoHarness.Core.Population.Archiving
open PyText

/-- A float that is no NaN: a finite one, or an infinity. -/
abbrev Measure := WithBot (WithTop ℚ)

def Measure.finite (q : ℚ) : Measure := ((q : WithTop ℚ) : WithBot (WithTop ℚ))

/-- A value of `visible_metrics`: a number, as the float it is read as, or something else (a truth value among them). -/
inductive MetricValue where
  | number (x : Measure)
  | other

structure Facts where
  behaviorDuplicate : Bool := false
  visibleMetrics : List (Text × MetricValue) := []

/-- A row, with `α` for the columns a refresh does not read. -/
abbrev ArchiveRow (α : Type) := Row Facts α

inductive UpdateStrategy where
  | fitness
  | featureBuckets
  deriving DecidableEq

/-- `floorDiv v` is `math.floor(v / archive_feature_bucket)`, or nothing where the quotient is too large a float. -/
structure ArchiveConfig where
  archiveSize : ℤ := 40
  archiveUpdateStrategy : UpdateStrategy := .fitness
  archiveFeatureMetric : Text := []
  archiveFeatureBucket : ℚ := 0
  archiveFeatureQuality : Text := []
  archiveFeatureReserve : ℤ := 0
  floorDiv : ℚ → Option ℤ

/-- The floor of the quotient; that of an infinity raises. -/
def ArchiveConfig.index (cfg : ArchiveConfig) : Measure → Option ℤ
  | some (some v) => cfg.floorDiv v
  | _ => none

section
variable {α : Type} (cfg : ArchiveConfig)

def metric (c : ArchiveRow α) (key : Text) : Option Measure :=
  if key = [] ∨ c.report = none then none
  else
    match c.columns.visibleMetrics.lookup key with
    | some (.number x) => some x
    | _ => none

def feature (c : ArchiveRow α) : Option Measure := metric c cfg.archiveFeatureMetric

def quality (c : ArchiveRow α) : Measure := (metric c cfg.archiveFeatureQuality).getD (.finite c.fitness)

/-- The key of the archive's order: at equal fitness the cheaper one, and what has no feature last. -/
def rank (c : ArchiveRow α) : ℚ ×ₗ OrderDual Measure ×ₗ Text :=
  toLex (c.fitness, toLex (OrderDual.toDual ((feature cfg c).getD ⊤), c.id))

def standing (c : ArchiveRow α) : Measure ×ₗ Text := toLex (quality cfg c, c.id)

def descending {β κ : Type} [LinearOrder κ] (key : β → κ) (cands : List β) : List β :=
  cands.mergeSort fun a b => decide (key b ≤ key a)

def bucketOf (c : ArchiveRow α) : Option ℤ :=
  if cfg.archiveFeatureMetric = [] ∨ cfg.archiveFeatureBucket ≤ 0 then none else (feature cfg c).bind cfg.index

/-- Its feature has no floor, and `_bucket_elites` asks for it. -/
def Overflows (c : ArchiveRow α) : Prop :=
  cfg.archiveUpdateStrategy = .featureBuckets ∧ cfg.archiveFeatureMetric ≠ [] ∧ 0 < cfg.archiveFeatureBucket ∧
    ∃ v ∈ feature cfg c, cfg.index v = none

instance (c : ArchiveRow α) : Decidable (Overflows cfg c) := inferInstanceAs (Decidable (_ ∧ _ ∧ _ ∧ _))

def hold (best : List (ℤ × ArchiveRow α)) (c : ArchiveRow α) : List (ℤ × ArchiveRow α) :=
  match bucketOf cfg c with
  | none => best
  | some i =>
    match best.find? (·.1 = i) with
    | none => best ++ [(i, c)]
    | some held =>
      if standing cfg held.2 < standing cfg c then best.map fun e => if e.1 = i then (i, c) else e else best

def bucketElites (cands : List (ArchiveRow α)) : List (ArchiveRow α) :=
  descending (standing cfg) ((cands.foldl (hold cfg) []).map Prod.snd)

def Eligible (c : ArchiveRow α) : Prop := c.passed = true ∧ c.columns.behaviorDuplicate = false

instance (c : ArchiveRow α) : Decidable (Eligible c) := inferInstanceAs (Decidable (_ ∧ _))

def eligibleRows (rows : List (ArchiveRow α)) : List (ArchiveRow α) := rows.filter fun c => decide (Eligible c)

/-- `for cand in cands: if len(keep) >= size: break; keep[cand.id] = None` -/
def keepUpTo (size : ℤ) : List Text → List Text → List Text
  | [], keep => keep
  | id :: rest, keep =>
    if size ≤ keep.length then keep
    else if id ∈ keep then keepUpTo size rest keep
    else keepUpTo size rest (keep ++ [id])

def reserve : ℤ := max 0 (min cfg.archiveFeatureReserve cfg.archiveSize)

def placed (cands : List (ArchiveRow α)) : List (ArchiveRow α) := (bucketElites cfg cands).take (reserve cfg).toNat

def reserved (cands : List (ArchiveRow α)) : List Text :=
  if cfg.archiveUpdateStrategy = .featureBuckets then (placed cfg cands).map (·.id) else []

def ranked (rows : List (ArchiveRow α)) : List (ArchiveRow α) := descending (rank cfg) (eligibleRows rows)

def keep (rows : List (ArchiveRow α)) : List Text :=
  keepUpTo cfg.archiveSize ((ranked cfg rows).map (·.id)) (reserved cfg (ranked cfg rows))

/-- The rows after the two updates. -/
def refreshed (rows : List (ArchiveRow α)) : List (ArchiveRow α) :=
  rows.map fun r => { r with inArchive := decide (r.id ∈ keep cfg rows) }

inductive ArchiveFault where
  | overflowError

/-- The buckets are made before any row is written. -/
def refreshArchive (rows : List (ArchiveRow α)) : Except ArchiveFault (List (ArchiveRow α)) :=
  if ∃ c ∈ ranked cfg rows, Overflows cfg c then .error .overflowError else .ok (refreshed cfg rows)

end

section
variable {α : Type} (cfg : ArchiveConfig)

def archived (rows : List (ArchiveRow α)) : List (ArchiveRow α) := rows.filter (·.inArchive)

structure IsElite (rows : List (ArchiveRow α)) (i : ℤ) (c : ArchiveRow α) : Prop where
  eligible : c ∈ eligibleRows rows
  bucket : bucketOf cfg c = some i
  best : ∀ d ∈ eligibleRows rows, bucketOf cfg d = some i → standing cfg d ≤ standing cfg c

def occupied (rows : List (ArchiveRow α)) : Finset ℤ := ((eligibleRows rows).filterMap (bucketOf cfg)).toFinset

/-- Buckets whose elites have a place, as many as there are places, and none better is left out. -/
structure Represented (rows after : List (ArchiveRow α)) (places : ℕ) (buckets : Finset ℤ) : Prop where
  subset : buckets ⊆ occupied cfg rows
  card : buckets.card = min places (occupied cfg rows).card
  kept : ∀ i ∈ buckets, ∀ c, IsElite cfg rows i c → c.id ∈ (archived after).map (·.id)
  better : ∀ i ∈ buckets, ∀ j ∈ occupied cfg rows, j ∉ buckets → ∀ c d, IsElite cfg rows i c → IsElite cfg rows j d →
    quality cfg d ≤ quality cfg c

def HasFittest (rows after : List (ArchiveRow α)) : Prop :=
  ∃ c ∈ archived after, ∀ d ∈ eligibleRows rows, d.fitness ≤ c.fitness

/-- The reserve is as large as the archive, and enough buckets are occupied to use it up. -/
def AllReserved (rows : List (ArchiveRow α)) : Prop :=
  cfg.archiveUpdateStrategy = .featureBuckets ∧ cfg.archiveSize ≤ cfg.archiveFeatureReserve ∧
    cfg.archiveSize ≤ (occupied cfg rows).card

structure RightSet (rows after : List (ArchiveRow α)) : Prop where
  count : (archived after).length = min cfg.archiveSize.toNat (eligibleRows rows).length
  eligible : ∀ c ∈ archived after, Eligible c
  fittest : 0 < cfg.archiveSize → eligibleRows rows ≠ [] → HasFittest rows after ∨ AllReserved cfg rows
  ordered : cfg.archiveUpdateStrategy = .fitness → ∀ c ∈ archived after,
    ∀ d ∈ eligibleRows after, d.inArchive = false → d.fitness ≤ c.fitness
  elites : cfg.archiveUpdateStrategy = .featureBuckets →
    ∃ buckets, Represented cfg rows after (min cfg.archiveFeatureReserve cfg.archiveSize).toNat buckets
  marked : after.map (fun r => { r with inArchive := false }) =
    rows.map fun r => { r with inArchive := false }

end

section
variable {β κ : Type} [LinearOrder κ] {key : β → κ} {cands : List β} {c : β}

theorem descending_perm : (descending key cands).Perm cands := List.mergeSort_perm ..

theorem mem_descending : c ∈ descending key cands ↔ c ∈ cands := descending_perm.mem_iff

theorem descending_pairwise : (descending key cands).Pairwise fun a b => key b ≤ key a := by
  have hsorted : (descending key cands).Pairwise fun a b => decide (key b ≤ key a) = true := by
    apply List.pairwise_mergeSort
    · intro a b c hab hbc
      rw [decide_eq_true_eq] at hab hbc ⊢
      exact hbc.trans hab
    · intro a b
      rw [Bool.or_eq_true, decide_eq_true_eq, decide_eq_true_eq]
      exact le_total (key b) (key a)
  exact hsorted.imp fun h => of_decide_eq_true h

end

theorem keepUpTo_eq {size : ℤ} {ids keep : List Text} (hids : ids.Nodup) :
    keepUpTo size ids keep = keep ++ (ids.filter (· ∉ keep)).take (size.toNat - keep.length) := by
  induction ids generalizing keep with
  | nil => simp [keepUpTo]
  | cons id rest ih =>
    rw [List.nodup_cons] at hids
    unfold keepUpTo
    split
    · have hfull : size.toNat - keep.length = 0 := by omega
      rw [hfull, List.take_zero, List.append_nil]
    · next hroom =>
      split
      · next hmem => rw [ih hids.2, List.filter_cons_of_neg (by simp [hmem])]
      · next hnew =>
        have hrest : rest.filter (· ∉ keep ++ [id]) = rest.filter (· ∉ keep) := by
          apply List.filter_congr
          intro j hj
          have hne : j ≠ id := fun h => hids.1 (h ▸ hj)
          simp [hne]
        have hsucc : size.toNat - keep.length = size.toNat - (keep ++ [id]).length + 1 := by
          rw [List.length_append, List.length_singleton]
          omega
        rw [ih hids.2, hrest, List.filter_cons_of_pos (by simp [hnew]), hsucc, List.take_succ_cons, List.append_assoc]
        rfl

section
variable {α : Type} {cfg : ArchiveConfig} {rows cands done : List (ArchiveRow α)} {best : List (ℤ × ArchiveRow α)}
  {c : ArchiveRow α} {i : ℤ}

structure Held (cfg : ArchiveConfig) (done : List (ArchiveRow α)) (best : List (ℤ × ArchiveRow α)) : Prop where
  distinct : (best.map Prod.fst).Nodup
  elite : ∀ e ∈ best, e.2 ∈ done ∧ bucketOf cfg e.2 = some e.1 ∧
    ∀ d ∈ done, bucketOf cfg d = some e.1 → standing cfg d ≤ standing cfg e.2
  all : ∀ d ∈ done, ∀ i, bucketOf cfg d = some i → ∃ e ∈ best, e.1 = i

theorem forall_snoc {P : ArchiveRow α → Prop} (h : ∀ d ∈ done, P d) (hc : P c) : ∀ d ∈ done ++ [c], P d := by
  intro d hd
  cases List.mem_append.mp hd with
  | inl hd => exact h d hd
  | inr hd => rwa [List.mem_singleton.mp hd]

theorem Held.skip (h : Held cfg done best)
    (hc : ∀ i, bucketOf cfg c = some i → ∃ e ∈ best, e.1 = i ∧ standing cfg c ≤ standing cfg e.2) :
    Held cfg (done ++ [c]) best := by
  refine ⟨h.distinct, fun e he => ?_, forall_snoc h.all fun i hi => ?_⟩
  · obtain ⟨hmem, hb, hbest⟩ := h.elite e he
    refine ⟨List.mem_append_left _ hmem, hb, forall_snoc hbest fun hi => ?_⟩
    obtain ⟨f, hf, hkey, hle⟩ := hc e.1 hi
    rwa [List.inj_on_of_nodup_map h.distinct he hf hkey.symm]
  · obtain ⟨e, he, hkey, _⟩ := hc i hi
    exact ⟨e, he, hkey⟩

theorem Held.enter (h : Held cfg done best) (hc : bucketOf cfg c = some i) (hfree : ∀ e ∈ best, e.1 ≠ i) :
    Held cfg (done ++ [c]) (best ++ [(i, c)]) := by
  constructor
  · rw [List.map_append, List.nodup_append]
    refine ⟨h.distinct, List.nodup_singleton _, fun j hj k hk heq => ?_⟩
    obtain ⟨e, he, hj⟩ := List.mem_map.mp hj
    rw [List.map_singleton, List.mem_singleton] at hk
    exact hfree e he (by rw [hj, heq, hk])
  · intro e he
    cases List.mem_append.mp he with
    | inl he =>
      obtain ⟨hmem, hb, hbest⟩ := h.elite e he
      refine ⟨List.mem_append_left _ hmem, hb, forall_snoc hbest fun hi => ?_⟩
      rw [hc] at hi
      exact absurd (Option.some.inj hi).symm (hfree e he)
    | inr he =>
      rw [List.mem_singleton.mp he]
      refine ⟨by simp, hc, forall_snoc (fun d hd hi => ?_) fun _ => le_refl _⟩
      obtain ⟨e, he, hkey⟩ := h.all d hd i hi
      exact absurd hkey (hfree e he)
  · refine forall_snoc (fun d hd j hj => ?_) fun j hj => ?_
    · obtain ⟨e, he, hkey⟩ := h.all d hd j hj
      exact ⟨e, List.mem_append_left _ he, hkey⟩
    · rw [hc] at hj
      exact ⟨(i, c), by simp, Option.some.inj hj⟩

theorem Held.replace (h : Held cfg done best) (hc : bucketOf cfg c = some i) {held : ℤ × ArchiveRow α}
    (hheld : held ∈ best) (hkey : held.1 = i) (hlt : standing cfg held.2 < standing cfg c) :
    Held cfg (done ++ [c]) (best.map fun e => if e.1 = i then (i, c) else e) := by
  have hkeys : (best.map fun e => if e.1 = i then (i, c) else e).map Prod.fst = best.map Prod.fst := by
    rw [List.map_map]
    apply List.map_congr_left
    intro e _
    by_cases he : e.1 = i
    · simp [he]
    · simp [he]
  constructor
  · rw [hkeys]
    exact h.distinct
  · intro e he
    obtain ⟨f, hf, rfl⟩ := List.mem_map.mp he
    by_cases hi : f.1 = i
    · rw [if_pos hi]
      refine ⟨by simp, hc, forall_snoc (fun d hd hj => ?_) fun _ => le_refl _⟩
      have hbest := (h.elite held hheld).2.2 d hd
      rw [hkey] at hbest
      exact (hbest hj).trans hlt.le
    · rw [if_neg hi]
      obtain ⟨hmem, hb, hbest⟩ := h.elite f hf
      refine ⟨List.mem_append_left _ hmem, hb, forall_snoc hbest fun hj => ?_⟩
      rw [hc] at hj
      exact absurd (Option.some.inj hj).symm hi
  · intro d hd j hj
    have hin : j ∈ best.map Prod.fst := by
      cases List.mem_append.mp hd with
      | inl hd =>
        obtain ⟨e, he, hj⟩ := h.all d hd j hj
        exact hj ▸ List.mem_map_of_mem he
      | inr hd =>
        rw [List.mem_singleton.mp hd, hc] at hj
        rw [← Option.some.inj hj, ← hkey]
        exact List.mem_map_of_mem hheld
    rw [← hkeys] at hin
    obtain ⟨e, he, hj⟩ := List.mem_map.mp hin
    exact ⟨e, he, hj⟩

theorem Held.snoc (h : Held cfg done best) (c : ArchiveRow α) : Held cfg (done ++ [c]) (hold cfg best c) := by
  unfold hold
  cases hbucket : bucketOf cfg c with
  | none => exact h.skip fun i hi => by rw [hbucket] at hi; cases hi
  | some i =>
    cases hfind : best.find? (·.1 = i) with
    | none =>
      simp only [hfind]
      exact h.enter hbucket fun e he => by simpa using List.find?_eq_none.mp hfind e he
    | some held =>
      have hheld : held ∈ best := List.mem_of_find?_eq_some hfind
      have hkey : held.1 = i := by simpa using List.find?_some hfind
      simp only [hfind]
      split
      · next hlt => exact h.replace hbucket hheld hkey hlt
      · next hle =>
        refine h.skip fun j hj => ⟨held, hheld, ?_, not_lt.mp hle⟩
        rw [hbucket] at hj
        exact hkey.trans (Option.some.inj hj)

theorem held_foldl (cands : List (ArchiveRow α)) (h : Held cfg done best) :
    Held cfg (done ++ cands) (cands.foldl (hold cfg) best) := by
  induction cands generalizing done best with
  | nil => simpa using h
  | cons c cands ih =>
    have hstep := ih (h.snoc c)
    rwa [List.append_assoc, List.singleton_append] at hstep

theorem held_all (cands : List (ArchiveRow α)) : Held cfg cands (cands.foldl (hold cfg) []) := by
  have hnil : Held cfg ([] : List (ArchiveRow α)) [] :=
    ⟨List.nodup_nil, fun _ h => absurd h List.not_mem_nil, fun _ h => absurd h List.not_mem_nil⟩
  exact held_foldl cands hnil

structure Elites (cfg : ArchiveConfig) (cands elites : List (ArchiveRow α)) : Prop where
  distinct : (elites.map (bucketOf cfg)).Nodup
  elite : ∀ c ∈ elites, c ∈ cands ∧ ∃ i, bucketOf cfg c = some i ∧
    ∀ d ∈ cands, bucketOf cfg d = some i → standing cfg d ≤ standing cfg c
  all : ∀ d ∈ cands, ∀ i, bucketOf cfg d = some i → ∃ c ∈ elites, bucketOf cfg c = some i
  sorted : elites.Pairwise fun a b => standing cfg b ≤ standing cfg a

theorem bucketElites_elites (cands : List (ArchiveRow α)) : Elites cfg cands (bucketElites cfg cands) := by
  have hheld : Held cfg cands (cands.foldl (hold cfg) []) := held_all cands
  have hmem : ∀ c, c ∈ bucketElites cfg cands ↔ ∃ e ∈ cands.foldl (hold cfg) [], e.2 = c := by
    intro c
    rw [bucketElites, mem_descending, List.mem_map]
  constructor
  · have hbuckets : ((cands.foldl (hold cfg) []).map Prod.snd).map (bucketOf cfg) =
        ((cands.foldl (hold cfg) []).map Prod.fst).map some := by
      rw [List.map_map, List.map_map]
      apply List.map_congr_left
      intro e he
      exact (hheld.elite e he).2.1
    rw [bucketElites, (descending_perm.map _).nodup_iff, hbuckets]
    exact hheld.distinct.map (Option.some_injective _)
  · intro c hc
    obtain ⟨e, he, rfl⟩ := (hmem c).mp hc
    obtain ⟨hin, hbucket, hbest⟩ := hheld.elite e he
    exact ⟨hin, e.1, hbucket, hbest⟩
  · intro d hd i hi
    obtain ⟨e, he, hkey⟩ := hheld.all d hd i hi
    exact ⟨e.2, (hmem e.2).mpr ⟨e, he, rfl⟩, hkey ▸ (hheld.elite e he).2.1⟩
  · exact descending_pairwise

/-- Of candidates that all have a bucket, and different ones, the buckets are as many. -/
theorem filterMap_buckets {elites : List (ArchiveRow α)} (hall : ∀ c ∈ elites, ∃ i, bucketOf cfg c = some i)
    (hdistinct : (elites.map (bucketOf cfg)).Nodup) :
    (elites.filterMap (bucketOf cfg)).Nodup ∧ (elites.filterMap (bucketOf cfg)).length = elites.length := by
  have hsome : (elites.filterMap (bucketOf cfg)).map some = elites.map (bucketOf cfg) := by
    induction elites with
    | nil => rfl
    | cons c elites ih =>
      rw [List.forall_mem_cons] at hall
      rw [List.map_cons, List.nodup_cons] at hdistinct
      obtain ⟨i, hi⟩ := hall.1
      rw [List.filterMap_cons_some hi, List.map_cons, List.map_cons, hi, ih hall.2 hdistinct.2]
  constructor
  · refine List.Nodup.of_map some ?_
    rw [hsome]
    exact hdistinct
  · rw [← List.length_map some, hsome, List.length_map]

theorem mem_eligibleRows : c ∈ eligibleRows rows ↔ c ∈ rows ∧ Eligible c := by
  rw [eligibleRows, List.mem_filter, decide_eq_true_eq]

theorem mem_ranked : c ∈ ranked cfg rows ↔ c ∈ rows ∧ Eligible c := by
  rw [ranked, mem_descending, mem_eligibleRows]

theorem ranked_distinct (hids : (rows.map (·.id)).Nodup) : ((ranked cfg rows).map (·.id)).Nodup := by
  rw [ranked, (descending_perm.map _).nodup_iff]
  exact hids.sublist (List.filter_sublist.map _)

theorem reserved_subset : ∀ id ∈ reserved cfg cands, id ∈ cands.map (·.id) := by
  intro id hid
  unfold reserved at hid
  split at hid
  · obtain ⟨c, hc, rfl⟩ := List.mem_map.mp hid
    exact List.mem_map_of_mem ((bucketElites_elites cands).elite c (List.mem_of_mem_take hc)).1
  · cases hid

theorem reserve_toNat : (reserve cfg).toNat = (min cfg.archiveFeatureReserve cfg.archiveSize).toNat := by
  unfold reserve
  omega

theorem length_reserved : (reserved cfg cands).length ≤ cfg.archiveSize.toNat := by
  unfold reserved
  split
  · rw [List.length_map, placed, List.length_take, reserve_toNat]
    exact (min_le_left _ _).trans (Int.toNat_le_toNat (min_le_right _ _))
  · exact Nat.zero_le _

theorem reserved_distinct (hids : (cands.map (·.id)).Nodup) : (reserved cfg cands).Nodup := by
  unfold reserved
  split
  · have helites : Elites cfg cands (bucketElites cfg cands) := bucketElites_elites cands
    have hall : ((bucketElites cfg cands).map (·.id)).Nodup := by
      have hpairs := List.pairwise_map.mp helites.distinct
      refine List.pairwise_map.mpr (hpairs.imp_of_mem fun {a b} ha hb hne hid => hne ?_)
      rw [List.inj_on_of_nodup_map hids (helites.elite a ha).1 (helites.elite b hb).1 hid]
    exact hall.sublist ((List.take_sublist _ _).map _)
  · exact List.nodup_nil

theorem keep_eq (hids : (rows.map (·.id)).Nodup) : keep cfg rows =
    reserved cfg (ranked cfg rows) ++
      (((ranked cfg rows).map (·.id)).filter
        (· ∉ reserved cfg (ranked cfg rows))).take
        (cfg.archiveSize.toNat - (reserved cfg (ranked cfg rows)).length) :=
  keepUpTo_eq (ranked_distinct hids)

theorem keep_subset (hids : (rows.map (·.id)).Nodup) {id : Text} (h : id ∈ keep cfg rows) :
    ∃ c ∈ rows, Eligible c ∧ c.id = id := by
  have hin : id ∈ (ranked cfg rows).map (·.id) := by
    rw [keep_eq hids] at h
    cases List.mem_append.mp h with
    | inl h => exact reserved_subset id h
    | inr h => exact (List.mem_filter.mp (List.mem_of_mem_take h)).1
  obtain ⟨c, hc, hid⟩ := List.mem_map.mp hin
  rw [mem_ranked] at hc
  exact ⟨c, hc.1, hc.2, hid⟩

theorem keep_distinct (hids : (rows.map (·.id)).Nodup) : (keep cfg rows).Nodup := by
  rw [keep_eq hids, List.nodup_append]
  refine ⟨reserved_distinct (ranked_distinct hids), ?_, fun a ha b hb heq => ?_⟩
  · exact ((ranked_distinct hids).filter _).sublist (List.take_sublist _ _)
  · have hnew := (List.mem_filter.mp (List.mem_of_mem_take hb)).2
    rw [← heq] at hnew
    simp [ha] at hnew

theorem length_keep (hids : (rows.map (·.id)).Nodup) :
    (keep cfg rows).length = min cfg.archiveSize.toNat (eligibleRows rows).length := by
  have hcands : ((ranked cfg rows).map (·.id)).Nodup := ranked_distinct hids
  have hlength : ((ranked cfg rows).map (·.id)).length = (eligibleRows rows).length := by
    rw [List.length_map, ranked, descending_perm.length_eq]
  have hle : (reserved cfg (ranked cfg rows)).length ≤ cfg.archiveSize.toNat := length_reserved
  have hkept : (((ranked cfg rows).map (·.id)).filter
      (· ∈ reserved cfg (ranked cfg rows))).length =
        (reserved cfg (ranked cfg rows)).length := by
    refine List.Perm.length_eq ((List.perm_ext_iff_of_nodup (hcands.filter _) (reserved_distinct hcands)).mpr fun id => ?_)
    rw [List.mem_filter, decide_eq_true_eq]
    exact ⟨fun h => h.2, fun h => ⟨reserved_subset id h, h⟩⟩
  have hsplit := List.length_eq_length_filter_add (l := (ranked cfg rows).map (·.id))
    (fun id => decide (id ∈ reserved cfg (ranked cfg rows)))
  rw [hlength, hkept] at hsplit
  have hnew : ((ranked cfg rows).map (·.id)).filter
      (fun id => !decide (id ∈ reserved cfg (ranked cfg rows))) =
      ((ranked cfg rows).map (·.id)).filter
        (· ∉ reserved cfg (ranked cfg rows)) := by
    apply List.filter_congr
    intro id _
    rw [decide_not]
  rw [hnew] at hsplit
  rw [keep_eq hids, List.length_append, List.length_take, hsplit]
  omega

theorem archived_refresh : archived (refreshed cfg rows) =
    (rows.filter fun r => decide (r.id ∈ keep cfg rows)).map fun r => { r with inArchive := true } := by
  unfold archived refreshed
  generalize keep cfg rows = kept
  induction rows with
  | nil => rfl
  | cons r rows ih =>
    by_cases h : r.id ∈ kept
    · simp [h, ih]
    · simp [h, ih]

theorem archived_ids (hids : (rows.map (·.id)).Nodup) :
    ((archived (refreshed cfg rows)).map (·.id)).Perm (keep cfg rows) := by
  have hmap : (archived (refreshed cfg rows)).map (·.id) =
      (rows.filter fun r => decide (r.id ∈ keep cfg rows)).map (·.id) := by
    rw [archived_refresh, List.map_map]
    rfl
  rw [hmap]
  refine (List.perm_ext_iff_of_nodup (hids.sublist (List.filter_sublist.map _)) (keep_distinct hids)).mpr fun id => ?_
  constructor
  · intro h
    obtain ⟨c, hc, rfl⟩ := List.mem_map.mp h
    simpa using (List.mem_filter.mp hc).2
  · intro h
    obtain ⟨c, hc, _, rfl⟩ := keep_subset hids h
    exact List.mem_map_of_mem (List.mem_filter.mpr ⟨hc, by simpa using h⟩)

theorem mem_archived_ids (hids : (rows.map (·.id)).Nodup) {id : Text} :
    id ∈ (archived (refreshed cfg rows)).map (·.id) ↔ id ∈ keep cfg rows := (archived_ids hids).mem_iff

theorem rank_fitness {a b : ArchiveRow α} (h : rank cfg a ≤ rank cfg b) : a.fitness ≤ b.fitness :=
  (Prod.Lex.toLex_le_toLex.mp h).elim le_of_lt fun h => le_of_eq h.1

theorem standing_quality {a b : ArchiveRow α} (h : standing cfg a ≤ standing cfg b) : quality cfg a ≤ quality cfg b :=
  (Prod.Lex.toLex_le_toLex.mp h).elim le_of_lt fun h => le_of_eq h.1

theorem standing_id {a b : ArchiveRow α} (h : standing cfg a = standing cfg b) : a.id = b.id :=
  congrArg (fun s => (ofLex s).2) h

theorem length_bucketElites : (bucketElites cfg (ranked cfg rows)).length = (occupied cfg rows).card := by
  have helites : Elites cfg (ranked cfg rows) (bucketElites cfg (ranked cfg rows)) := bucketElites_elites _
  obtain ⟨hnodup, hlength⟩ := filterMap_buckets
    (fun c hc => (helites.elite c hc).2.imp fun _ h => h.1) helites.distinct
  rw [← hlength, ← List.toFinset_card_of_nodup hnodup]
  congr 1
  ext i
  rw [List.mem_toFinset, occupied, List.mem_toFinset, List.mem_filterMap, List.mem_filterMap]
  constructor
  · intro h
    obtain ⟨c, hc, hi⟩ := h
    exact ⟨c, mem_descending.mp (helites.elite c hc).1, hi⟩
  · intro h
    obtain ⟨d, hd, hi⟩ := h
    exact helites.all d (mem_descending.mpr hd) i hi

theorem length_reserved_buckets (h : cfg.archiveUpdateStrategy = .featureBuckets) :
    (reserved cfg (ranked cfg rows)).length =
      min (min cfg.archiveFeatureReserve cfg.archiveSize).toNat (occupied cfg rows).card := by
  rw [reserved, if_pos h, List.length_map, placed, List.length_take, length_bucketElites, reserve_toNat]

theorem fittest_kept (hids : (rows.map (·.id)).Nodup) (hne : eligibleRows rows ≠ [])
    (hroom : (reserved cfg (ranked cfg rows)).length < cfg.archiveSize.toNat) : HasFittest rows (refreshed cfg rows) := by
  cases hranked : ranked cfg rows with
  | nil =>
    have hnil : (eligibleRows rows).length = 0 := by
      have hlength : (ranked cfg rows).length = (eligibleRows rows).length := descending_perm.length_eq
      rw [← hlength, hranked]
      rfl
    exact absurd (List.length_eq_zero_iff.mp hnil) hne
  | cons first rest =>
    have hfirst : first ∈ ranked cfg rows := by rw [hranked]; exact List.mem_cons_self
    have hbest : ∀ d ∈ eligibleRows rows, d.fitness ≤ first.fitness := by
      intro d hd
      have hsorted : (ranked cfg rows).Pairwise fun a b => rank cfg b ≤ rank cfg a := descending_pairwise
      have hmem : d ∈ ranked cfg rows := mem_descending.mpr hd
      rw [hranked] at hsorted hmem
      cases List.mem_cons.mp hmem with
      | inl h => rw [h]
      | inr h => exact rank_fitness ((List.pairwise_cons.mp hsorted).1 d h)
    have hkept : first.id ∈ keep cfg rows := by
      rw [keep_eq hids, List.mem_append]
      by_cases hin : first.id ∈ reserved cfg (ranked cfg rows)
      · exact Or.inl hin
      · right
        have hpos : 0 < cfg.archiveSize.toNat - (reserved cfg (ranked cfg rows)).length := by omega
        obtain ⟨n, hn⟩ := Nat.exists_eq_succ_of_ne_zero hpos.ne'
        rw [hn]
        have hhead : ((ranked cfg rows).map (·.id)).filter (· ∉ reserved cfg (ranked cfg rows)) =
            first.id :: (rest.map (·.id)).filter (· ∉ reserved cfg (ranked cfg rows)) := by
          conv_lhs => rw [hranked, List.map_cons, ← hranked]
          exact List.filter_cons_of_pos (by simpa using hin)
        rw [hhead, List.take_succ_cons]
        exact List.mem_cons_self
    have hrow : first ∈ rows := (mem_ranked.mp hfirst).1
    refine ⟨{ first with inArchive := true }, ?_, hbest⟩
    rw [archived_refresh]
    exact List.mem_map.mpr ⟨first, List.mem_filter.mpr ⟨hrow, by simpa using hkept⟩, rfl⟩

theorem fittest_or_reserved (hids : (rows.map (·.id)).Nodup) (hsize : 0 < cfg.archiveSize)
    (hne : eligibleRows rows ≠ []) : HasFittest rows (refreshed cfg rows) ∨ AllReserved cfg rows := by
  by_cases hroom : (reserved cfg (ranked cfg rows)).length < cfg.archiveSize.toNat
  · exact Or.inl (fittest_kept hids hne hroom)
  · right
    cases hstrategy : cfg.archiveUpdateStrategy with
    | fitness =>
      rw [reserved, if_neg (by rw [hstrategy]; decide)] at hroom
      exact absurd hroom (by rw [List.length_nil]; omega)
    | featureBuckets =>
      rw [length_reserved_buckets hstrategy] at hroom
      exact ⟨hstrategy, by omega, by omega⟩

theorem mem_refresh {r : ArchiveRow α} : r ∈ refreshed cfg rows ↔
    ∃ s ∈ rows, r = { s with inArchive := decide (s.id ∈ keep cfg rows) } := by
  rw [refreshed, List.mem_map]
  exact exists_congr fun s => and_congr_right fun _ => eq_comm

theorem row_of_id (hids : (rows.map (·.id)).Nodup) {a b : ArchiveRow α} (ha : a ∈ rows) (hb : b ∈ rows) (h : a.id = b.id) :
    a = b := List.inj_on_of_nodup_map hids ha hb h

theorem archived_eligible (hids : (rows.map (·.id)).Nodup) (h : c ∈ archived (refreshed cfg rows)) : Eligible c := by
  rw [archived_refresh] at h
  obtain ⟨r, hr, rfl⟩ := List.mem_map.mp h
  obtain ⟨hrow, hkeep⟩ := List.mem_filter.mp hr
  obtain ⟨s, hs, heligible, hid⟩ := keep_subset hids (of_decide_eq_true hkeep)
  rw [row_of_id hids hrow hs hid.symm]
  exact heligible

theorem ordered_fitness (hids : (rows.map (·.id)).Nodup) (h : cfg.archiveUpdateStrategy = .fitness)
    (hc : c ∈ archived (refreshed cfg rows)) {d : ArchiveRow α} (hd : d ∈ eligibleRows (refreshed cfg rows))
    (hout : d.inArchive = false) : d.fitness ≤ c.fitness := by
  have hkeep : keep cfg rows = ((ranked cfg rows).take cfg.archiveSize.toNat).map (·.id) := by
    have hnone : reserved cfg (ranked cfg rows) = [] := by
      rw [reserved, if_neg (by rw [h]; decide)]
    rw [keep_eq hids, hnone, List.map_take]
    simp
  rw [archived_refresh] at hc
  obtain ⟨r, hr, rfl⟩ := List.mem_map.mp hc
  obtain ⟨hrow, hin⟩ := List.mem_filter.mp hr
  have hr : r ∈ (ranked cfg rows).take cfg.archiveSize.toNat := by
    have hid : r.id ∈ keep cfg rows := of_decide_eq_true hin
    rw [hkeep] at hid
    obtain ⟨k, hk, hsame⟩ := List.mem_map.mp hid
    rwa [← row_of_id hids (mem_ranked.mp (List.mem_of_mem_take hk)).1 hrow hsame]
  rw [mem_eligibleRows, mem_refresh] at hd
  obtain ⟨⟨s, hs, rfl⟩, heligible⟩ := hd
  have hnot : s.id ∉ keep cfg rows := of_decide_eq_false hout
  have hranked : s ∈ ranked cfg rows := mem_ranked.mpr ⟨hs, heligible⟩
  have hdrop : s ∈ (ranked cfg rows).drop cfg.archiveSize.toNat := by
    rw [← List.take_append_drop cfg.archiveSize.toNat (ranked cfg rows), List.mem_append] at hranked
    cases hranked with
    | inl htake =>
      rw [hkeep] at hnot
      exact absurd (List.mem_map_of_mem htake) hnot
    | inr hdrop => exact hdrop
  have hsorted : (ranked cfg rows).Pairwise fun a b => rank cfg b ≤ rank cfg a := descending_pairwise
  rw [← List.take_append_drop cfg.archiveSize.toNat (ranked cfg rows), List.pairwise_append] at hsorted
  exact rank_fitness (hsorted.2.2 r hr s hdrop)

theorem represented (hids : (rows.map (·.id)).Nodup) (h : cfg.archiveUpdateStrategy = .featureBuckets) :
    ∃ buckets, Represented cfg rows (refreshed cfg rows) (min cfg.archiveFeatureReserve cfg.archiveSize).toNat buckets := by
  have helites : Elites cfg (ranked cfg rows) (bucketElites cfg (ranked cfg rows)) := bucketElites_elites _
  have hranked : ∀ d, d ∈ eligibleRows rows ↔ d ∈ ranked cfg rows := fun d => mem_descending.symm
  -- an elite of a bucket stands as the one in the list does
  have hstanding : ∀ i c, IsElite cfg rows i c → ∀ e ∈ bucketElites cfg (ranked cfg rows), bucketOf cfg e = some i →
      standing cfg e = standing cfg c := by
    intro i c hc e he hi
    obtain ⟨hin, j, hj, hbest⟩ := helites.elite e he
    rw [hi] at hj
    cases hj
    exact le_antisymm (hc.best e ((hranked e).mpr hin) hi) (hbest c ((hranked c).mp hc.eligible) hc.bucket)
  have hsub : ∀ e ∈ placed cfg (ranked cfg rows), e ∈ bucketElites cfg (ranked cfg rows) :=
    fun e he => List.mem_of_mem_take he
  have hall : ∀ e ∈ placed cfg (ranked cfg rows), ∃ i, bucketOf cfg e = some i :=
    fun e he => (helites.elite e (hsub e he)).2.imp fun _ h => h.1
  have hdistinct : ((placed cfg (ranked cfg rows)).map (bucketOf cfg)).Nodup :=
    helites.distinct.sublist ((List.take_sublist _ _).map _)
  obtain ⟨hnodup, hlength⟩ := filterMap_buckets hall hdistinct
  have hbuckets : ∀ i, i ∈ ((placed cfg (ranked cfg rows)).filterMap (bucketOf cfg)).toFinset ↔
      ∃ e ∈ placed cfg (ranked cfg rows), bucketOf cfg e = some i := by
    intro i
    rw [List.mem_toFinset, List.mem_filterMap]
  refine ⟨((placed cfg (ranked cfg rows)).filterMap (bucketOf cfg)).toFinset, fun i hi => ?_, ?_, fun i hi c hc => ?_,
    fun i hi j hj hnot c d hc hd => ?_⟩
  · obtain ⟨e, he, hbucket⟩ := (hbuckets i).mp hi
    rw [occupied, List.mem_toFinset, List.mem_filterMap]
    exact ⟨e, (hranked e).mpr (helites.elite e (hsub e he)).1, hbucket⟩
  · rw [List.toFinset_card_of_nodup hnodup, hlength, placed, List.length_take, length_bucketElites, reserve_toNat]
  · obtain ⟨e, he, hbucket⟩ := (hbuckets i).mp hi
    rw [mem_archived_ids hids, keep_eq hids, List.mem_append]
    left
    rw [reserved, if_pos h, ← standing_id (hstanding i c hc e (hsub e he) hbucket)]
    exact List.mem_map_of_mem he
  · obtain ⟨e, he, hbucket⟩ := (hbuckets i).mp hi
    obtain ⟨f, hf, hfbucket⟩ := helites.all d ((hranked d).mp hd.eligible) j hd.bucket
    have hdrop : f ∈ (bucketElites cfg (ranked cfg rows)).drop (reserve cfg).toNat := by
      rw [← List.take_append_drop (reserve cfg).toNat (bucketElites cfg (ranked cfg rows)), List.mem_append] at hf
      cases hf with
      | inl htake => exact absurd ((hbuckets j).mpr ⟨f, htake, hfbucket⟩) hnot
      | inr hdrop => exact hdrop
    have hsorted := helites.sorted
    rw [← List.take_append_drop (reserve cfg).toNat (bucketElites cfg (ranked cfg rows)), List.pairwise_append] at hsorted
    apply standing_quality
    rw [← hstanding i c hc e (hsub e he) hbucket, ← hstanding j d hd f (List.mem_of_mem_drop hdrop) hfbucket]
    exact hsorted.2.2 e he f hdrop

theorem refresh_marks : (refreshed cfg rows).map (fun r => { r with inArchive := false }) =
    rows.map fun r => { r with inArchive := false } := by
  rw [refreshed, List.map_map]
  rfl

theorem refreshed_right_set (cfg : ArchiveConfig) (table : Rows Facts α) :
    RightSet cfg table.rows (refreshed cfg table.rows) where
  count := by
    rw [← List.length_map (fun r : ArchiveRow α => r.id), (archived_ids table.distinct).length_eq, length_keep table.distinct]
  eligible _ h := archived_eligible table.distinct h
  fittest := fittest_or_reserved table.distinct
  ordered h _ hc _ hd hout := ordered_fitness table.distinct h hc hd hout
  elites := represented table.distinct
  marked := refresh_marks

end

/-- A refresh raises exactly where the feature of an eligible candidate overflows its bucket. Otherwise the archive is the
right set, but where bucket elites take every place. -/
theorem archive_right_set {α : Type} (cfg : ArchiveConfig) (table : Rows Facts α) :
    ((∃ after, refreshArchive cfg table.rows = .ok after) ↔ ∀ c ∈ eligibleRows table.rows, ¬Overflows cfg c) ∧
      ∀ after, refreshArchive cfg table.rows = .ok after → RightSet cfg table.rows after := by
  have hranked : (∃ c ∈ ranked cfg table.rows, Overflows cfg c) ↔ ∃ c ∈ eligibleRows table.rows, Overflows cfg c := by
    simp only [ranked, mem_descending]
  unfold refreshArchive
  by_cases hover : ∃ c ∈ ranked cfg table.rows, Overflows cfg c
  · rw [if_pos hover]
    refine ⟨iff_of_false (fun ⟨_, h⟩ => nomatch h) fun hall => ?_, fun after h => nomatch h⟩
    obtain ⟨c, hc, hoverflows⟩ := hranked.mp hover
    exact hall c hc hoverflows
  · rw [if_neg hover]
    refine ⟨iff_of_true ⟨_, rfl⟩ fun c hc hoverflows => hover (hranked.mpr ⟨c, hc, hoverflows⟩), fun after h => ?_⟩
    cases h
    exact refreshed_right_set cfg table

def cheapFirst : ArchiveConfig where
  archiveSize := 1
  archiveUpdateStrategy := .featureBuckets
  archiveFeatureMetric := "bytes".toList
  archiveFeatureBucket := 10
  archiveFeatureQuality := "score".toList
  archiveFeatureReserve := 1
  floorDiv v := some ⌊v / 10⌋

def measured (id : String) (fitness score bytes : ℚ) : ArchiveRow Unit where
  id := id.toList
  generation := 0
  report := some ⟨fitness, true⟩
  columns := { visibleMetrics := [("score".toList, .number (.finite score)), ("bytes".toList, .number (.finite bytes))] }
  metadata := ()

theorem two_names : ([measured "fast" 2 1 5, measured "rich" 1 3 5].map (·.id)).Nodup := by decide

def twoPrograms : Rows Facts Unit where
  rows := [measured "fast" 2 1 5, measured "rich" 1 3 5]
  distinct := two_names

theorem fittest_left_out : ¬ ∀ (α : Type) (cfg : ArchiveConfig) (table : Rows Facts α), 0 < cfg.archiveSize →
    eligibleRows table.rows ≠ [] → ∀ after, refreshArchive cfg table.rows = .ok after → HasFittest table.rows after := by
  intro hclaim
  have hbounded : ∀ c ∈ twoPrograms.rows, ¬Overflows cheapFirst c := by decide +kernel
  have hdone : refreshArchive cheapFirst twoPrograms.rows = .ok (refreshed cheapFirst twoPrograms.rows) := by
    refine if_neg ?_
    rintro ⟨c, hc, hover⟩
    exact hbounded c (mem_ranked.mp hc).1 hover
  obtain ⟨c, hc, hbest⟩ := hclaim Unit cheapFirst twoPrograms (by decide) (by decide) _ hdone
  have heligible : eligibleRows twoPrograms.rows = twoPrograms.rows := rfl
  have hlt : rank cheapFirst (measured "rich" 1 3 5) ≤ rank cheapFirst (measured "fast" 2 1 5) :=
    Prod.Lex.toLex_le_toLex.mpr (Or.inl (by decide))
  have hranked : ranked cheapFirst twoPrograms.rows = twoPrograms.rows := by
    rw [ranked, heligible, descending, List.mergeSort_of_pairwise]
    simpa [twoPrograms] using hlt
  have hkeep : keep cheapFirst twoPrograms.rows = ["rich".toList] := by
    rw [keep, hranked]
    decide +kernel
  rw [archived_refresh, hkeep] at hc
  have hone : twoPrograms.rows.filter (fun r => decide (r.id ∈ ["rich".toList])) = [measured "rich" 1 3 5] := rfl
  rw [hone, List.map_singleton, List.mem_singleton] at hc
  have hfit := hbest (measured "fast" 2 1 5) List.mem_cons_self
  rw [hc] at hfit
  exact absurd hfit (by decide)

end EvoHarness.Core.Population.Archiving
