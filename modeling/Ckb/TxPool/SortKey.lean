import Ckb.TxPool.Entry

/-!
`Ord for AncestorsScoreSortKey` (`tx-pool/src/component/sort_key.rs`). The key is ordered by the
lower of the transaction's own fee rate and its ancestors' fee rate, ties broken by the ancestors'
weight; the rates are compared without division, by cross-multiplying in `u128`, once to pick the
lower rate of a key and once to compare two keys. The abstract order is the lexicographic order on
(the lower rate as a rational, the ancestors' weight), and `cmp` computes it.
-/

namespace Ckb.TxPool

/-- `u128` multiplication in a build with `overflow-checks`: `none` is the panic. -/
def u128Mul (a b : Nat) : Option Nat := if a * b < 2 ^ 128 then some (a * b) else none

theorem u128Mul_of_le {a b : Nat} (ha : a ≤ u64Max) (hb : b ≤ u64Max) : u128Mul a b = some (a * b) := by
  have bound : a * b ≤ u64Max * u64Max := Nat.mul_le_mul ha hb
  have square : u64Max * u64Max < 2 ^ 128 := by decide
  exact if_pos (by omega)

namespace AncestorsScoreSortKey

/-- `min_fee_and_weight`: the fee and weight of the lower of the two rates, the ancestors' on a
tie. -/
def minFeeAndWeight (k : AncestorsScoreSortKey) : Option (Nat × Nat) := do
  let txWeight ← u128Mul k.fee k.ancestorsWeight
  let ancestorsWeight ← u128Mul k.ancestorsFee k.weight
  if txWeight < ancestorsWeight then pure (k.fee, k.weight) else pure (k.ancestorsFee, k.ancestorsWeight)

def cmp (a b : AncestorsScoreSortKey) : Option Ordering := do
  let mine ← a.minFeeAndWeight
  let other ← b.minFeeAndWeight
  let selfWeight ← u128Mul mine.1 other.2
  let otherWeight ← u128Mul other.1 mine.2
  if selfWeight = otherWeight then pure (compare a.ancestorsWeight b.ancestorsWeight)
  else pure (compare selfWeight otherWeight)

/-- The fields are `Capacity` and `u64` values. -/
def InU64 (k : AncestorsScoreSortKey) : Prop :=
  k.fee ≤ u64Max ∧ k.weight ≤ u64Max ∧ k.ancestorsFee ≤ u64Max ∧ k.ancestorsWeight ≤ u64Max

instance (k : AncestorsScoreSortKey) : Decidable k.InU64 := inferInstanceAs (Decidable (_ ∧ _))

/-- The keys `cmp` is meant for: both weights are positive. -/
def Weighted (k : AncestorsScoreSortKey) : Prop := 0 < k.weight ∧ 0 < k.ancestorsWeight

instance (k : AncestorsScoreSortKey) : Decidable k.Weighted := inferInstanceAs (Decidable (_ ∧ _))

/-- The lower of the two fee rates, as an exact rational. -/
def minRate (k : AncestorsScoreSortKey) : ℚ :=
  min ((k.fee : ℚ) / k.weight) ((k.ancestorsFee : ℚ) / k.ancestorsWeight)

/-- What the key is ordered by: the lower rate, then the ancestors' weight. -/
def score (k : AncestorsScoreSortKey) : ℚ ×ₗ ℕ := toLex (k.minRate, k.ancestorsWeight)

end AncestorsScoreSortKey

theorem compare_mul_eq_compare_div {f w f' w' : Nat} (hw : 0 < w) (hw' : 0 < w') :
    compare (f * w') (f' * w) = compare ((f : ℚ) / w) ((f' : ℚ) / w') := by
  have pos : (0 : ℚ) < w := by exact_mod_cast hw
  have pos' : (0 : ℚ) < w' := by exact_mod_cast hw'
  rcases lt_trichotomy (f * w') (f' * w) with lower | same | higher
  · have rate : (f : ℚ) / w < f' / w' := (div_lt_div_iff₀ pos pos').mpr (by exact_mod_cast lower)
    rw [compare_lt_iff_lt.mpr lower, compare_lt_iff_lt.mpr rate]
  · have rate : (f : ℚ) / w = f' / w' := (div_eq_div_iff pos.ne' pos'.ne').mpr (by exact_mod_cast same)
    rw [compare_eq_iff_eq.mpr same, compare_eq_iff_eq.mpr rate]
  · have rate : (f' : ℚ) / w' < f / w := (div_lt_div_iff₀ pos' pos).mpr (by exact_mod_cast higher)
    rw [compare_gt_iff_gt.mpr higher, compare_gt_iff_gt.mpr rate]

namespace AncestorsScoreSortKey

variable {a b k : AncestorsScoreSortKey}

theorem minFeeAndWeight_eq (fits : k.InU64) :
    k.minFeeAndWeight = some (if k.fee * k.ancestorsWeight < k.ancestorsFee * k.weight
      then (k.fee, k.weight) else (k.ancestorsFee, k.ancestorsWeight)) := by
  obtain ⟨fee, weight, ancestorsFee, ancestorsWeight⟩ := fits
  simp only [minFeeAndWeight, u128Mul_of_le fee ancestorsWeight, u128Mul_of_le ancestorsFee weight,
    Option.bind_eq_bind, Option.bind_some]
  split <;> rfl

/-- The pair `min_fee_and_weight` picks is a rate of the key with a positive weight, and it is the
lower rate. -/
theorem minFeeAndWeight_rate (fits : k.InU64) (weighted : k.Weighted) :
    ∃ fee weight, k.minFeeAndWeight = some (fee, weight) ∧ fee ≤ u64Max ∧ weight ≤ u64Max ∧ 0 < weight ∧
      (fee : ℚ) / weight = k.minRate := by
  rw [minFeeAndWeight_eq fits]
  have pos : (0 : ℚ) < k.weight := by exact_mod_cast weighted.1
  have pos' : (0 : ℚ) < k.ancestorsWeight := by exact_mod_cast weighted.2
  by_cases lower : k.fee * k.ancestorsWeight < k.ancestorsFee * k.weight
  · have rate : (k.fee : ℚ) / k.weight < k.ancestorsFee / k.ancestorsWeight :=
      (div_lt_div_iff₀ pos pos').mpr (by exact_mod_cast lower)
    rw [if_pos lower]
    exact ⟨_, _, rfl, fits.1, fits.2.1, weighted.1, (min_eq_left rate.le).symm⟩
  · have rate : (k.ancestorsFee : ℚ) / k.ancestorsWeight ≤ k.fee / k.weight :=
      (div_le_div_iff₀ pos' pos).mpr (by exact_mod_cast Nat.le_of_not_lt lower)
    rw [if_neg lower]
    exact ⟨_, _, rfl, fits.2.2.1, fits.2.2.2, weighted.2, (min_eq_right rate).symm⟩

theorem compare_score (a b : AncestorsScoreSortKey) :
    compare a.score b.score = (compare a.minRate b.minRate).then (compare a.ancestorsWeight b.ancestorsWeight) := by
  rfl

theorem cmp_eq_compare_score (fitsA : a.InU64) (fitsB : b.InU64) (weightedA : a.Weighted) (weightedB : b.Weighted) :
    a.cmp b = some (compare a.score b.score) := by
  obtain ⟨fee, weight, mine, feeFits, weightFits, positive, rate⟩ := minFeeAndWeight_rate fitsA weightedA
  obtain ⟨fee', weight', other, feeFits', weightFits', positive', rate'⟩ := minFeeAndWeight_rate fitsB weightedB
  have cross := @compare_mul_eq_compare_div fee weight fee' weight' positive positive'
  rw [rate, rate'] at cross
  simp only [cmp, mine, other, u128Mul_of_le feeFits weightFits', u128Mul_of_le feeFits' weightFits,
    Option.bind_eq_bind, Option.bind_some, compare_score, ← cross]
  by_cases tie : fee * weight' = fee' * weight
  · rw [if_pos tie, compare_eq_iff_eq.mpr tie]
    rfl
  · rw [if_neg tie]
    cases order : compare (fee * weight') (fee' * weight) with
    | lt => rfl
    | eq => exact absurd (compare_eq_iff_eq.mp order) tie
    | gt => rfl

section Laws

variable {c : AncestorsScoreSortKey} (fitsA : a.InU64) (fitsB : b.InU64) (fitsC : c.InU64)
  (weightedA : a.Weighted) (weightedB : b.Weighted) (weightedC : c.Weighted)
include fitsA fitsB weightedA weightedB

omit fitsB weightedB in
theorem cmp_self : a.cmp a = some .eq := by
  rw [cmp_eq_compare_score fitsA fitsA weightedA weightedA, compare_eq_iff_eq.mpr rfl]

theorem cmp_swap : b.cmp a = (a.cmp b).map Ordering.swap := by
  rw [cmp_eq_compare_score fitsA fitsB weightedA weightedB, cmp_eq_compare_score fitsB fitsA weightedB weightedA,
    Option.map_some, Std.OrientedOrd.eq_swap]

theorem cmp_ne_gt_iff : a.cmp b ≠ some .gt ↔ a.score ≤ b.score := by
  rw [cmp_eq_compare_score fitsA fitsB weightedA weightedB, Ne, Option.some_inj, ← Ne, compare_le_iff_le]

theorem cmp_eq_lt_iff : a.cmp b = some .lt ↔ a.score < b.score := by
  rw [cmp_eq_compare_score fitsA fitsB weightedA weightedB, Option.some_inj, compare_lt_iff_lt]

end Laws

/-- `cmp` is a total preorder on the keys with positive weights: it is the lexicographic comparison
of (lower fee rate, ancestors' weight), it never overflows there, and it is reflexive, antisymmetric
up to `Equal`, total and transitive. -/
theorem ancestors_score_cmp_total_preorder (a b c : AncestorsScoreSortKey)
    (fitsA : a.InU64) (fitsB : b.InU64) (fitsC : c.InU64)
    (weightedA : a.Weighted) (weightedB : b.Weighted) (weightedC : c.Weighted) :
    a.cmp b = some ((compare a.minRate b.minRate).then (compare a.ancestorsWeight b.ancestorsWeight)) ∧
      a.cmp a = some .eq ∧ b.cmp a = (a.cmp b).map Ordering.swap ∧
      (a.cmp b ≠ some .gt ∨ b.cmp a ≠ some .gt) ∧
      (a.cmp b ≠ some .gt → b.cmp c ≠ some .gt → a.cmp c ≠ some .gt) ∧
      (a.cmp b = some .lt → b.cmp c = some .lt → a.cmp c = some .lt) := by
  have ab := cmp_ne_gt_iff fitsA fitsB weightedA weightedB
  have bc := cmp_ne_gt_iff fitsB fitsC weightedB weightedC
  have ac := cmp_ne_gt_iff fitsA fitsC weightedA weightedC
  refine ⟨cmp_eq_compare_score fitsA fitsB weightedA weightedB, cmp_self fitsA weightedA,
    cmp_swap fitsA fitsB weightedA weightedB, ?_, ?_, ?_⟩
  · rw [ab, cmp_ne_gt_iff fitsB fitsA weightedB weightedA]
    exact le_total _ _
  · rw [ab, bc, ac]
    exact le_trans
  · rw [cmp_eq_lt_iff fitsA fitsB weightedA weightedB, cmp_eq_lt_iff fitsB fitsC weightedB weightedC,
      cmp_eq_lt_iff fitsA fitsC weightedA weightedC]
    exact lt_trans

/-- A parent paying 1 per 2 weight units. -/
def parentKey : AncestorsScoreSortKey := ⟨1, 2, 1, 2⟩

/-- The same lower rate with a heavier ancestry. -/
def heavierKey : AncestorsScoreSortKey := ⟨2, 4, 6, 4⟩

/-- A child whose lower rate is its ancestors' one. -/
def childKey : AncestorsScoreSortKey := ⟨9, 3, 10, 5⟩

theorem sample_keys_ordered :
    parentKey.InU64 ∧ heavierKey.InU64 ∧ childKey.InU64 ∧
      parentKey.Weighted ∧ heavierKey.Weighted ∧ childKey.Weighted ∧
      parentKey.cmp heavierKey = some .lt ∧ heavierKey.cmp childKey = some .lt ∧
      parentKey.cmp childKey = some .lt := by
  have tie : parentKey.cmp heavierKey = some .lt := by decide
  have lower : heavierKey.cmp childKey = some .lt := by decide
  obtain ⟨-, -, -, -, -, trans⟩ := ancestors_score_cmp_total_preorder parentKey heavierKey childKey
    (by decide) (by decide) (by decide) (by decide) (by decide) (by decide)
  exact ⟨by decide, by decide, by decide, by decide, by decide, by decide, tie, lower, trans tie lower⟩

end AncestorsScoreSortKey

end Ckb.TxPool
