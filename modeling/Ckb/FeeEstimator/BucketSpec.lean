import Ckb.FeeEstimator.WeightUnitsFlow
import Ckb.Support.ExceptOption

namespace Ckb.FeeEstimator

theorem lowestFeeRateValue_pieces (x : Nat) :
    (x ≤ 10 → lowestFeeRateValue x = 1000 * x) ∧
    (10 ≤ x → x ≤ 30 → lowestFeeRateValue x = 2000 * x - 10000) ∧
    (30 ≤ x → x ≤ 60 → lowestFeeRateValue x = 5000 * x - 100000) ∧
    (60 ≤ x → x ≤ 90 → lowestFeeRateValue x = 10000 * x - 400000) ∧
    (90 ≤ x → x ≤ 115 → lowestFeeRateValue x = 20000 * x - 1300000) ∧
    (115 ≤ x → x ≤ 135 → lowestFeeRateValue x = 50000 * x - 4750000) ∧
    (135 ≤ x → lowestFeeRateValue x = 100000 * x - 11500000) := by
  unfold lowestFeeRateValue feeRateUnit
  dsimp only
  refine ⟨?_, ?_, ?_, ?_, ?_, ?_, ?_⟩ <;> intros <;> split_ifs <;> omega

theorem lowestFeeRateValue_succ (x : Nat) :
    lowestFeeRateValue x < lowestFeeRateValue (x + 1) ∧ lowestFeeRateValue (x + 1) ≤ lowestFeeRateValue x + 100000 := by
  obtain ⟨p1, p2, p3, p4, p5, p6, p7⟩ := lowestFeeRateValue_pieces x
  obtain ⟨q1, q2, q3, q4, q5, q6, q7⟩ := lowestFeeRateValue_pieces (x + 1)
  -- both ends lie on one piece
  rcases Nat.lt_or_ge x 10 with h | h
  · rw [p1 (by omega), q1 (by omega)]
    omega
  rcases Nat.lt_or_ge x 30 with h' | h'
  · rw [p2 h (by omega), q2 (by omega) (by omega)]
    omega
  rcases Nat.lt_or_ge x 60 with h'' | h''
  · rw [p3 h' (by omega), q3 (by omega) (by omega)]
    omega
  rcases Nat.lt_or_ge x 90 with h3 | h3
  · rw [p4 h'' (by omega), q4 (by omega) (by omega)]
    omega
  rcases Nat.lt_or_ge x 115 with h4 | h4
  · rw [p5 h3 (by omega), q5 (by omega) (by omega)]
    omega
  rcases Nat.lt_or_ge x 135 with h5 | h5
  · rw [p6 h4 (by omega), q6 (by omega) (by omega)]
    omega
  · rw [p7 h5, q7 (by omega)]
    omega

theorem lowestFeeRateValue_strictMono : StrictMono lowestFeeRateValue :=
  strictMono_nat_of_lt_succ fun x => (lowestFeeRateValue_succ x).1

theorem lowestFeeRateValue_bucketIndexValue (f : Nat) :
    lowestFeeRateValue (bucketIndexValue f) ≤ f ∧ f < lowestFeeRateValue (bucketIndexValue f + 1) := by
  have here := lowestFeeRateValue_pieces (bucketIndexValue f)
  have next := lowestFeeRateValue_pieces (bucketIndexValue f + 1)
  generalize index : bucketIndexValue f = i at here next
  obtain ⟨p1, p2, p3, p4, p5, p6, p7⟩ := here
  obtain ⟨q1, q2, q3, q4, q5, q6, q7⟩ := next
  -- each piece of the index inverts a piece of the lowest fee rate; the next bucket lies on the
  -- same piece or, at its top end, on the next one
  unfold bucketIndexValue feeRateUnit at index
  dsimp only at index
  split_ifs at index with h1 h2 h3 h4 h5 h6
  · rw [p1 (by omega)]
    rcases Nat.lt_or_ge i 10 with inside | top
    · rw [q1 (by omega)]
      omega
    · rw [q2 (by omega) (by omega)]
      omega
  · rw [p2 (by omega) (by omega)]
    rcases Nat.lt_or_ge i 30 with inside | top
    · rw [q2 (by omega) (by omega)]
      omega
    · rw [q3 (by omega) (by omega)]
      omega
  · rw [p3 (by omega) (by omega)]
    rcases Nat.lt_or_ge i 60 with inside | top
    · rw [q3 (by omega) (by omega)]
      omega
    · rw [q4 (by omega) (by omega)]
      omega
  · rw [p4 (by omega) (by omega)]
    rcases Nat.lt_or_ge i 90 with inside | top
    · rw [q4 (by omega) (by omega)]
      omega
    · rw [q5 (by omega) (by omega)]
      omega
  · rw [p5 (by omega) (by omega)]
    rcases Nat.lt_or_ge i 115 with inside | top
    · rw [q5 (by omega) (by omega)]
      omega
    · rw [q6 (by omega) (by omega)]
      omega
  · rw [p6 (by omega) (by omega)]
    rcases Nat.lt_or_ge i 135 with inside | top
    · rw [q6 (by omega) (by omega)]
      omega
    · rw [q7 (by omega)]
      omega
  · rw [p7 (by omega), q7 (by omega)]
    omega

theorem bucketIndexValue_mono : Monotone bucketIndexValue := by
  intro f g le
  have low := (lowestFeeRateValue_bucketIndexValue f).1
  have high := (lowestFeeRateValue_bucketIndexValue g).2
  have below : bucketIndexValue f < bucketIndexValue g + 1 :=
    lowestFeeRateValue_strictMono.lt_iff_lt.mp (by omega)
  omega

theorem maxBucketIndexByFeeRate_eq {f : Nat} (small : f ≤ 2 ^ 63) :
    maxBucketIndexByFeeRate f = some (bucketIndexValue f) := by
  unfold maxBucketIndexByFeeRate feeRateUnit u64Max
  rw [if_pos (Or.inr (by omega))]

theorem lowestFeeRateByBucketIndex_eq {i : Nat} (fits : lowestFeeRateValue i ≤ u64Max) :
    lowestFeeRateByBucketIndex i = some (lowestFeeRateValue i) := by
  unfold lowestFeeRateByBucketIndex
  rw [if_pos fits]

theorem bucket_of_fee_rate {f : Nat} (small : f ≤ 2 ^ 63) :
    ∃ i lo hi, maxBucketIndexByFeeRate f = some i ∧ lowestFeeRateByBucketIndex i = some lo ∧
      lowestFeeRateByBucketIndex (i + 1) = some hi ∧ lo ≤ f ∧ f < hi := by
  obtain ⟨low, high⟩ := lowestFeeRateValue_bucketIndexValue f
  have step := (lowestFeeRateValue_succ (bucketIndexValue f)).2
  have fits : lowestFeeRateValue (bucketIndexValue f + 1) ≤ u64Max := by
    unfold u64Max
    omega
  refine ⟨_, _, _, maxBucketIndexByFeeRate_eq small, lowestFeeRateByBucketIndex_eq (by omega),
    lowestFeeRateByBucketIndex_eq fits, low, high⟩

/-! The bucket loops. -/

/-- The weight of the transactions whose bucket is at least `low`. -/
def weightFrom (txs : List TxStatus) (low : Nat) : Nat :=
  ((txs.filter fun tx => low ≤ bucketIndexValue tx.feeRate).map (·.weight)).sum

@[simp] theorem weightFrom_nil (low : Nat) : weightFrom [] low = 0 := rfl

theorem weightFrom_append_single (txs : List TxStatus) (tx : TxStatus) (low : Nat) :
    weightFrom (txs ++ [tx]) low = weightFrom txs low + if low ≤ bucketIndexValue tx.feeRate then tx.weight else 0 := by
  unfold weightFrom
  by_cases counted : low ≤ bucketIndexValue tx.feeRate <;> simp [List.filter_append, counted]

theorem weightFrom_eq_of_le {txs : List TxStatus} {low c : Nat} (above : ∀ tx ∈ txs, c ≤ bucketIndexValue tx.feeRate)
    (le : low ≤ c) : weightFrom txs low = weightFrom txs c := by
  unfold weightFrom
  congr 2
  apply List.filter_congr
  intro tx member
  have bound := above tx member
  simp only [decide_eq_decide]
  omega

theorem weightFrom_le_sum (txs : List TxStatus) (low : Nat) : weightFrom txs low ≤ (txs.map (·.weight)).sum :=
  List.Sublist.sum_le_sum ((List.filter_sublist).map _) (fun _ _ => Nat.zero_le _)

theorem fillBelow_eq {buckets : List Nat} {indexCurr : Nat} (within : indexCurr < buckets.length) :
    ∃ filled, fillBelow buckets indexCurr = some filled ∧ filled.length = buckets.length ∧
      ∀ j, filled[j]? = if j < indexCurr then buckets[indexCurr]? else buckets[j]? := by
  unfold fillBelow
  rw [List.getElem?_eq_getElem within, Option.map_some]
  refine ⟨_, rfl, by simp only [List.length_append, List.length_replicate, List.length_drop]; omega, fun j => ?_⟩
  by_cases below : j < indexCurr
  · rw [if_pos below, List.getElem?_append_left (by simpa using below), List.getElem?_replicate_of_lt below]
  · rw [if_neg below, List.getElem?_append_right (by simp only [List.length_replicate]; omega),
      List.length_replicate, List.getElem?_drop, Nat.add_sub_cancel' (by omega)]

/-- Between two turns of a bucket loop: from the last index up, each bucket holds the weight of
the transactions seen whose bucket is at least its index, and every one seen is at or above the
last index. -/
structure BucketsExact (maxBucketIndex : Nat) (done : List TxStatus) (state : List Nat × Nat) : Prop where
  length : state.1.length = maxBucketIndex + 1
  index_le : state.2 ≤ maxBucketIndex
  above : ∀ tx ∈ done, state.2 ≤ bucketIndexValue tx.feeRate
  last : (done = [] ∧ state.2 = maxBucketIndex) ∨ ∃ tx ∈ done, bucketIndexValue tx.feeRate = state.2
  buckets : ∀ j, state.2 ≤ j → j ≤ maxBucketIndex → state.1[j]? = some (weightFrom done j)

namespace BucketsExact

theorem start (maxBucketIndex : Nat) :
    BucketsExact maxBucketIndex [] (List.replicate (maxBucketIndex + 1) 0, maxBucketIndex) where
  length := List.length_replicate
  index_le := le_rfl
  above _ member := absurd member List.not_mem_nil
  last := Or.inl ⟨rfl, rfl⟩
  buckets j low high := by
    rw [List.getElem?_replicate_of_lt (by omega), weightFrom_nil]

theorem step {maxBucketIndex : Nat} {done : List TxStatus} {state : List Nat × Nat}
    (inv : BucketsExact maxBucketIndex done state) (tx : TxStatus) (small : tx.feeRate ≤ 2 ^ 63)
    (le : bucketIndexValue tx.feeRate ≤ state.2)
    (fits : weightFrom done (bucketIndexValue tx.feeRate) + tx.weight ≤ u64Max) :
    ∃ state', bucketStep state tx = some state' ∧ BucketsExact maxBucketIndex (done ++ [tx]) state' := by
  obtain ⟨buckets, indexCurr⟩ := state
  generalize index : bucketIndexValue tx.feeRate = i at le fits
  dsimp only at inv le
  -- the buckets after the fill are exact from `i` up
  have filled : ∃ buckets', (if i < indexCurr then fillBelow buckets indexCurr else pure buckets) = some buckets' ∧
      buckets'.length = maxBucketIndex + 1 ∧
      ∀ j, i ≤ j → j ≤ maxBucketIndex → buckets'[j]? = some (weightFrom done j) := by
    by_cases drop : i < indexCurr
    · have inRange : indexCurr < buckets.length := by
        rw [inv.length]
        exact Nat.lt_succ_of_le inv.index_le
      obtain ⟨buckets', fill, length, values⟩ := fillBelow_eq inRange
      refine ⟨buckets', by rw [if_pos drop, fill], length.trans inv.length, fun j low high => ?_⟩
      rw [values]
      split_ifs with below
      · rw [inv.buckets indexCurr le_rfl inv.index_le, weightFrom_eq_of_le inv.above below.le]
      · exact inv.buckets j (by omega) high
    · have same : i = indexCurr := by omega
      subst same
      exact ⟨buckets, by rw [if_neg drop]; rfl, inv.length, inv.buckets⟩
  obtain ⟨buckets', fill, length, values⟩ := filled
  refine ⟨(buckets'.set i (weightFrom done i + tx.weight), i), ?_, ?_⟩
  · have added : buckets'[i]? = some (weightFrom done i) := values i le_rfl (le.trans inv.index_le)
    simp only [bucketStep, maxBucketIndexByFeeRate_eq small, index]
    split_ifs at fill with drop
    · simp [drop, fill, added, checkedAdd, fits, bind, pure]
    · cases fill
      simp [drop, added, checkedAdd, fits, bind, pure]
  · refine ⟨by simp [length], le.trans inv.index_le, ?_, Or.inr ⟨tx, by simp, index⟩, ?_⟩
    · intro other member
      rcases List.mem_append.mp member with earlier | single
      · exact le.trans (inv.above other earlier)
      · rw [List.mem_singleton.mp single, index]
    · intro j low high
      rw [List.getElem?_set, weightFrom_append_single, index]
      by_cases same : i = j
      · subst same
        rw [if_pos rfl, if_pos (by omega), if_pos le_rfl]
      · rw [if_neg same, values j low high, if_neg (by omega), Nat.add_zero]

theorem fill {maxBucketIndex : Nat} {txs : List TxStatus} {buckets : List Nat} {indexCurr : Nat}
    (inv : BucketsExact maxBucketIndex txs (buckets, indexCurr)) :
    fillBelow buckets indexCurr = some ((List.range (maxBucketIndex + 1)).map (weightFrom txs)) := by
  have inRange : indexCurr < buckets.length := by
    rw [inv.length]
    exact Nat.lt_succ_of_le inv.index_le
  obtain ⟨filled, fill, length, values⟩ := fillBelow_eq inRange
  rw [fill]
  congr 1
  apply List.ext_getElem?
  intro j
  rw [values, List.getElem?_map]
  by_cases high : j ≤ maxBucketIndex
  · rw [List.getElem?_range (by omega), Option.map_some]
    split_ifs with below
    · rw [inv.buckets indexCurr le_rfl inv.index_le, weightFrom_eq_of_le inv.above below.le]
    · exact inv.buckets j (by simpa using below) high
  · have beyond : indexCurr ≤ j := by
      have := inv.index_le
      omega
    rw [if_neg (by omega), List.getElem?_eq_none_iff.mpr (by rw [inv.length]; omega),
      List.getElem?_eq_none_iff.mpr (by rw [List.length_range]; omega), Option.map_none]

end BucketsExact

/-- A bucket loop over a list sorted by decreasing fee rate, whose buckets are at most the
highest bucket, ends with exact buckets. -/
theorem foldlM_bucketStep_exact (maxBucketIndex : Nat) {txs : List TxStatus}
    (sorted : txs.Pairwise fun a b => b.feeRate ≤ a.feeRate)
    (within : ∀ tx ∈ txs, bucketIndexValue tx.feeRate ≤ maxBucketIndex)
    (small : ∀ tx ∈ txs, tx.feeRate ≤ 2 ^ 63) (fits : (txs.map (·.weight)).sum ≤ u64Max) :
    ∃ state, txs.foldlM bucketStep (List.replicate (maxBucketIndex + 1) 0, maxBucketIndex) = some state ∧
      BucketsExact maxBucketIndex txs state := by
  refine foldlM_option_exists (BucketsExact maxBucketIndex) txs ?_ (BucketsExact.start maxBucketIndex)
  intro done tx state leading inv
  have member : tx ∈ txs := leading.subset (by simp)
  -- the transaction comes after every one seen, so its bucket is at most theirs
  have later : ∀ earlier ∈ done, tx.feeRate ≤ earlier.feeRate := by
    have ordered := List.Pairwise.sublist leading.sublist sorted
    rw [List.pairwise_append] at ordered
    exact fun earlier seen => ordered.2.2 earlier seen tx (by simp)
  have le : bucketIndexValue tx.feeRate ≤ state.2 := by
    rcases inv.last with ⟨-, same⟩ | ⟨earlier, seen, same⟩
    · rw [same]
      exact within tx member
    · rw [← same]
      exact bucketIndexValue_mono (later earlier seen)
  have bound : weightFrom done (bucketIndexValue tx.feeRate) + tx.weight ≤ u64Max := by
    have prefixSum := List.Sublist.sum_le_sum (leading.sublist.map (·.weight)) (fun _ _ => Nat.zero_le _)
    have doneSum := weightFrom_le_sum done (bucketIndexValue tx.feeRate)
    simp only [List.map_append, List.sum_append, List.map_cons, List.map_nil, List.sum_cons, List.sum_nil] at prefixSum
    omega
  exact inv.step tx (small tx member) le bound

theorem currentWeightBuckets_eq (maxBucketIndex : Nat) {txs : List TxStatus}
    (sorted : txs.Pairwise fun a b => b.feeRate ≤ a.feeRate)
    (within : ∀ tx ∈ txs, bucketIndexValue tx.feeRate ≤ maxBucketIndex)
    (small : ∀ tx ∈ txs, tx.feeRate ≤ 2 ^ 63) (fits : (txs.map (·.weight)).sum ≤ u64Max) :
    currentWeightBuckets maxBucketIndex txs = some ((List.range (maxBucketIndex + 1)).map (weightFrom txs)) := by
  obtain ⟨⟨buckets, indexCurr⟩, folded, inv⟩ := foldlM_bucketStep_exact maxBucketIndex sorted within small fits
  unfold currentWeightBuckets
  rw [folded]
  exact inv.fill

theorem foldlM_flowedStep (maxBucketIndex : Nat) {txs : List TxStatus} (small : ∀ tx ∈ txs, tx.feeRate ≤ 2 ^ 63)
    (state : List Nat × Nat) :
    txs.foldlM (flowedStep maxBucketIndex) state =
      (txs.filter fun tx => bucketIndexValue tx.feeRate ≤ maxBucketIndex).foldlM bucketStep state := by
  induction txs generalizing state with
  | nil => rfl
  | cons tx rest ih =>
    have rest_small : ∀ tx ∈ rest, tx.feeRate ≤ 2 ^ 63 := fun other member => small other (List.mem_cons_of_mem _ member)
    have step : flowedStep maxBucketIndex state tx =
        if bucketIndexValue tx.feeRate > maxBucketIndex then some state else bucketStep state tx := by
      simp only [flowedStep, maxBucketIndexByFeeRate_eq (small tx List.mem_cons_self)]
      rfl
    rw [List.foldlM_cons, step, List.filter_cons]
    by_cases skipped : bucketIndexValue tx.feeRate > maxBucketIndex
    · rw [if_pos skipped, if_neg (by simpa using skipped)]
      exact ih rest_small state
    · rw [if_neg skipped, if_pos (by simpa using skipped), List.foldlM_cons]
      cases bucketStep state tx with
      | none => rfl
      | some next => exact ih rest_small next

theorem flowSpeedBuckets_eq (maxBucketIndex historicalBlocks : Nat) {txs : List TxStatus}
    (sorted : txs.Pairwise fun a b => b.feeRate ≤ a.feeRate)
    (small : ∀ tx ∈ txs, tx.feeRate ≤ 2 ^ 63) (fits : (txs.map (·.weight)).sum ≤ u64Max) :
    flowSpeedBuckets maxBucketIndex historicalBlocks txs =
      some ((List.range (maxBucketIndex + 1)).map fun i =>
        weightFrom (txs.filter fun tx => bucketIndexValue tx.feeRate ≤ maxBucketIndex) i / historicalBlocks) := by
  have filteredFits : ((txs.filter fun tx => bucketIndexValue tx.feeRate ≤ maxBucketIndex).map (·.weight)).sum ≤ u64Max :=
    (List.Sublist.sum_le_sum ((List.filter_sublist).map _) (fun _ _ => Nat.zero_le _)).trans fits
  obtain ⟨⟨buckets, indexCurr⟩, folded, inv⟩ := foldlM_bucketStep_exact maxBucketIndex (sorted.filter _)
    (fun tx member => by simpa using (List.mem_filter.mp member).2)
    (fun tx member => small tx (List.mem_filter.mp member).1) filteredFits
  unfold flowSpeedBuckets
  rw [foldlM_flowedStep maxBucketIndex small, folded]
  simp only [bind, Option.bind, inv.fill, pure, List.map_map]
  rfl

/-! The estimate. -/

/-- The search for the first bucket the target blocks would empty, when no product or sum in it
overflows: `w` and `f` are the bucket vectors' entries at the indices searched. -/
theorem findBucket_run (current flow : List Nat) (w f : Nat → Nat) (targetBlocks : Nat) (indices : List Nat)
    (currentAt : ∀ i ∈ indices, current[i]? = some (w i)) (flowAt : ∀ i ∈ indices, flow[i]? = some (f i))
    (fits : ∀ i ∈ indices, w i + f i * targetBlocks ≤ u64Max)
    (removedFits : maxBlockBytes * 85 / 100 * targetBlocks ≤ u64Max)
    (lowestFits : ∀ i ∈ indices, lowestFeeRateValue i ≤ u64Max) :
    (Algorithm.findBucket current flow targetBlocks indices).run =
      some (match indices.find? (fun i => w i + f i * targetBlocks ≤ maxBlockBytes * 85 / 100 * targetBlocks) with
        | some i => .ok (lowestFeeRateValue i)
        | none => .error .noProperFeeRate) := by
  induction indices with
  | nil => rfl
  | cons i rest ih =>
    have added : checkedMul (f i) targetBlocks = some (f i * targetBlocks) := by
      unfold checkedMul
      rw [if_pos (by have := fits i List.mem_cons_self; omega)]
    have removed : checkedMul (maxBlockBytes * 85 / 100) targetBlocks = some (maxBlockBytes * 85 / 100 * targetBlocks) := by
      unfold checkedMul
      rw [if_pos removedFits]
    have total : checkedAdd (w i) (f i * targetBlocks) = some (w i + f i * targetBlocks) := by
      unfold checkedAdd
      rw [if_pos (fits i List.mem_cons_self)]
    rw [Algorithm.findBucket, currentAt i List.mem_cons_self, flowAt i List.mem_cons_self]
    simp only [ExceptT.lift_some, pure_bind]
    rw [added, removed]
    simp only [ExceptT.lift_some, pure_bind]
    rw [total]
    simp only [ExceptT.lift_some, pure_bind, List.find?_cons]
    by_cases passes : w i + f i * targetBlocks ≤ maxBlockBytes * 85 / 100 * targetBlocks
    · rw [if_pos passes, lowestFeeRateByBucketIndex_eq (lowestFits i List.mem_cons_self)]
      simp [passes, ExceptT.lift_some]
    · rw [if_neg passes]
      simp only [passes, decide_false]
      exact ih (fun j member => currentAt j (List.mem_cons_of_mem _ member))
        (fun j member => flowAt j (List.mem_cons_of_mem _ member)) (fun j member => fits j (List.mem_cons_of_mem _ member))
        (fun j member => lowestFits j (List.mem_cons_of_mem _ member))

theorem TxStatus.cmp_ne_lt_iff (a b : TxStatus) :
    a.cmp b ≠ .lt ↔ b.feeRate < a.feeRate ∨ (a.feeRate = b.feeRate ∧ a.weight ≤ b.weight) := by
  unfold TxStatus.cmp
  rw [Ne, Ordering.then_eq_lt, Nat.compare_eq_lt, Nat.compare_eq_eq, Nat.compare_eq_lt]
  omega

theorem feeRates_sorted {txs : List TxStatus} (sorted : txs.Pairwise fun a b => a.cmp b ≠ .lt) :
    txs.Pairwise fun a b => b.feeRate ≤ a.feeRate :=
  sorted.imp fun ne => by
    rcases (TxStatus.cmp_ne_lt_iff _ _).mp ne with lt | ⟨eq, -⟩ <;> omega

/-- In a list sorted by descending fee rate no transaction lies in a higher bucket than the first. -/
theorem bucketIndexValue_le_head {first : TxStatus} {rest : List TxStatus}
    (feeSorted : (first :: rest).Pairwise fun a b => b.feeRate ≤ a.feeRate) :
    ∀ tx ∈ first :: rest, bucketIndexValue tx.feeRate ≤ bucketIndexValue first.feeRate := by
  intro tx member
  rcases List.mem_cons.mp member with rfl | later
  · exact le_rfl
  · exact bucketIndexValue_mono ((List.pairwise_cons.mp feeSorted).1 tx later)

theorem weightFrom_perm {txs txs' : List TxStatus} (perm : txs.Perm txs') (low : Nat) :
    weightFrom txs low = weightFrom txs' low := by
  unfold weightFrom
  exact ((perm.filter _).map _).sum_eq

namespace Algorithm

theorem sortedFlowed_perm (algorithm : Algorithm) (historicalTip : Nat) :
    (algorithm.sortedFlowed historicalTip).Perm (algorithm.flowedStatuses historicalTip) :=
  List.mergeSort_perm _ _

theorem sortedFlowed_sorted (algorithm : Algorithm) (historicalTip : Nat) :
    (algorithm.sortedFlowed historicalTip).Pairwise fun a b => b.feeRate ≤ a.feeRate := by
  have sorted : (algorithm.sortedFlowed historicalTip).Pairwise fun a b => (a.cmp b != .lt) = true :=
    List.pairwise_mergeSort (fun a b c first second => by
      simp only [bne_iff_ne, ne_eq] at first second ⊢
      rw [← ne_eq, TxStatus.cmp_ne_lt_iff] at first second ⊢
      omega)
    (fun a b => by
      simp only [Bool.or_eq_true, bne_iff_ne, ne_eq]
      rw [← ne_eq, ← ne_eq, TxStatus.cmp_ne_lt_iff, TxStatus.cmp_ne_lt_iff]
      omega)
    (algorithm.flowedStatuses historicalTip)
  apply feeRates_sorted
  exact sorted.imp fun ne => by simpa using ne

theorem mem_flowedStatuses {algorithm : Algorithm} {historicalTip : Nat} {tx : TxStatus}
    (member : tx ∈ algorithm.flowedStatuses historicalTip) : ∃ num, tx ∈ (algorithm.txs.lookup num).getD [] := by
  obtain ⟨num, -, found⟩ := List.mem_flatMap.mp member
  exact ⟨num, found⟩

theorem sortedFlowed_small {algorithm : Algorithm} (historicalTip : Nat)
    (storedSmall : ∀ num, ∀ tx ∈ (algorithm.txs.lookup num).getD [], tx.feeRate ≤ 2 ^ 63) :
    ∀ tx ∈ algorithm.sortedFlowed historicalTip, tx.feeRate ≤ 2 ^ 63 := by
  intro tx member
  obtain ⟨num, found⟩ := mem_flowedStatuses ((algorithm.sortedFlowed_perm historicalTip).subset member)
  exact storedSmall num tx found

theorem sortedFlowed_weight_sum (algorithm : Algorithm) (historicalTip : Nat) :
    ((algorithm.sortedFlowed historicalTip).map (·.weight)).sum =
      ((algorithm.flowedStatuses historicalTip).map (·.weight)).sum :=
  ((algorithm.sortedFlowed_perm historicalTip).map _).sum_eq

end Algorithm

/-- `historical_blocks` as a number. -/
def historicalValue (targetBlocks : Nat) : Nat :=
  if targetBlocks < minTarget then minTarget * 2 else targetBlocks * 2

theorem historicalBlocks_eq {targetBlocks : Nat} (target : targetBlocks * 2 ≤ u64Max) :
    Algorithm.historicalBlocks targetBlocks = some (historicalValue targetBlocks) := by
  unfold Algorithm.historicalBlocks historicalValue checkedMul
  split_ifs <;> rfl

/-- What `do_estimate` returns: `LackData` without enough blocks, the lowest fee rate when there
is no transaction, and otherwise the lowest fee rate of the first bucket from index one whose
current weight and flow over the target blocks fit in what those blocks remove. -/
def estimateSpec (algorithm : Algorithm) (targetBlocks : Nat) (txs : List TxStatus) : Except Error Nat :=
  let historical := historicalValue targetBlocks
  if historical > algorithm.currentTip - algorithm.bootTip then .error .lackData
  else
    match txs.head? with
    | none => .ok lowestFeeRate
    | some first =>
      let maxBucketIndex := bucketIndexValue first.feeRate
      let flowed := (algorithm.flowedStatuses (algorithm.currentTip - historical)).filter fun tx =>
        bucketIndexValue tx.feeRate ≤ maxBucketIndex
      match (List.range' 1 maxBucketIndex).find? (fun i =>
          weightFrom txs i + weightFrom flowed i / historical * targetBlocks ≤ maxBlockBytes * 85 / 100 * targetBlocks) with
      | some i => .ok (lowestFeeRateValue i)
      | none => .error .noProperFeeRate

theorem doEstimate_run (algorithm : Algorithm) (targetBlocks : Nat) (txs : List TxStatus)
    (sorted : txs.Pairwise fun a b => a.cmp b ≠ .lt) (small : ∀ tx ∈ txs, tx.feeRate ≤ 2 ^ 63)
    (storedSmall : ∀ num, ∀ tx ∈ (algorithm.txs.lookup num).getD [], tx.feeRate ≤ 2 ^ 63)
    (target : targetBlocks * 2 ≤ u64Max)
    (flowFits : ((algorithm.flowedStatuses (algorithm.currentTip - historicalValue targetBlocks)).map (·.weight)).sum ≤ u64Max)
    (weightFits : (txs.map (·.weight)).sum +
      ((algorithm.flowedStatuses (algorithm.currentTip - historicalValue targetBlocks)).map (·.weight)).sum /
        historicalValue targetBlocks * targetBlocks ≤ u64Max)
    (removedFits : maxBlockBytes * 85 / 100 * targetBlocks ≤ u64Max) :
    (algorithm.doEstimate targetBlocks txs).run = some (estimateSpec algorithm targetBlocks txs) := by
  unfold Algorithm.doEstimate estimateSpec
  rw [historicalBlocks_eq target]
  simp only [ExceptT.lift_some, pure_bind]
  by_cases lack : historicalValue targetBlocks > algorithm.currentTip - algorithm.bootTip
  · rw [if_pos lack, if_pos lack]
    rfl
  rw [if_neg lack, if_neg lack]
  cases txs with
  | nil => rfl
  | cons first rest =>
    simp only [List.head?_cons]
    generalize historicalValue targetBlocks = historical at flowFits weightFits
    generalize algorithm.currentTip - historical = historicalTip at flowFits weightFits
    generalize maxIndex : bucketIndexValue first.feeRate = maxBucketIndex
    -- the first transaction has the highest fee rate, so the highest bucket
    have feeSorted := feeRates_sorted sorted
    have within : ∀ tx ∈ first :: rest, bucketIndexValue tx.feeRate ≤ maxBucketIndex :=
      maxIndex ▸ bucketIndexValue_le_head feeSorted
    have currentFits : ((first :: rest).map (·.weight)).sum ≤ u64Max := by omega
    have flowSmall := Algorithm.sortedFlowed_small historicalTip storedSmall
    have flowSum : ((algorithm.sortedFlowed historicalTip).map (·.weight)).sum ≤ u64Max := by
      rw [Algorithm.sortedFlowed_weight_sum]
      exact flowFits
    rw [maxBucketIndexByFeeRate_eq (small first List.mem_cons_self), maxIndex]
    simp only [ExceptT.lift_some, pure_bind]
    rw [currentWeightBuckets_eq maxBucketIndex feeSorted within small currentFits]
    simp only [ExceptT.lift_some, pure_bind]
    rw [flowSpeedBuckets_eq maxBucketIndex historical (algorithm.sortedFlowed_sorted historicalTip) flowSmall flowSum]
    simp only [ExceptT.lift_some, pure_bind]
    -- the flow of a bucket does not depend on the order the flowed transactions come in
    have flowPerm : ∀ i, weightFrom ((algorithm.sortedFlowed historicalTip).filter fun tx =>
        bucketIndexValue tx.feeRate ≤ maxBucketIndex) i = weightFrom ((algorithm.flowedStatuses historicalTip).filter
          fun tx => bucketIndexValue tx.feeRate ≤ maxBucketIndex) i :=
      fun i => weightFrom_perm ((algorithm.sortedFlowed_perm historicalTip).filter _) i
    have bucketAt : ∀ i ∈ List.range' 1 maxBucketIndex, i < maxBucketIndex + 1 := by
      intro i member
      have := List.mem_range'_1.mp member
      omega
    apply findBucket_run
    · intro i member
      rw [List.getElem?_map, List.getElem?_range (bucketAt i member), Option.map_some]
    · intro i member
      rw [List.getElem?_map, List.getElem?_range (bucketAt i member), Option.map_some, flowPerm]
    · intro i member
      have currentLe := weightFrom_le_sum (first :: rest) i
      have flowLe : weightFrom ((algorithm.flowedStatuses historicalTip).filter fun tx =>
          bucketIndexValue tx.feeRate ≤ maxBucketIndex) i ≤ ((algorithm.flowedStatuses historicalTip).map (·.weight)).sum :=
        (weightFrom_le_sum _ i).trans
          (List.Sublist.sum_le_sum ((List.filter_sublist).map _) (fun _ _ => Nat.zero_le _))
      have perBlock := Nat.mul_le_mul_right targetBlocks (Nat.div_le_div_right (c := historical) flowLe)
      omega
    · exact removedFits
    · intro i member
      have below := lowestFeeRateValue_strictMono.monotone (Nat.le_of_lt_succ (bucketAt i member))
      have inBucket := (lowestFeeRateValue_bucketIndexValue first.feeRate).1
      have bound := small first List.mem_cons_self
      rw [maxIndex] at inBucket
      unfold u64Max
      omega

theorem fee_estimate_buckets_exact (algorithm : Algorithm) (targetBlocks : Nat) (txs : List TxStatus)
    (sorted : txs.Pairwise fun a b => a.cmp b ≠ .lt) (small : ∀ tx ∈ txs, tx.feeRate ≤ 2 ^ 63)
    (storedSmall : ∀ num, ∀ tx ∈ (algorithm.txs.lookup num).getD [], tx.feeRate ≤ 2 ^ 63)
    (target : targetBlocks * 2 ≤ u64Max)
    (flowFits : ((algorithm.flowedStatuses (algorithm.currentTip - historicalValue targetBlocks)).map (·.weight)).sum ≤ u64Max)
    (weightFits : (txs.map (·.weight)).sum +
      ((algorithm.flowedStatuses (algorithm.currentTip - historicalValue targetBlocks)).map (·.weight)).sum /
        historicalValue targetBlocks * targetBlocks ≤ u64Max)
    (removedFits : maxBlockBytes * 85 / 100 * targetBlocks ≤ u64Max) :
    (∀ f ≤ 2 ^ 63, ∃ i lo hi, maxBucketIndexByFeeRate f = some i ∧ lowestFeeRateByBucketIndex i = some lo ∧
      lowestFeeRateByBucketIndex (i + 1) = some hi ∧ lo ≤ f ∧ f < hi) ∧
    StrictMono lowestFeeRateValue ∧
    (∀ first ∈ txs.head?,
      currentWeightBuckets (bucketIndexValue first.feeRate) txs =
        some ((List.range (bucketIndexValue first.feeRate + 1)).map (weightFrom txs)) ∧
      flowSpeedBuckets (bucketIndexValue first.feeRate) (historicalValue targetBlocks)
          (algorithm.sortedFlowed (algorithm.currentTip - historicalValue targetBlocks)) =
        some ((List.range (bucketIndexValue first.feeRate + 1)).map fun i =>
          weightFrom ((algorithm.flowedStatuses (algorithm.currentTip - historicalValue targetBlocks)).filter fun tx =>
            bucketIndexValue tx.feeRate ≤ bucketIndexValue first.feeRate) i / historicalValue targetBlocks)) ∧
    (algorithm.doEstimate targetBlocks txs).run = some (estimateSpec algorithm targetBlocks txs) := by
  refine ⟨fun f bound => bucket_of_fee_rate bound, lowestFeeRateValue_strictMono, fun first head => ?_,
    doEstimate_run algorithm targetBlocks txs sorted small storedSmall target flowFits weightFits removedFits⟩
  obtain ⟨rest, rfl⟩ : ∃ rest, txs = first :: rest := by
    cases txs with
    | nil => cases head
    | cons first' rest => exact ⟨rest, by simpa using head⟩
  generalize algorithm.currentTip - historicalValue targetBlocks = historicalTip at flowFits weightFits ⊢
  have feeSorted := feeRates_sorted sorted
  have flowSum : ((algorithm.sortedFlowed historicalTip).map (·.weight)).sum ≤ u64Max := by
    rw [Algorithm.sortedFlowed_weight_sum]
    exact flowFits
  refine ⟨currentWeightBuckets_eq _ feeSorted (bucketIndexValue_le_head feeSorted) small (by omega), ?_⟩
  rw [flowSpeedBuckets_eq _ _ (algorithm.sortedFlowed_sorted historicalTip)
    (Algorithm.sortedFlowed_small historicalTip storedSmall) flowSum]
  congr 2
  funext i
  rw [weightFrom_perm ((algorithm.sortedFlowed_perm historicalTip).filter _) i]

/-! A pool of two transactions, and an estimator that has seen a hundred blocks and no flow. -/

def sampleAlgorithm : Algorithm := ⟨0, 100, ∅, true⟩

theorem sample_estimate_buckets_exact :
    ([⟨1000, 5000⟩, ⟨500, 2000⟩] : List TxStatus).Pairwise (fun a b => a.cmp b ≠ .lt) ∧
      (∀ tx ∈ ([⟨1000, 5000⟩, ⟨500, 2000⟩] : List TxStatus), tx.feeRate ≤ 2 ^ 63) ∧
      (∀ num, ∀ tx ∈ (sampleAlgorithm.txs.lookup num).getD [], tx.feeRate ≤ 2 ^ 63) ∧ 5 * 2 ≤ u64Max ∧
      ((sampleAlgorithm.flowedStatuses (sampleAlgorithm.currentTip - historicalValue 5)).map (·.weight)).sum ≤ u64Max ∧
      (([⟨1000, 5000⟩, ⟨500, 2000⟩] : List TxStatus).map (·.weight)).sum +
        ((sampleAlgorithm.flowedStatuses (sampleAlgorithm.currentTip - historicalValue 5)).map (·.weight)).sum /
          historicalValue 5 * 5 ≤ u64Max ∧
      maxBlockBytes * 85 / 100 * 5 ≤ u64Max ∧
      (sampleAlgorithm.doEstimate 5 [⟨1000, 5000⟩, ⟨500, 2000⟩]).run =
        some (estimateSpec sampleAlgorithm 5 [⟨1000, 5000⟩, ⟨500, 2000⟩]) := by
  have sorted : ([⟨1000, 5000⟩, ⟨500, 2000⟩] : List TxStatus).Pairwise (fun a b => a.cmp b ≠ .lt) := by decide
  have small : ∀ tx ∈ ([⟨1000, 5000⟩, ⟨500, 2000⟩] : List TxStatus), tx.feeRate ≤ 2 ^ 63 := by decide
  have storedSmall : ∀ num, ∀ tx ∈ (sampleAlgorithm.txs.lookup num).getD [], tx.feeRate ≤ 2 ^ 63 := by
    simp [sampleAlgorithm, Finmap.lookup_empty]
  have noFlow : sampleAlgorithm.flowedStatuses (sampleAlgorithm.currentTip - historicalValue 5) = [] := by
    simp [Algorithm.flowedStatuses, sampleAlgorithm]
  have target : 5 * 2 ≤ u64Max := by decide
  have flowFits : ((sampleAlgorithm.flowedStatuses (sampleAlgorithm.currentTip - historicalValue 5)).map (·.weight)).sum
      ≤ u64Max := by
    rw [noFlow]
    decide
  have weightFits : (([⟨1000, 5000⟩, ⟨500, 2000⟩] : List TxStatus).map (·.weight)).sum +
      ((sampleAlgorithm.flowedStatuses (sampleAlgorithm.currentTip - historicalValue 5)).map (·.weight)).sum /
        historicalValue 5 * 5 ≤ u64Max := by
    rw [noFlow]
    decide
  have removedFits : maxBlockBytes * 85 / 100 * 5 ≤ u64Max := by decide
  exact ⟨sorted, small, storedSmall, target, flowFits, weightFits, removedFits,
    (fee_estimate_buckets_exact sampleAlgorithm 5 _ sorted small storedSmall target flowFits weightFits removedFits).2.2.2⟩

theorem heavy_pool_estimate_panics :
    ([⟨2 ^ 63, 5000⟩, ⟨2 ^ 63, 5000⟩] : List TxStatus).Pairwise (fun a b => a.cmp b ≠ .lt) ∧
      (sampleAlgorithm.doEstimate 5 [⟨2 ^ 63, 5000⟩, ⟨2 ^ 63, 5000⟩]).run = none := by
  decide +kernel

end Ckb.FeeEstimator
