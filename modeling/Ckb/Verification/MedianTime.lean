import Ckb.Verification.Since
import Ckb.Support.Median

/-!
`TimestampVerifier` (`ckb-verification::header_verifier`) and the median time past along a chain.
A non-genesis header must be later than the median time of the `median_block_count` blocks ending
at its parent, and at most `ALLOWED_FUTURE_BLOCKTIME` after the verifier's clock. Along a chain of
headers that pass it, the window of the median time moves one block up at a time: it gains the new
header, which lies above the old median, and loses at most its oldest timestamp. So the median
never falls, and a time lock met by the median time at one block stays met at every later block.
-/

namespace Ckb

inductive TimestampError where
  | blockTimeTooOld (min actual : Nat)
  | blockTimeTooNew (max actual : Nat)
deriving DecidableEq, Repr

def allowedFutureBlocktime : Nat := 15 * 1000

/-- The verifier; the header is read through the fields the check uses. -/
structure TimestampVerifier (H : Type) where
  dataLoader : HeaderFieldsProvider H
  header : HeaderFields H
  medianBlockCount : Nat
  now : Nat

/-- `TimestampVerifier::verify`; `none` is a panic of `block_median_time`. -/
def TimestampVerifier.verify {H : Type} (tv : TimestampVerifier H) : ExceptT TimestampError Option Unit :=
  if tv.header.number = 0 then pure ()
  else do
    let min ← ExceptT.lift (tv.dataLoader.blockMedianTime tv.header.parentHash tv.medianBlockCount)
    if tv.header.timestamp ≤ min then throw (.blockTimeTooOld min tv.header.timestamp)
    else
      let max := tv.now + allowedFutureBlocktime
      if tv.header.timestamp > max then throw (.blockTimeTooNew max tv.header.timestamp)
      else pure ()

variable {H : Type} {provider : HeaderFieldsProvider H} {chain : Nat → HeaderFields H} {top : Nat}

variable (provider) in
/-- `chain k` is the header at height `k` of a chain up to `top` that the provider stores. -/
structure MedianChain (chain : Nat → HeaderFields H) (top : Nat) : Prop where
  number_eq : ∀ k ≤ top, (chain k).number = k
  parent : ∀ k ≤ top, 0 < k → (chain k).parentHash = (chain (k - 1)).hash
  lookup : ∀ k ≤ top, provider.getHeaderFields (chain k).hash = some (chain k)

/-- The timestamps of the `count` headers ending at height `k`, or of all of them near genesis. -/
def timestampWindow (chain : Nat → HeaderFields H) (count k : Nat) : List Nat :=
  (List.range (min count (k + 1))).map fun i => (chain (k - i)).timestamp

theorem length_timestampWindow (count k : Nat) : (timestampWindow chain count k).length = min count (k + 1) := by
  rw [timestampWindow, List.length_map, List.length_range]

theorem timestampWindow_succ (count : Nat) {k : Nat} (positive : 0 < k) :
    timestampWindow chain (count + 1) k = (chain k).timestamp :: timestampWindow chain count (k - 1) := by
  have counts : min (count + 1) (k + 1) = min count (k - 1 + 1) + 1 := by omega
  rw [timestampWindow, timestampWindow, counts, List.range_succ_eq_map, List.map_cons, List.map_map]
  congr 2
  funext i
  simp only [Function.comp_apply]
  congr 2
  omega

theorem timestampWindow_eq_take (count k : Nat) :
    timestampWindow chain count k = (timestampWindow chain (count + 1) k).take count := by
  rw [timestampWindow, timestampWindow, ← List.map_take, List.take_range]
  congr 2
  omega

namespace MedianChain

variable (ready : MedianChain provider chain top)
include ready

theorem pastTimestamps (count : Nat) :
    ∀ k ≤ top, provider.pastTimestamps count (chain k).hash = some (timestampWindow chain count k) := by
  induction count with
  | zero => intro k _; rfl
  | succ count ih =>
    intro k within
    rw [HeaderFieldsProvider.pastTimestamps, ready.lookup k within]
    dsimp only [Option.bind_eq_bind, Option.bind_some, bind, Option.bind]
    rcases Nat.eq_zero_or_pos k with rfl | positive
    · rw [if_pos (ready.number_eq 0 within)]
      simp [timestampWindow]
    · rw [if_neg (by rw [ready.number_eq k within]; omega), ready.parent k within positive,
        ih (k - 1) (by omega), timestampWindow_succ count positive]
      rfl

theorem blockMedianTime {count : Nat} (positive : 0 < count) {k : Nat} (within : k ≤ top) :
    ∃ m, provider.blockMedianTime (chain k).hash count = some m ∧ IsUpperMedian (timestampWindow chain count k) m := by
  have nonempty : timestampWindow chain count k ≠ [] := by
    apply List.ne_nil_of_length_pos
    rw [length_timestampWindow]
    omega
  obtain ⟨m, found, median⟩ := isUpperMedian_mergeSort nonempty
  refine ⟨m, ?_, median⟩
  rw [HeaderFieldsProvider.blockMedianTime, ready.pastTimestamps count k within]
  exact found

theorem median_lt_of_verify {count k : Nat} (within : k ≤ top) (above : 0 < k)
    {now : Nat} (passes : (TimestampVerifier.verify ⟨provider, chain k, count, now⟩).run = some (.ok ()))
    {m : Nat} (median : provider.blockMedianTime (chain (k - 1)).hash count = some m) : m < (chain k).timestamp := by
  unfold TimestampVerifier.verify at passes
  rw [if_neg (by rw [ready.number_eq k within]; omega)] at passes
  dsimp only at passes
  rw [ready.parent k within above] at passes
  obtain ⟨min, lifted, rest⟩ := ExceptT.run_bind_eq_ok.mp passes
  rw [ExceptT.run_lift_eq_ok, median, Option.some.injEq] at lifted
  subst lifted
  exact lt_of_not_ge (ExceptT.run_ite_throw_eq_ok.mp rest).1

end MedianChain

theorem median_time_past_monotone {count : Nat} (positive : 0 < count) (ready : MedianChain provider chain top)
    (passes : ∀ k ≤ top, 0 < k → ∃ now, (TimestampVerifier.verify ⟨provider, chain k, count, now⟩).run = some (.ok ())) :
    ∃ median : Nat → Nat,
      (∀ k ≤ top, provider.blockMedianTime (chain k).hash count = some (median k) ∧
        IsUpperMedian ((List.range (min count (k + 1))).map fun i => (chain (k - i)).timestamp) (median k)) ∧
      (∀ i j, i ≤ j → j ≤ top → median i ≤ median j) ∧
      ∀ lock i j, i ≤ j → j ≤ top → ¬median i < lock → ¬median j < lock := by
  choose! median found isMedian using fun k (within : k ≤ top) => ready.blockMedianTime positive within
  -- one block up the median does not fall
  have step : ∀ k ≤ top, 0 < k → median (k - 1) ≤ median k := by
    intro k within above
    obtain ⟨now, passed⟩ := passes k within above
    have later := ready.median_lt_of_verify within above passed (found (k - 1) (by omega))
    obtain ⟨count', rfl⟩ : ∃ c, count = c + 1 := ⟨count - 1, by omega⟩
    have window := isMedian k within
    rw [timestampWindow_succ count' above] at window
    apply (isMedian (k - 1) (by omega)).le_of_cons _ _ later window
    · rw [timestampWindow_eq_take count' (k - 1)]
      exact List.take_sublist _ _
    · rw [length_timestampWindow, length_timestampWindow]
      omega
  have monotone : ∀ i j, i ≤ j → j ≤ top → median i ≤ median j := by
    intro i j le within
    induction j, le using Nat.le_induction with
    | base => exact le_rfl
    | succ j _ ih => exact (ih (by omega)).trans (step (j + 1) within (by omega))
  exact ⟨median, fun k within => ⟨found k within, isMedian k within⟩, monotone,
    fun lock i j le within met => fun falls => met (lt_of_le_of_lt (monotone i j le within) falls)⟩

section Samples

/-- Timestamps that fall from block 2 to block 3 while the median time of three blocks does not. -/
def sampleTimestamp : Nat → Nat
  | 0 => 10
  | 1 => 30
  | 2 => 35
  | _ => 32

/-- Four headers hashed `100 + k`. -/
def sampleHeader (k : Nat) : HeaderFields Nat := ⟨100 + k, k, ⟨0⟩, sampleTimestamp k, 100 + (k - 1)⟩

def sampleProvider : HeaderFieldsProvider Nat :=
  ⟨fun hash => if 100 ≤ hash ∧ hash ≤ 103 then some (sampleHeader (hash - 100)) else none⟩

theorem sampleHeader_ready : MedianChain sampleProvider sampleHeader 3 :=
  ⟨by decide, by decide, by decide⟩

theorem sampleHeader_verified :
    ∀ k ≤ 3, 0 < k → (TimestampVerifier.verify ⟨sampleProvider, sampleHeader k, 3, 0⟩).run = some (.ok ()) := by
  intro k within above
  rw [TimestampVerifier.verify, if_neg (by rw [sampleHeader_ready.number_eq k within]; omega)]
  dsimp only
  rw [HeaderFieldsProvider.blockMedianTime, sampleHeader_ready.parent k within above,
    sampleHeader_ready.pastTimestamps 3 (k - 1) (by omega)]
  obtain rfl | rfl | rfl : k = 1 ∨ k = 2 ∨ k = 3 := by omega
  all_goals simp [timestampWindow, List.range_succ, sampleHeader, sampleTimestamp, List.mergeSort, allowedFutureBlocktime]

theorem sample_chain_median_monotone :
    0 < 3 ∧ ∃ median : Nat → Nat,
      (∀ k ≤ 3, sampleProvider.blockMedianTime (sampleHeader k).hash 3 = some (median k) ∧
        IsUpperMedian ((List.range (min 3 (k + 1))).map fun i => (sampleHeader (k - i)).timestamp) (median k)) ∧
      (∀ i j, i ≤ j → j ≤ 3 → median i ≤ median j) ∧
      ∀ lock i j, i ≤ j → j ≤ 3 → ¬median i < lock → ¬median j < lock :=
  ⟨by decide, median_time_past_monotone (by decide) sampleHeader_ready
    fun k within above => ⟨0, sampleHeader_verified k within above⟩⟩

end Samples

end Ckb
