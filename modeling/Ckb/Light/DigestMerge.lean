import Ckb.Types.HeaderDigest
import Ckb.Support.Bracketing
import Mathlib.Data.List.Chain
import Mathlib.Algebra.BigOperators.Group.List.Basic

/-!
The merges of the chain root MMR over a range of headers. Headers of consecutive numbers whose
epochs follow one another merge, in any bracketing, to the digest of the whole range while its
total difficulty fits in a `U256`; without their hashes, merges are associative; and a range within
one epoch, with one compact target, passes `HeaderDigest::verify`.
-/

namespace Ckb

variable {H : Type}

/-- `next` follows `previous`: the next block number, in the next epoch position. -/
def Successive (previous next : Header H) : Prop :=
  next.number = previous.number + 1 ∧ next.epoch.isSuccessorOf previous.epoch = true

def HeaderDigest.forgetHash (digest : HeaderDigest H) : HeaderDigest Unit :=
  { digest with childrenHash := () }

/-- The range from `first` to `last` with a total difficulty, without its hash. -/
def rangeDigest (first last : Header H) (totalDifficulty : Nat) : HeaderDigest Unit where
  childrenHash := ()
  totalDifficulty
  startNumber := first.number
  endNumber := last.number
  startEpoch := first.epoch
  endEpoch := last.epoch
  startTimestamp := first.timestamp
  endTimestamp := last.timestamp
  startCompactTarget := first.compactTarget
  endCompactTarget := last.compactTarget

/-- `digest` is the range of `headers`: from the first to the last, with their total difficulty. -/
def Summarizes (headers : List (Header H)) (digest : HeaderDigest H) : Prop :=
  ∃ first last, headers.head? = some first ∧ headers.getLast? = some last ∧
    digest.forgetHash = rangeDigest first last (headers.map Header.difficulty).sum

/-- A range the merges accept: successive headers whose total difficulty is a `U256`. -/
def Mergeable (headers : List (Header H)) : Prop :=
  headers.IsChain Successive ∧ (headers.map Header.difficulty).sum < 2 ^ 256

/-- All headers of the range are in one epoch, under one compact target. -/
def OneEpoch (headers : List (Header H)) : Prop :=
  ∀ header ∈ headers, ∀ other ∈ headers, header.epoch.number = other.epoch.number ∧
    header.compactTarget = other.compactTarget

instance : DecidableRel (Successive (H := H)) := fun _ _ => inferInstanceAs (Decidable (_ ∧ _))

instance (headers : List (Header H)) : Decidable (Mergeable headers) := inferInstanceAs (Decidable (_ ∧ _))

instance (headers : List (Header H)) : Decidable (OneEpoch headers) :=
  inferInstanceAs (Decidable (∀ header ∈ headers, ∀ other ∈ headers, _))

namespace MergeHeaderDigest

variable (mergeHash : HeaderDigest H → HeaderDigest H → H)

/-- What `merge` accepts: the total fits, and `rhs` starts at the next number and epoch. -/
def Accepts (lhs rhs : HeaderDigest H) : Prop :=
  lhs.totalDifficulty + rhs.totalDifficulty < 2 ^ 256 ∧ lhs.endNumber + 1 = rhs.startNumber ∧
    (rhs.startEpoch.isSuccessorOf lhs.endEpoch || lhs.endEpoch.isGenesis) = true

instance (lhs rhs : HeaderDigest H) : Decidable (Accepts lhs rhs) := inferInstanceAs (Decidable (_ ∧ _ ∧ _))

/-- The digest `merge` returns when it accepts. -/
def joined (lhs rhs : HeaderDigest H) : HeaderDigest H :=
  { lhs with
    childrenHash := mergeHash lhs rhs
    totalDifficulty := lhs.totalDifficulty + rhs.totalDifficulty
    endNumber := rhs.endNumber
    endEpoch := rhs.endEpoch
    endTimestamp := rhs.endTimestamp
    endCompactTarget := rhs.endCompactTarget }

theorem merge_run_eq_ok {lhs rhs : HeaderDigest H} (accepts : Accepts lhs rhs) :
    (merge mergeHash lhs rhs).run = some (.ok (joined mergeHash lhs rhs)) := by
  obtain ⟨bound, numbers, epochs⟩ := accepts
  have continuous : (!rhs.startEpoch.isSuccessorOf lhs.endEpoch && !lhs.endEpoch.isGenesis) = false := by
    rw [← Bool.not_or, epochs]
    rfl
  simp [merge, u256Add_of_lt bound, numbers, continuous]
  rfl

theorem merge_toOption (lhs rhs : HeaderDigest H) :
    (merge mergeHash lhs rhs).run.bind Except.toOption =
      if Accepts lhs rhs then some (joined mergeHash lhs rhs) else none := by
  split_ifs with accepts
  · rw [merge_run_eq_ok mergeHash accepts]
    rfl
  · -- the sum panics, or a check of the continuity throws
    simp only [Accepts, not_and] at accepts
    by_cases bound : lhs.totalDifficulty + rhs.totalDifficulty < 2 ^ 256
    · by_cases numbers : lhs.endNumber + 1 = rhs.startNumber
      · have broken : (!rhs.startEpoch.isSuccessorOf lhs.endEpoch && !lhs.endEpoch.isGenesis) = true := by
          rw [← Bool.not_or, Bool.not_eq_true']
          exact Bool.eq_false_iff.mpr (accepts bound numbers)
        simp [merge, u256Add_of_lt bound, numbers, broken, Except.toOption]
      · simp [merge, u256Add_of_lt bound, numbers, Except.toOption]
    · simp [merge, u256Add_of_le (Nat.le_of_not_lt bound)]

theorem accepts_forgetHash {lhs rhs : HeaderDigest H} : Accepts lhs.forgetHash rhs.forgetHash ↔ Accepts lhs rhs :=
  Iff.rfl

theorem forgetHash_joined (lhs rhs : HeaderDigest H) :
    (joined mergeHash lhs rhs).forgetHash = joined (fun _ _ => ()) lhs.forgetHash rhs.forgetHash := rfl

theorem joined_rangeDigest (first last first' last' : Header H) (total total' : Nat) :
    joined (fun _ _ => ()) (rangeDigest first last total) (rangeDigest first' last' total') =
      rangeDigest first last' (total + total') := rfl

theorem merge_bind_toOption (lhs rhs : HeaderDigest H) (next : HeaderDigest H → ExceptT MergeError Option (HeaderDigest H)) :
    (merge mergeHash lhs rhs >>= next).run.bind Except.toOption =
      if Accepts lhs rhs then (next (joined mergeHash lhs rhs)).run.bind Except.toOption else none := by
  rw [ExceptT.run_bind_toOption, merge_toOption]
  split_ifs <;> rfl

variable {mergeHash} {a b c : HeaderDigest H}

theorem accepts_of_accepts_joined_left (accepts : Accepts (joined mergeHash a b) c) : Accepts b c := by
  obtain ⟨bound, numbers, epochs⟩ := accepts
  exact ⟨by simp only [joined] at bound; omega, numbers, epochs⟩

theorem accepts_of_accepts_joined_right (accepts : Accepts a (joined mergeHash b c)) : Accepts a b := by
  obtain ⟨bound, numbers, epochs⟩ := accepts
  exact ⟨by simp only [joined] at bound; omega, numbers, epochs⟩

theorem accepts_joined_iff (ab : Accepts a b) (bc : Accepts b c) (mergeHash' : HeaderDigest H → HeaderDigest H → H) :
    Accepts (joined mergeHash a b) c ↔ Accepts a (joined mergeHash' b c) := by
  obtain ⟨-, abNumbers, abEpochs⟩ := ab
  obtain ⟨-, bcNumbers, bcEpochs⟩ := bc
  simp only [Accepts, joined, abNumbers, abEpochs, bcNumbers, bcEpochs, Nat.add_assoc]

end MergeHeaderDigest

open MergeHeaderDigest

theorem mergeable_parts {l r : List (Header H)} (mergeable : Mergeable (l ++ r)) : Mergeable l ∧ Mergeable r := by
  obtain ⟨chain, bound⟩ := mergeable
  obtain ⟨left, right, -⟩ := List.isChain_append.mp chain
  simp only [List.map_append, List.sum_append] at bound
  exact ⟨⟨left, by omega⟩, ⟨right, by omega⟩⟩

theorem summarizes_digest (header : Header H) : Summarizes [header] header.digest :=
  ⟨header, header, rfl, rfl, by simp [HeaderDigest.forgetHash, rangeDigest, Header.digest]⟩

variable (mergeHash : HeaderDigest H → HeaderDigest H → H)

theorem merge_summarizes {l r : List (Header H)} {x y : HeaderDigest H} (mergeable : Mergeable (l ++ r))
    (left : Summarizes l x) (right : Summarizes r y) :
    ∃ z, (merge mergeHash x y).run = some (.ok z) ∧ Summarizes (l ++ r) z := by
  obtain ⟨first, last, xFirst, xLast, xDigest⟩ := left
  obtain ⟨first', last', yFirst, yLast, yDigest⟩ := right
  obtain ⟨chain, bound⟩ := mergeable
  -- the last header of the left part and the first of the right one follow each other
  obtain ⟨-, -, meet⟩ := List.isChain_append.mp chain
  obtain ⟨numbers, epochs⟩ := meet last xLast first' yFirst
  have accepts : Accepts x y := by
    rw [← accepts_forgetHash, xDigest, yDigest]
    simp only [List.map_append, List.sum_append] at bound
    exact ⟨bound, numbers.symm, by simp [rangeDigest, epochs]⟩
  refine ⟨joined mergeHash x y, merge_run_eq_ok mergeHash accepts, first, last', ?_, ?_, ?_⟩
  · simp [List.head?_append, xFirst]
  · simp [List.getLast?_append, yLast]
  · rw [forgetHash_joined, xDigest, yDigest, joined_rangeDigest, List.map_append, List.sum_append]

theorem fold_merge_summarizes :
    ∀ t : Bracketing (Header H), Mergeable t.leaves →
      ∃ digest, (t.fold Header.digest (merge mergeHash)).run = some (.ok digest) ∧ Summarizes t.leaves digest :=
  Bracketing.fold_run_eq_ok Mergeable Summarizes (fun _ _ => mergeable_parts) summarizes_digest
    fun _ _ _ _ _ _ mergeable left right => merge_summarizes mergeHash mergeable left right

/-- Without their hashes, the two bracketings of three digests return the same digest, or both
fail. -/
theorem merge_assoc_forgetHash (a b c : HeaderDigest H) :
    ((merge mergeHash a b >>= fun ab => merge mergeHash ab c).run.bind Except.toOption).map HeaderDigest.forgetHash =
      ((merge mergeHash b c >>= fun bc => merge mergeHash a bc).run.bind Except.toOption).map HeaderDigest.forgetHash := by
  rw [merge_bind_toOption, merge_bind_toOption, merge_toOption, merge_toOption]
  by_cases ab : Accepts a b <;> by_cases bc : Accepts b c
  · rw [if_pos ab, if_pos bc]
    by_cases abc : Accepts (joined mergeHash a b) c
    · rw [if_pos abc, if_pos ((accepts_joined_iff ab bc mergeHash).mp abc), Option.map_some, Option.map_some,
        forgetHash_joined, forgetHash_joined, forgetHash_joined, forgetHash_joined]
      simp only [joined, HeaderDigest.forgetHash, Nat.add_assoc]
    · rw [if_neg abc, if_neg (mt (accepts_joined_iff ab bc mergeHash).mpr abc)]
  · rw [if_pos ab, if_neg bc, if_neg (mt accepts_of_accepts_joined_left bc)]
  · rw [if_neg ab, if_pos bc, if_neg (mt accepts_of_accepts_joined_right ab)]
  · rw [if_neg ab, if_neg bc]

/-! ### Ranges within one epoch -/

theorem number_getLast_of_isChain (rest : List (Header H)) :
    ∀ {first last : Header H}, (first :: rest).IsChain Successive → (first :: rest).getLast? = some last →
      last.number = first.number + rest.length := by
  induction rest with
  | nil =>
    intro first last _ found
    obtain rfl : first = last := Option.some_inj.mp found
    rfl
  | cons next rest ih =>
    intro first last chain found
    obtain ⟨successive, chain⟩ := List.isChain_cons_cons.mp chain
    rw [List.getLast?_cons_cons] at found
    rw [ih chain found, successive.1, List.length_cons]
    omega

theorem index_getLast_of_isChain (rest : List (Header H)) :
    ∀ {first last : Header H}, (first :: rest).IsChain Successive →
      (∀ header ∈ first :: rest, header.epoch.number = first.epoch.number) → (first :: rest).getLast? = some last →
      last.epoch.index = first.epoch.index + rest.length := by
  induction rest with
  | nil =>
    intro first last _ _ found
    obtain rfl : first = last := Option.some_inj.mp found
    rfl
  | cons next rest ih =>
    intro first last chain oneEpoch found
    obtain ⟨successive, chain⟩ := List.isChain_cons_cons.mp chain
    have nextNumber := oneEpoch next (List.mem_cons_of_mem _ List.mem_cons_self)
    have nextIndex := (EpochNumberWithFraction.isSuccessorOf_of_number_eq successive.2 nextNumber).1
    have rest_oneEpoch : ∀ header ∈ next :: rest, header.epoch.number = next.epoch.number := by
      intro header member
      rw [oneEpoch header (List.mem_cons_of_mem _ member), nextNumber]
    rw [List.getLast?_cons_cons] at found
    rw [ih chain rest_oneEpoch found, nextIndex, List.length_cons]
    omega

theorem sum_difficulty_of_compactTarget {headers : List (Header H)} {compactTarget : Nat}
    (same : ∀ header ∈ headers, header.compactTarget = compactTarget) :
    (headers.map Header.difficulty).sum = headers.length * compactToDifficulty compactTarget := by
  rw [List.map_congr_left fun header member => by rw [Header.difficulty, same header member], List.map_const',
    List.sum_const_nat]

theorem verify_forgetHash (digest : HeaderDigest H) : digest.forgetHash.verify = digest.verify := rfl

theorem verify_of_oneEpoch {headers : List (Header H)} {digest : HeaderDigest H} (mergeable : Mergeable headers)
    (oneEpoch : OneEpoch headers) (summary : Summarizes headers digest) : digest.verify.run = some (.ok ()) := by
  obtain ⟨chain, bound⟩ := mergeable
  obtain ⟨first, last, firstFound, lastFound, digestEq⟩ := summary
  obtain ⟨rest, rfl⟩ := List.head?_eq_some_iff.mp firstFound
  have lastMem := List.mem_of_getLast? lastFound
  have lastNumber := number_getLast_of_isChain rest chain lastFound
  have lastIndex := index_getLast_of_isChain rest chain
    (fun header member => (oneEpoch header member first List.mem_cons_self).1) lastFound
  obtain ⟨sameNumber, sameTarget⟩ := oneEpoch last lastMem first List.mem_cons_self
  have total := sum_difficulty_of_compactTarget fun header member => (oneEpoch header member first List.mem_cons_self).2
  rw [total, List.length_cons] at bound
  rw [← verify_forgetHash, digestEq, total, List.length_cons]
  -- the numbers and epoch indices grow, and the product the check recomputes is the total
  have ordered : ¬ first.epoch.index > last.epoch.index := by omega
  simp [HeaderDigest.verify, rangeDigest, sameNumber, sameTarget, ordered, lastNumber,
    u256Mul_of_lt (show compactToDifficulty first.compactTarget * (rest.length + 1) < 2 ^ 256 by rw [Nat.mul_comm]; exact bound),
    Nat.mul_comm]

theorem header_digest_merges_are_range_digests :
    (∀ t : Bracketing (Header H), Mergeable t.leaves →
      ∃ digest, (t.fold Header.digest (merge mergeHash)).run = some (.ok digest) ∧ Summarizes t.leaves digest ∧
        (OneEpoch t.leaves → digest.verify.run = some (.ok ()))) ∧
    ∀ a b c : HeaderDigest H,
      ((merge mergeHash a b >>= fun ab => merge mergeHash ab c).run.bind Except.toOption).map HeaderDigest.forgetHash =
        ((merge mergeHash b c >>= fun bc => merge mergeHash a bc).run.bind Except.toOption).map
          HeaderDigest.forgetHash := by
  refine ⟨fun t mergeable => ?_, merge_assoc_forgetHash mergeHash⟩
  obtain ⟨digest, merged, summary⟩ := fold_merge_summarizes mergeHash t mergeable
  exact ⟨digest, merged, summary, fun oneEpoch => verify_of_oneEpoch mergeable oneEpoch summary⟩

/-- Three blocks of one epoch, merged as the MMR merges its first three leaves. -/
def epochBracketing : Bracketing (Header Nat) :=
  .node (.node (.leaf ⟨1, 0, 1, .new 0 1 10, 0, 0x20010000⟩) (.leaf ⟨2, 1, 2, .new 0 2 10, 0, 0x20010000⟩))
    (.leaf ⟨3, 2, 3, .new 0 3 10, 0, 0x20010000⟩)

theorem epochBracketing_merges_and_verifies :
    Mergeable epochBracketing.leaves ∧ OneEpoch epochBracketing.leaves ∧
      ∃ digest, (epochBracketing.fold Header.digest (merge fun _ _ => 0)).run = some (.ok digest) ∧
        Summarizes epochBracketing.leaves digest ∧ digest.verify.run = some (.ok ()) := by
  have mergeable : Mergeable epochBracketing.leaves := by decide
  have oneEpoch : OneEpoch epochBracketing.leaves := by decide
  obtain ⟨digest, merged, summary, verified⟩ := (header_digest_merges_are_range_digests fun _ _ => 0).1 _ mergeable
  exact ⟨mergeable, oneEpoch, digest, merged, summary, verified oneEpoch⟩

/-- Two successive blocks whose compact target decodes to the target `1`, of difficulty `2 ^ 256 - 1`:
the `U256` sum of their difficulties overflows, and the merge panics. -/
def heaviestPair : Bracketing (Header Nat) :=
  .node (.leaf ⟨1, 0, 1, .new 0 1 10, 0, 0x01010000⟩) (.leaf ⟨2, 1, 2, .new 0 2 10, 0, 0x01010000⟩)

theorem heaviest_pair_merge_overflows :
    heaviestPair.leaves.IsChain Successive ∧
      heaviestPair.leaves.map Header.difficulty = [2 ^ 256 - 1, 2 ^ 256 - 1] ∧
      (heaviestPair.fold Header.digest (merge fun _ _ => 0)).run = none := by
  decide

end Ckb
