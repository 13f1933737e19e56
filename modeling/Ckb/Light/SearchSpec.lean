import Ckb.Light.Sampling

namespace Ckb.Light

/-- Total difficulty strictly increasing along the main chain: where a block has a total
difficulty, every lower number has a smaller one. -/
def Increasing (td : Nat → Option Nat) : Prop :=
  ∀ {m n x : Nat}, m < n → td n = some x → ∃ y, td m = some y ∧ y < x

/-- The blocks from `start` on whose total difficulty is at least `d`. -/
def Reaching (td : Nat → Option Nat) (start d : Nat) : Set Nat :=
  {n | start ≤ n ∧ ∃ y, td n = some y ∧ d ≤ y}

variable {td : Nat → Option Nat}

namespace Increasing

variable (increasing : Increasing td)
include increasing

theorem lt {m n x y : Nat} (lower : m < n) (hm : td m = some y) (hn : td n = some x) : y < x := by
  rcases increasing lower hn with ⟨y', hm', smaller⟩
  rw [hm, Option.some_inj] at hm'
  rw [hm']
  exact smaller

theorem le {m n x y : Nat} (lower : m ≤ n) (hm : td m = some y) (hn : td n = some x) : y ≤ x := by
  rcases Nat.lt_or_eq_of_le lower with lower | rfl
  · exact (increasing.lt lower hm hn).le
  · rw [hm, Option.some_inj] at hn
    exact hn.le

theorem isSome {m n x : Nat} (lower : m ≤ n) (hn : td n = some x) : ∃ y, td m = some y := by
  rcases Nat.lt_or_eq_of_le lower with lower | rfl
  · rcases increasing lower hn with ⟨y, hm, -⟩
    exact ⟨y, hm⟩
  · exact ⟨x, hn⟩

theorem reaches {m n x d : Nat} (lower : m ≤ n) (hm : td m = some x) (reached : d ≤ x) :
    ∀ y, td n = some y → d ≤ y := by
  intro y hn
  exact reached.trans (increasing.le lower hm hn)

end Increasing

/-- The first block of `[s, e)` reaching `d` is the first from an earlier `start`, when the blocks
of `[start, s)` all fall short of `d`. -/
theorem isLeast_reaching_of_restart {start s e d n : Nat} (least : IsLeast (Reaching td s d ∩ Set.Iio e) n)
    (above : start ≤ s) (short : ∀ k, start ≤ k → k < s → ∀ y, td k = some y → y < d) :
    IsLeast (Reaching td start d) n := by
  rcases least with ⟨⟨⟨atLeast, y, hn, reaches⟩, below⟩, lowest⟩
  refine ⟨⟨above.trans atLeast, y, hn, reaches⟩, fun k ⟨kAbove, z, hk, kReaches⟩ => ?_⟩
  by_cases early : k < s
  · exact absurd kReaches (Nat.not_le_of_lt (short k kAbove early z hk))
  · by_cases late : k < e
    · exact lowest ⟨⟨Nat.le_of_not_lt early, z, hk, kReaches⟩, late⟩
    · exact (Nat.lt_of_lt_of_le below (Nat.le_of_not_lt late)).le

namespace FindBlocksViaDifficulties

variable {D : Nat}

/-- The bracket of the search loop: the lower block falls short of the minimum and the upper one
reaches it, with the total difficulty the loop keeps. -/
structure Bracket (td : Nat → Option Nat) (D less greater endTotalDifficulty : Nat) : Prop where
  lt : less < greater
  short : ∃ y, td less = some y ∧ y < D
  upper : td greater = some endTotalDifficulty
  reaches : D ≤ endTotalDifficulty

/-- What the search returns from a bracket: a block above its lower end and at most its upper one,
reaching the minimum, with every block below it short. -/
structure Found (td : Nat → Option Nat) (D less greater n y : Nat) : Prop where
  upper : td n = some y
  reaches : D ≤ y
  gt : less < n
  le : n ≤ greater
  short : ∀ k < n, ∀ z, td k = some z → z < D

namespace Bracket

variable {less greater endTotalDifficulty : Nat}

theorem mid_lt (bracket : Bracket td D less greater endTotalDifficulty) (apart : greater ≠ less + 1) :
    less < (less + greater) / 2 ∧ (less + greater) / 2 < greater := by
  have := bracket.lt
  omega

theorem found_adjacent (increasing : Increasing td) (bracket : Bracket td D less (less + 1) endTotalDifficulty) :
    Found td D less (less + 1) (less + 1) endTotalDifficulty := by
  rcases bracket.short with ⟨y, hless, short⟩
  refine ⟨bracket.upper, bracket.reaches, Nat.lt_succ_self less, le_rfl, fun k below z hk => ?_⟩
  exact Nat.lt_of_le_of_lt (increasing.le (Nat.le_of_lt_succ below) hk hless) short

theorem found_mid (increasing : Increasing td) (bracket : Bracket td D less greater endTotalDifficulty)
    (apart : greater ≠ less + 1) (hmid : td ((less + greater) / 2) = some D) :
    Found td D less greater ((less + greater) / 2) D := by
  have between := bracket.mid_lt apart
  refine ⟨hmid, le_rfl, between.1, between.2.le, fun k below z hk => ?_⟩
  exact increasing.lt below hk hmid

theorem lower (bracket : Bracket td D less greater endTotalDifficulty) (apart : greater ≠ less + 1)
    {t : Nat} (hmid : td ((less + greater) / 2) = some t) (short : t < D) :
    Bracket td D ((less + greater) / 2) greater endTotalDifficulty :=
  ⟨(bracket.mid_lt apart).2, ⟨t, hmid, short⟩, bracket.upper, bracket.reaches⟩

theorem upper_mid (bracket : Bracket td D less greater endTotalDifficulty) (apart : greater ≠ less + 1)
    {t : Nat} (hmid : td ((less + greater) / 2) = some t) (reaches : D < t) :
    Bracket td D less ((less + greater) / 2) t :=
  ⟨(bracket.mid_lt apart).1, bracket.short, hmid, reaches.le⟩

end Bracket

theorem Found.widen {less greater less' greater' n y : Nat} (found : Found td D less' greater' n y)
    (lower : less ≤ less') (upper : greater' ≤ greater) : Found td D less greater n y :=
  ⟨found.upper, found.reaches, Nat.lt_of_le_of_lt lower found.gt, found.le.trans upper, found.short⟩

theorem searchLoop_sound (increasing : Increasing td) {fuel less greater endTotalDifficulty : Nat}
    {r : Option (Nat × Nat)} (bracket : Bracket td D less greater endTotalDifficulty)
    (ran : searchLoop td D fuel less greater endTotalDifficulty = some r) :
    ∃ n y, r = some (n, y) ∧ Found td D less greater n y := by
  fun_induction searchLoop td D fuel less greater endTotalDifficulty with
  | case1 => cases ran
  | case2 fuel less endTotalDifficulty =>
    cases ran
    exact ⟨_, _, rfl, bracket.found_adjacent increasing⟩
  | case3 => cases ran
  | case4 fuel less greater endTotalDifficulty apart sum summed mid hmid =>
    -- the midpoint lies below the upper end, which has a total difficulty
    rcases checkedAdd_eq_some.mp summed with ⟨-, rfl⟩
    rcases increasing.isSome (bracket.mid_lt apart).2.le bracket.upper with ⟨t, ht⟩
    rw [hmid] at ht
    cases ht
  | case5 fuel less greater endTotalDifficulty apart sum summed mid t hmid equal =>
    rcases checkedAdd_eq_some.mp summed with ⟨-, rfl⟩
    rw [Nat.compare_eq_eq] at equal
    subst equal
    cases ran
    exact ⟨_, _, rfl, bracket.found_mid increasing apart hmid⟩
  | case6 fuel less greater endTotalDifficulty apart sum summed mid t hmid short ih =>
    rcases checkedAdd_eq_some.mp summed with ⟨-, rfl⟩
    rw [Nat.compare_eq_lt] at short
    rcases ih (bracket.lower apart hmid short) ran with ⟨n, y, rfl, found⟩
    exact ⟨n, y, rfl, found.widen (bracket.mid_lt apart).1.le le_rfl⟩
  | case7 fuel less greater endTotalDifficulty apart sum summed mid t hmid reaches ih =>
    rcases checkedAdd_eq_some.mp summed with ⟨-, rfl⟩
    rw [Nat.compare_eq_gt] at reaches
    rcases ih (bracket.upper_mid apart hmid reaches) ran with ⟨n, y, rfl, found⟩
    exact ⟨n, y, rfl, found.widen le_rfl (bracket.mid_lt apart).2.le⟩

theorem searchLoop_isSome (increasing : Increasing td) {fuel less greater endTotalDifficulty : Nat}
    (bracket : Bracket td D less greater endTotalDifficulty) (enough : greater - less ≤ fuel)
    (bounded : greater < 2 ^ 63) : (searchLoop td D fuel less greater endTotalDifficulty).isSome := by
  fun_induction searchLoop td D fuel less greater endTotalDifficulty with
  | case1 less greater => have := bracket.lt; omega
  | case2 => rfl
  | case3 fuel less greater endTotalDifficulty apart overflow =>
    have fits : less + greater ≤ u64Max := by have := bracket.lt; unfold u64Max; omega
    simp [checkedAdd, fits] at overflow
  | case4 fuel less greater endTotalDifficulty apart sum summed mid hmid =>
    rcases checkedAdd_eq_some.mp summed with ⟨-, rfl⟩
    rcases increasing.isSome (bracket.mid_lt apart).2.le bracket.upper with ⟨t, ht⟩
    rw [hmid] at ht
    cases ht
  | case5 => rfl
  | case6 fuel less greater endTotalDifficulty apart sum summed mid t hmid short ih =>
    rcases checkedAdd_eq_some.mp summed with ⟨-, rfl⟩
    rw [Nat.compare_eq_lt] at short
    have between := bracket.mid_lt apart
    exact ih (bracket.lower apart hmid short) (by omega) bounded
  | case7 fuel less greater endTotalDifficulty apart sum summed mid t hmid reaches ih =>
    rcases checkedAdd_eq_some.mp summed with ⟨-, rfl⟩
    rw [Nat.compare_eq_gt] at reaches
    have between := bracket.mid_lt apart
    exact ih (bracket.upper_mid apart hmid reaches) (by omega) (by omega)

theorem isLeast_start {s e a : Nat} (hs : td s = some a) (reaches : D ≤ a) (lt : s < e) :
    IsLeast (Reaching td s D ∩ Set.Iio e) s :=
  ⟨⟨⟨le_rfl, a, hs, reaches⟩, lt⟩, fun _ ⟨⟨above, _⟩, _⟩ => above⟩

theorem isLeast_of_found {s e n y : Nat} (found : Found td D s (e - 1) n y) (lt : s < e) :
    IsLeast (Reaching td s D ∩ Set.Iio e) n := by
  refine ⟨⟨⟨found.gt.le, y, found.upper, found.reaches⟩, Set.mem_Iio.mpr (by have := found.le; omega)⟩, ?_⟩
  rintro k ⟨⟨-, z, hk, reaches⟩, -⟩
  apply Nat.le_of_not_lt
  intro below
  exact absurd reaches (Nat.not_le_of_lt (found.short k below z hk))

theorem bracket_of_short {s e a x : Nat} (hs : td s = some a) (short : ¬a ≥ D) (he : td (e - 1) = some x)
    (reaches : ¬x < D) (lt : s < e) : Bracket td D s (e - 1) x := by
  have apart : s ≠ e - 1 := by
    rintro rfl
    rw [hs, Option.some_inj] at he
    omega
  exact ⟨by omega, ⟨a, hs, by omega⟩, he, by omega⟩

/-- What `get_first_block_total_difficulty_is_not_less_than` returns: a block exactly when the start
or the last block of the range reaches the minimum, and then the first block of the range that
does, with its total difficulty. -/
theorem getFirst_sound (increasing : Increasing td) {s e : Nat} (lt : s < e) {r : Option (Nat × Nat)}
    (ran : getFirstBlockTotalDifficultyIsNotLessThan td s e D = some r) :
    (r.isSome ↔ (∃ x, td s = some x ∧ D ≤ x) ∨ ∃ x, td (e - 1) = some x ∧ D ≤ x) ∧
      ∀ n y, r = some (n, y) → td n = some y ∧ IsLeast (Reaching td s D ∩ Set.Iio e) n := by
  unfold getFirstBlockTotalDifficultyIsNotLessThan at ran
  have last : checkedSub e 1 = some (e - 1) := checkedSub_eq_some.mpr ⟨by omega, rfl⟩
  rcases hs : td s with _ | a
  · rw [hs] at ran
    cases ran
    -- no total difficulty at the start, so none at the end
    have missing : td (e - 1) = none := by
      rcases hlast : td (e - 1) with _ | x
      · rfl
      · rcases increasing.isSome (Nat.le_sub_one_of_lt lt) hlast with ⟨y, hy⟩
        rw [hs] at hy
        cases hy
    simp [missing]
  · rw [hs] at ran
    dsimp only at ran
    by_cases early : a ≥ D
    · rw [if_pos early] at ran
      cases ran
      refine ⟨by simp [early], ?_⟩
      rintro n y ⟨⟩
      exact ⟨hs, isLeast_start hs early lt⟩
    · rw [if_neg early, last] at ran
      dsimp only at ran
      rcases he : td (e - 1) with _ | x
      · rw [he] at ran
        cases ran
        simp [early]
      · rw [he] at ran
        dsimp only at ran
        by_cases below : x < D
        · rw [if_pos below] at ran
          cases ran
          refine ⟨?_, by simp⟩
          simp only [Option.isSome_none, Bool.false_eq_true, Option.some_inj, exists_eq_left', false_iff]
          omega
        · rw [if_neg below] at ran
          rcases searchLoop_sound increasing (bracket_of_short hs early he below lt) ran with ⟨n, y, rfl, found⟩
          refine ⟨by simp only [Option.isSome_some, Option.some_inj, exists_eq_left', true_iff]; omega, ?_⟩
          rintro n' y' ⟨⟩
          exact ⟨found.upper, isLeast_of_found found lt⟩

theorem getFirst_isSome (increasing : Increasing td) {s e : Nat} (lt : s < e) (bounded : e ≤ 2 ^ 63) :
    (getFirstBlockTotalDifficultyIsNotLessThan td s e D).isSome := by
  unfold getFirstBlockTotalDifficultyIsNotLessThan
  have last : checkedSub e 1 = some (e - 1) := checkedSub_eq_some.mpr ⟨by omega, rfl⟩
  rcases hs : td s with _ | a
  · rfl
  · dsimp only
    by_cases early : a ≥ D
    · rw [if_pos early]
      rfl
    · rw [if_neg early, last]
      dsimp only
      rcases he : td (e - 1) with _ | x
      · rfl
      · dsimp only
        by_cases below : x < D
        · rw [if_pos below]
          rfl
        · rw [if_neg below]
          apply searchLoop_isSome increasing (bracket_of_short hs early he below lt) <;> omega

theorem getFirst_ne_some_none (increasing : Increasing td) {s e x : Nat} (lt : s < e)
    (he : td (e - 1) = some x) (reaches : D ≤ x) :
    getFirstBlockTotalDifficultyIsNotLessThan td s e D ≠ some none := by
  intro ran
  have := (getFirst_sound increasing lt ran).1
  simp only [Option.isSome_none, Bool.false_eq_true, false_iff, not_or] at this
  exact this.2 ⟨x, he, reaches⟩

/-- What the loop of `get_block_numbers_via_difficulties` has built from the difficulties `done`:
the first blocks from `start` that reach them, in increasing order, below the end and within the
current difficulty. Once a block is found, the search start lies at most at the last block found,
whose total difficulty is the current one. -/
structure Sampled (td : Nat → Option Nat) (start endBlockNumber : Nat) (done : List Nat)
    (searchStart currentDifficulty : Nat) (numbers : List Nat) : Prop where
  mem : ∀ n, n ∈ numbers ↔ ∃ d ∈ done, 0 < d ∧ IsLeast (Reaching td start d) n
  sorted : numbers.Pairwise (· < ·)
  below : ∀ n ∈ numbers, n < endBlockNumber
  within : ∀ n ∈ numbers, ∃ y, td n = some y ∧ y ≤ currentDifficulty
  last : (numbers = [] ∧ currentDifficulty = 0 ∧ searchStart = start) ∨
    ∃ nLast ∈ numbers, td nLast = some currentDifficulty ∧ start ≤ searchStart ∧ searchStart ≤ nLast ∧
      ∃ dLast ∈ done, IsLeast (Reaching td start dLast) nLast

theorem sampled_nil (start endBlockNumber : Nat) : Sampled td start endBlockNumber [] start 0 [] :=
  ⟨by simp, .nil, by simp, by simp, .inl ⟨rfl, rfl, rfl⟩⟩

theorem isLeast_reaching_of_le {start d d' n y : Nat} (least : IsLeast (Reaching td start d) n)
    (le : d ≤ d') (hn : td n = some y) (reaches : d' ≤ y) : IsLeast (Reaching td start d') n := by
  refine ⟨⟨least.1.1, y, hn, reaches⟩, ?_⟩
  rintro k ⟨above, z, hk, kReaches⟩
  exact least.2 ⟨above, z, hk, le.trans kReaches⟩

namespace Sampled

variable {start endBlockNumber searchStart currentDifficulty d : Nat} {done numbers : List Nat}

theorem start_le (sampled : Sampled td start endBlockNumber done searchStart currentDifficulty numbers) :
    start ≤ searchStart := by
  rcases sampled.last with ⟨-, -, rfl⟩ | ⟨-, -, -, above, -⟩
  · exact le_rfl
  · exact above

theorem searchStart_lt (sampled : Sampled td start endBlockNumber done searchStart currentDifficulty numbers)
    (lt : start < endBlockNumber) : searchStart < endBlockNumber := by
  rcases sampled.last with ⟨-, -, rfl⟩ | ⟨nLast, member, -, -, le, -⟩
  · exact lt
  · exact Nat.lt_of_le_of_lt le (sampled.below nLast member)

theorem skip (sampled : Sampled td start endBlockNumber done searchStart currentDifficulty numbers)
    (apart : ∀ d' ∈ done, d' < d) (covered : currentDifficulty ≥ d) :
    Sampled td start endBlockNumber (done ++ [d]) searchStart currentDifficulty numbers := by
  refine ⟨fun n => ⟨fun member => ?_, ?_⟩, sampled.sorted, sampled.below, sampled.within, ?_⟩
  · rcases (sampled.mem n).mp member with ⟨d', done', positive, least⟩
    exact ⟨d', List.mem_append_left _ done', positive, least⟩
  · rintro ⟨d', member, positive, least⟩
    rcases List.mem_append.mp member with done' | single
    · exact (sampled.mem n).mpr ⟨d', done', positive, least⟩
    · rw [List.mem_singleton] at single
      subst single
      rcases sampled.last with ⟨-, zero, -⟩ | ⟨nLast, found, hLast, -, -, dLast, doneLast, leastLast⟩
      · omega
      · have leastHere := isLeast_reaching_of_le leastLast (apart dLast doneLast).le hLast covered
        rw [least.unique leastHere]
        exact found
  · rcases sampled.last with empty | ⟨nLast, found, hLast, above, le, dLast, doneLast, leastLast⟩
    · exact .inl empty
    · exact .inr ⟨nLast, found, hLast, above, le, dLast, List.mem_append_left _ doneLast, leastLast⟩

/-- A difficulty above the current one: the search from the search start finds the first block
from `start` that reaches it, above every block found so far. -/
theorem found (increasing : Increasing td)
    (sampled : Sampled td start endBlockNumber done searchStart currentDifficulty numbers)
    (apart : ∀ d' ∈ done, d' < d) (short : currentDifficulty < d) (lt : searchStart < endBlockNumber)
    {n y : Nat} (hit : getFirstBlockTotalDifficultyIsNotLessThan td searchStart endBlockNumber d = some (some (n, y))) :
    Sampled td start endBlockNumber (done ++ [d]) (if n > searchStart then n - 1 else searchStart) y (numbers ++ [n]) := by
  rcases (getFirst_sound increasing lt hit).2 n y rfl with ⟨hn, least⟩
  -- the blocks skipped by the restart fall short of the current difficulty, so of `d`
  have skipped : ∀ k, start ≤ k → k < searchStart → ∀ z, td k = some z → z < d := by
    intro k _ below z hk
    rcases sampled.last with ⟨-, -, rfl⟩ | ⟨nLast, -, hLast, -, le, -⟩
    · omega
    · exact (increasing.lt (Nat.lt_of_lt_of_le below le) hk hLast).trans short
  have leastFrom := isLeast_reaching_of_restart least sampled.start_le skipped
  have reaches : d ≤ y := by
    rcases least.1.1.2 with ⟨y', hn', reaches⟩
    rw [hn, Option.some_inj] at hn'
    rw [hn']
    exact reaches
  have earlier : ∀ a ∈ numbers, a < n := by
    intro a member
    rcases sampled.within a member with ⟨ya, ha, within⟩
    apply Nat.lt_of_not_le
    intro later
    have := increasing.le later hn ha
    omega
  refine ⟨fun n' => ⟨fun member => ?_, ?_⟩, ?_, ?_, ?_, ?_⟩
  · rcases List.mem_append.mp member with old | single
    · rcases (sampled.mem n').mp old with ⟨d', done', positive, least'⟩
      exact ⟨d', List.mem_append_left _ done', positive, least'⟩
    · rw [List.mem_singleton.mp single]
      exact ⟨d, List.mem_append_right _ (List.mem_singleton_self d), by omega, leastFrom⟩
  · rintro ⟨d', member, positive, least'⟩
    rcases List.mem_append.mp member with done' | single
    · exact List.mem_append_left _ ((sampled.mem n').mpr ⟨d', done', positive, least'⟩)
    · rw [List.mem_singleton] at single
      subst single
      rw [least'.unique leastFrom]
      exact List.mem_append_right _ (List.mem_singleton_self n)
  · rw [List.pairwise_append]
    exact ⟨sampled.sorted, List.pairwise_singleton _ n, fun a member b single => by
      rw [List.mem_singleton.mp single]
      exact earlier a member⟩
  · intro n' member
    rcases List.mem_append.mp member with old | single
    · exact sampled.below n' old
    · rw [List.mem_singleton.mp single]
      exact least.1.2
  · intro n' member
    rcases List.mem_append.mp member with old | single
    · rcases sampled.within n' old with ⟨y', hn', within⟩
      exact ⟨y', hn', by omega⟩
    · rw [List.mem_singleton.mp single]
      exact ⟨y, hn, le_rfl⟩
  · have above := least.1.1.1
    refine .inr ⟨n, List.mem_append_right _ (List.mem_singleton_self n), hn, ?_, ?_, d,
      List.mem_append_right _ (List.mem_singleton_self d), leastFrom⟩
    · have := sampled.start_le
      split <;> omega
    · split <;> omega

end Sampled

/-- The loop of `get_block_numbers_via_difficulties` over increasing difficulties that the last
block of the range reaches: it panics or returns the first blocks that reach them, never the
"not in the block range" error. -/
theorem getBlockNumbersLoop_spec (increasing : Increasing td) {start endBlockNumber : Nat}
    (lt : start < endBlockNumber) :
    ∀ (difficulties : List Nat) {done : List Nat} {searchStart currentDifficulty : Nat} {numbers : List Nat},
      (∀ d ∈ difficulties, ∃ x, td (endBlockNumber - 1) = some x ∧ d ≤ x) →
      (done ++ difficulties).Pairwise (· < ·) →
      Sampled td start endBlockNumber done searchStart currentDifficulty numbers →
      getBlockNumbersLoop td endBlockNumber difficulties searchStart currentDifficulty numbers = none ∨
        ∃ result, getBlockNumbersLoop td endBlockNumber difficulties searchStart currentDifficulty numbers =
            some (.ok result) ∧
          ∃ searchStart' currentDifficulty', Sampled td start endBlockNumber (done ++ difficulties) searchStart'
            currentDifficulty' result
  | [], done, searchStart, currentDifficulty, numbers, _, _, sampled =>
    .inr ⟨numbers, rfl, searchStart, currentDifficulty, by simpa using sampled⟩
  | d :: rest, done, searchStart, currentDifficulty, numbers, reach, sorted, sampled => by
    have regroup : done ++ d :: rest = done ++ [d] ++ rest := by simp
    rw [regroup] at sorted ⊢
    have apart : ∀ d' ∈ done, d' < d := by
      have ordered := (List.pairwise_append.mp (List.pairwise_append.mp sorted).1).2.2
      intro d' member
      exact ordered d' member d (List.mem_singleton_self d)
    have reach' : ∀ d' ∈ rest, ∃ x, td (endBlockNumber - 1) = some x ∧ d' ≤ x :=
      fun d' member => reach d' (List.mem_cons_of_mem d member)
    rw [getBlockNumbersLoop]
    by_cases covered : currentDifficulty ≥ d
    · rw [if_pos covered]
      exact getBlockNumbersLoop_spec increasing lt rest reach' sorted (sampled.skip apart covered)
    · rw [if_neg covered]
      rcases reach d List.mem_cons_self with ⟨x, hx, le⟩
      have searchLt := sampled.searchStart_lt lt
      rcases hit : getFirstBlockTotalDifficultyIsNotLessThan td searchStart endBlockNumber d with _ | _ | ⟨n, y⟩
      · exact .inl rfl
      · exact absurd hit (getFirst_ne_some_none increasing searchLt hx le)
      · exact getBlockNumbersLoop_spec increasing lt rest reach' sorted
          (sampled.found increasing apart (by omega) searchLt hit)

/-- `get_block_numbers_via_difficulties` over increasing difficulties that the last block of the
range reaches: unless a search panics, the numbers are the distinct first blocks from the start
that reach the positive difficulties, in increasing order and below the end. -/
theorem getBlockNumbersViaDifficulties_spec (increasing : Increasing td) {start endBlockNumber : Nat}
    {difficulties : List Nat} (sorted : difficulties.Pairwise (· < ·))
    (reach : ∀ d ∈ difficulties, ∃ x, td (endBlockNumber - 1) = some x ∧ d ≤ x) (lt : start < endBlockNumber) :
    getBlockNumbersViaDifficulties td start endBlockNumber difficulties = none ∨
      ∃ numbers, getBlockNumbersViaDifficulties td start endBlockNumber difficulties = some (.ok numbers) ∧
        numbers.Pairwise (· < ·) ∧ (∀ n ∈ numbers, n < endBlockNumber) ∧
        ∀ n, n ∈ numbers ↔ ∃ d ∈ difficulties, 0 < d ∧ IsLeast (Reaching td start d) n := by
  rcases getBlockNumbersLoop_spec increasing lt difficulties reach (by simpa using sorted)
      (sampled_nil start endBlockNumber) with panicked | ⟨numbers, ran, _, _, sampled⟩
  · exact .inl panicked
  · rw [List.nil_append] at sampled
    exact .inr ⟨numbers, ran, sampled.sorted, sampled.below, sampled.mem⟩

end FindBlocksViaDifficulties

end Ckb.Light
