import Mathlib.Data.Nat.Cast.Field
import Mathlib.Tactic.FieldSimp
import Mathlib.Tactic.Linarith
import Mathlib.Tactic.Positivity
import Mathlib.Tactic.Ring
import Ckb.Types.Rational

namespace Ckb

theorem compare_eq_compare {α β : Type*} [LinearOrder α] [LinearOrder β] {a b : α} {c d : β}
    (lt : a < b ↔ c < d) (gt : b < a ↔ d < c) : compare a b = compare c d := by
  rcases lt_trichotomy a b with less | same | greater
  · rw [compare_lt_iff_lt.mpr less, compare_lt_iff_lt.mpr (lt.mp less)]
  · have notLt : ¬c < d := fun h => (lt_irrefl a) (same ▸ lt.mpr h)
    have notGt : ¬d < c := fun h => (lt_irrefl a) (same ▸ gt.mpr h)
    rw [compare_eq_iff_eq.mpr same, compare_eq_iff_eq.mpr (le_antisymm (not_lt.mp notGt) (not_lt.mp notLt))]
  · rw [compare_gt_iff_gt.mpr greater, compare_gt_iff_gt.mpr (gt.mp greater)]

namespace U256

theorem add_eq_some {a b c : Nat} : add a b = some c ↔ a + b < bound ∧ a + b = c := by
  unfold add
  by_cases fits : a + b < bound <;> simp [fits]

theorem mul_eq_some {a b c : Nat} : mul a b = some c ↔ a * b < bound ∧ a * b = c := by
  unfold mul
  by_cases fits : a * b < bound <;> simp [fits]

theorem sub_eq_some {a b c : Nat} : sub a b = some c ↔ b ≤ a ∧ a - b = c := by
  unfold sub
  by_cases fits : b ≤ a <;> simp [fits]

theorem div_of_ne_zero (a : Nat) {b : Nat} (nonzero : b ≠ 0) : div a b = some (a / b) := by
  simp [div, nonzero]

end U256

namespace RationalU256

theorem value_mk (numer denom : Nat) : (⟨numer, denom⟩ : RationalU256).value = (numer : ℚ) / denom := rfl

theorem cast_div_div_cast_div {n d g : Nat} (positive : 0 < g) (left : g ∣ n) (right : g ∣ d) :
    ((n / g : Nat) : ℚ) / ((d / g : Nat) : ℚ) = (n : ℚ) / d := by
  have castPos : (g : ℚ) ≠ 0 := by exact_mod_cast positive.ne'
  rw [Nat.cast_div left castPos, Nat.cast_div right castPos]
  by_cases zero : (d : ℚ) = 0
  · simp [zero]
  · field_simp

theorem gcd_pos_of_denom {n d : Nat} (nonzero : d ≠ 0) : 0 < Nat.gcd n d :=
  Nat.gcd_pos_of_pos_right _ (Nat.pos_of_ne_zero nonzero)

theorem div_gcd_ne_zero {n d : Nat} (nonzero : d ≠ 0) : d / Nat.gcd n d ≠ 0 :=
  (Nat.div_pos (Nat.gcd_le_right _ (Nat.pos_of_ne_zero nonzero)) (gcd_pos_of_denom nonzero)).ne'

theorem new_spec {numer denom : Nat} {r : RationalU256} (made : new numer denom = some r) :
    r.denom ≠ 0 ∧ r.value = (numer : ℚ) / denom := by
  unfold new at made
  split at made
  · cases made
  · rename_i nonzero
    have positive := gcd_pos_of_denom (n := numer) nonzero
    simp only [reduce, U256.div_of_ne_zero _ positive.ne', Option.bind_eq_bind, Option.bind_some,
      Option.some.injEq] at made
    subst made
    exact ⟨div_gcd_ne_zero nonzero,
      cast_div_div_cast_div positive (Nat.gcd_dvd_left _ _) (Nat.gcd_dvd_right _ _)⟩

/-- The cross scaling to the `lcm`: both numerators over one non-zero denominator, with the
values of the operands. -/
theorem crossScale_spec {a b : RationalU256} (ha : a.denom ≠ 0) (hb : b.denom ≠ 0) {lhs rhs lcm : Nat}
    (scaled : crossScale a b = some (lhs, rhs, lcm)) :
    lcm ≠ 0 ∧ (lhs : ℚ) / lcm = a.value ∧ (rhs : ℚ) / lcm = b.value := by
  set g := Nat.gcd a.denom b.denom with hg
  have positive : 0 < g := gcd_pos_of_denom hb
  obtain ⟨k₁, h₁⟩ : g ∣ a.denom := Nat.gcd_dvd_left _ _
  obtain ⟨k₂, h₂⟩ : g ∣ b.denom := Nat.gcd_dvd_right _ _
  have k₁pos : 0 < k₁ := Nat.pos_of_ne_zero fun zero => ha (by rw [h₁, zero, Nat.mul_zero])
  have k₂pos : 0 < k₂ := Nat.pos_of_ne_zero fun zero => hb (by rw [h₂, zero, Nat.mul_zero])
  -- with `a.denom = g * k₁` and `b.denom = g * k₂` the `lcm` is `g * k₁ * k₂`
  have quotient : b.denom / g = k₂ := by rw [h₂, Nat.mul_div_cancel_left _ positive]
  have overA : a.denom * k₂ / a.denom = k₂ := Nat.mul_div_cancel_left _ (Nat.pos_of_ne_zero ha)
  have overB : a.denom * k₂ / b.denom = k₁ := by
    rw [h₁, h₂, Nat.mul_assoc, Nat.mul_comm k₁, ← Nat.mul_assoc]
    exact Nat.mul_div_cancel_left _ (by positivity)
  simp only [crossScale, ← hg, quotient, U256.div_of_ne_zero _ positive.ne', U256.div_of_ne_zero _ ha,
    U256.div_of_ne_zero _ hb, Option.bind_eq_bind, Option.bind_some] at scaled
  rcases product : U256.mul a.denom k₂ with _ | lcm'
  · simp [product] at scaled
  · obtain ⟨-, rfl⟩ := U256.mul_eq_some.mp product
    simp only [product, Option.bind_some, overA, overB] at scaled
    rcases left : U256.mul a.numer k₂ with _ | lhs'
    · simp [left] at scaled
    · rcases right : U256.mul b.numer k₁ with _ | rhs'
      · simp [left, right] at scaled
      · simp only [left, right, Option.bind_some, Option.some.injEq, Prod.mk.injEq] at scaled
        obtain ⟨rfl, rfl, rfl⟩ := scaled
        obtain ⟨-, rfl⟩ := U256.mul_eq_some.mp left
        obtain ⟨-, rfl⟩ := U256.mul_eq_some.mp right
        have k₁cast : (k₁ : ℚ) ≠ 0 := by exact_mod_cast k₁pos.ne'
        have k₂cast : (k₂ : ℚ) ≠ 0 := by exact_mod_cast k₂pos.ne'
        have gcast : (g : ℚ) ≠ 0 := by exact_mod_cast positive.ne'
        refine ⟨Nat.mul_ne_zero ha k₂pos.ne', ?_, ?_⟩
        · simp only [value, Nat.cast_mul, h₁]
          field_simp
        · simp only [value, Nat.cast_mul, h₁, h₂]
          field_simp

theorem div_gcd_left_ne_zero {d n : Nat} (nonzero : d ≠ 0) : d / Nat.gcd d n ≠ 0 :=
  (Nat.div_pos (Nat.gcd_le_left _ (Nat.pos_of_ne_zero nonzero))
    (Nat.gcd_pos_of_pos_left _ (Nat.pos_of_ne_zero nonzero))).ne'

theorem cast_div_gcd_left (n d : Nat) (positive : 0 < Nat.gcd n d) :
    ((n / Nat.gcd n d : Nat) : ℚ) = n / Nat.gcd n d :=
  Nat.cast_div (Nat.gcd_dvd_left _ _) (by exact_mod_cast positive.ne')

theorem cast_div_gcd_right (n d : Nat) (positive : 0 < Nat.gcd n d) :
    ((d / Nat.gcd n d : Nat) : ℚ) = d / Nat.gcd n d :=
  Nat.cast_div (Nat.gcd_dvd_right _ _) (by exact_mod_cast positive.ne')

theorem add_spec {a b r : RationalU256} (ha : a.denom ≠ 0) (hb : b.denom ≠ 0) (added : a.add b = some r) :
    r.denom ≠ 0 ∧ r.value = a.value + b.value := by
  unfold add at added
  split at added
  · rename_i same
    rcases sum : U256.add a.numer b.numer with _ | total
    · simp [sum] at added
    · simp only [sum, Option.bind_eq_bind, Option.bind_some] at added
      obtain ⟨-, rfl⟩ := U256.add_eq_some.mp sum
      obtain ⟨nonzero, denotes⟩ := new_spec added
      refine ⟨nonzero, ?_⟩
      rw [denotes, value, value, same]
      push_cast
      ring
  · -- over the `lcm` of the two denominators
    rcases scaled : crossScale a b with _ | ⟨lhs, rhs, lcm⟩
    · simp [scaled] at added
    · obtain ⟨-, left, right⟩ := crossScale_spec ha hb scaled
      simp only [scaled, Option.bind_eq_bind, Option.bind_some] at added
      rcases sum : U256.add lhs rhs with _ | total
      · simp [sum] at added
      · simp only [sum, Option.bind_some] at added
        obtain ⟨-, rfl⟩ := U256.add_eq_some.mp sum
        obtain ⟨nonzero, denotes⟩ := new_spec added
        refine ⟨nonzero, ?_⟩
        rw [denotes, ← left, ← right]
        push_cast
        ring

theorem sub_spec {a b r : RationalU256} (ha : a.denom ≠ 0) (hb : b.denom ≠ 0) (subtracted : a.sub b = some r) :
    r.denom ≠ 0 ∧ r.value = a.value - b.value := by
  unfold sub at subtracted
  split at subtracted
  · rename_i same
    rcases difference : U256.sub a.numer b.numer with _ | total
    · simp [difference] at subtracted
    · simp only [difference, Option.bind_eq_bind, Option.bind_some] at subtracted
      obtain ⟨below, rfl⟩ := U256.sub_eq_some.mp difference
      obtain ⟨nonzero, denotes⟩ := new_spec subtracted
      refine ⟨nonzero, ?_⟩
      rw [denotes, value, value, same, Nat.cast_sub below]
      ring
  · rcases scaled : crossScale a b with _ | ⟨lhs, rhs, lcm⟩
    · simp [scaled] at subtracted
    · obtain ⟨-, left, right⟩ := crossScale_spec ha hb scaled
      simp only [scaled, Option.bind_eq_bind, Option.bind_some] at subtracted
      rcases difference : U256.sub lhs rhs with _ | total
      · simp [difference] at subtracted
      · simp only [difference, Option.bind_some] at subtracted
        obtain ⟨below, rfl⟩ := U256.sub_eq_some.mp difference
        obtain ⟨nonzero, denotes⟩ := new_spec subtracted
        refine ⟨nonzero, ?_⟩
        rw [denotes, ← left, ← right, Nat.cast_sub below]
        ring

theorem mul_spec {a b r : RationalU256} (ha : a.denom ≠ 0) (hb : b.denom ≠ 0) (multiplied : a.mul b = some r) :
    r.denom ≠ 0 ∧ r.value = a.value * b.value := by
  have ad : 0 < Nat.gcd a.numer b.denom := gcd_pos_of_denom hb
  have bc : 0 < Nat.gcd a.denom b.numer := Nat.gcd_pos_of_pos_left _ (Nat.pos_of_ne_zero ha)
  simp only [mul, U256.div_of_ne_zero _ ad.ne', U256.div_of_ne_zero _ bc.ne', Option.bind_eq_bind,
    Option.bind_some] at multiplied
  rcases numer : U256.mul (a.numer / Nat.gcd a.numer b.denom) (b.numer / Nat.gcd a.denom b.numer) with _ | n
  · simp [numer] at multiplied
  · rcases denom : U256.mul (a.denom / Nat.gcd a.denom b.numer) (b.denom / Nat.gcd a.numer b.denom) with _ | d
    · simp [numer, denom] at multiplied
    · simp only [numer, denom, Option.bind_some, Option.some.injEq] at multiplied
      subst multiplied
      obtain ⟨-, rfl⟩ := U256.mul_eq_some.mp numer
      obtain ⟨-, rfl⟩ := U256.mul_eq_some.mp denom
      refine ⟨Nat.mul_ne_zero (div_gcd_left_ne_zero ha) (div_gcd_ne_zero hb), ?_⟩
      -- the two cancelled `gcd`s appear once above and once below the line
      have adCast : (Nat.gcd a.numer b.denom : ℚ) ≠ 0 := by exact_mod_cast ad.ne'
      have bcCast : (Nat.gcd a.denom b.numer : ℚ) ≠ 0 := by exact_mod_cast bc.ne'
      simp only [value, newRaw, Nat.cast_mul, cast_div_gcd_left _ _ ad, cast_div_gcd_right _ _ ad,
        cast_div_gcd_left _ _ bc, cast_div_gcd_right _ _ bc]
      field_simp

theorem div_spec {a b r : RationalU256} (ha : a.denom ≠ 0) (hb : b.denom ≠ 0) (nonzero : b.numer ≠ 0)
    (divided : a.div b = some r) : r.denom ≠ 0 ∧ r.value = a.value / b.value := by
  have ac : 0 < Nat.gcd a.numer b.numer := gcd_pos_of_denom nonzero
  have bd : 0 < Nat.gcd a.denom b.denom := gcd_pos_of_denom hb
  simp only [div, U256.div_of_ne_zero _ ac.ne', U256.div_of_ne_zero _ bd.ne', Option.bind_eq_bind,
    Option.bind_some] at divided
  rcases numer : U256.mul (a.numer / Nat.gcd a.numer b.numer) (b.denom / Nat.gcd a.denom b.denom) with _ | n
  · simp [numer] at divided
  · rcases denom : U256.mul (a.denom / Nat.gcd a.denom b.denom) (b.numer / Nat.gcd a.numer b.numer) with _ | d
    · simp [numer, denom] at divided
    · simp only [numer, denom, Option.bind_some, Option.some.injEq] at divided
      subst divided
      obtain ⟨-, rfl⟩ := U256.mul_eq_some.mp numer
      obtain ⟨-, rfl⟩ := U256.mul_eq_some.mp denom
      refine ⟨Nat.mul_ne_zero (div_gcd_left_ne_zero ha) (div_gcd_ne_zero nonzero), ?_⟩
      have acCast : (Nat.gcd a.numer b.numer : ℚ) ≠ 0 := by exact_mod_cast ac.ne'
      have bdCast : (Nat.gcd a.denom b.denom : ℚ) ≠ 0 := by exact_mod_cast bd.ne'
      have numerCast : (b.numer : ℚ) ≠ 0 := by exact_mod_cast nonzero
      simp only [value, newRaw, Nat.cast_mul, cast_div_gcd_left _ _ ac, cast_div_gcd_right _ _ ac,
        cast_div_gcd_left _ _ bd, cast_div_gcd_right _ _ bd]
      field_simp

theorem mulU256_spec {a r : RationalU256} {rhs : Nat} (ha : a.denom ≠ 0) (multiplied : a.mulU256 rhs = some r) :
    r.denom ≠ 0 ∧ r.value = a.value * rhs := by
  have positive : 0 < Nat.gcd a.denom rhs := Nat.gcd_pos_of_pos_left _ (Nat.pos_of_ne_zero ha)
  simp only [mulU256, U256.div_of_ne_zero _ positive.ne', Option.bind_eq_bind, Option.bind_some] at multiplied
  rcases numer : U256.mul a.numer (rhs / Nat.gcd a.denom rhs) with _ | n
  · simp [numer] at multiplied
  · simp only [numer, Option.bind_some, Option.some.injEq] at multiplied
    subst multiplied
    obtain ⟨-, rfl⟩ := U256.mul_eq_some.mp numer
    refine ⟨div_gcd_left_ne_zero ha, ?_⟩
    have gcdCast : (Nat.gcd a.denom rhs : ℚ) ≠ 0 := by exact_mod_cast positive.ne'
    simp only [value, newRaw, Nat.cast_mul, cast_div_gcd_left _ _ positive, cast_div_gcd_right _ _ positive]
    field_simp

theorem addU256_spec {a r : RationalU256} {rhs : Nat} (ha : a.denom ≠ 0) (added : a.addU256 rhs = some r) :
    r.denom ≠ 0 ∧ r.value = a.value + rhs := by
  simp only [addU256, Option.bind_eq_bind] at added
  rcases scaled : U256.mul a.denom rhs with _ | s
  · simp [scaled] at added
  · rcases sum : U256.add a.numer s with _ | n
    · simp [scaled, sum] at added
    · simp only [scaled, sum, Option.bind_some, Option.some.injEq] at added
      subst added
      obtain ⟨-, rfl⟩ := U256.mul_eq_some.mp scaled
      obtain ⟨-, rfl⟩ := U256.add_eq_some.mp sum
      have denomCast : (a.denom : ℚ) ≠ 0 := by exact_mod_cast ha
      refine ⟨ha, ?_⟩
      simp only [value, newRaw, Nat.cast_add, Nat.cast_mul]
      field_simp

theorem subU256_spec {a r : RationalU256} {rhs : Nat} (ha : a.denom ≠ 0) (subtracted : a.subU256 rhs = some r) :
    r.denom ≠ 0 ∧ r.value = a.value - rhs := by
  simp only [subU256, Option.bind_eq_bind] at subtracted
  rcases scaled : U256.mul a.denom rhs with _ | s
  · simp [scaled] at subtracted
  · rcases difference : U256.sub a.numer s with _ | n
    · simp [scaled, difference] at subtracted
    · simp only [scaled, difference, Option.bind_some, Option.some.injEq] at subtracted
      subst subtracted
      obtain ⟨-, rfl⟩ := U256.mul_eq_some.mp scaled
      obtain ⟨below, rfl⟩ := U256.sub_eq_some.mp difference
      have denomCast : (a.denom : ℚ) ≠ 0 := by exact_mod_cast ha
      refine ⟨ha, ?_⟩
      simp only [value, newRaw, Nat.cast_sub below, Nat.cast_mul]
      field_simp

theorem compare_cross {a b : RationalU256} (ha : a.denom ≠ 0) (hb : b.denom ≠ 0) :
    compare (a.numer * b.denom) (b.numer * a.denom) = compare a.value b.value := by
  have aPos : (0 : ℚ) < a.denom := by exact_mod_cast Nat.pos_of_ne_zero ha
  have bPos : (0 : ℚ) < b.denom := by exact_mod_cast Nat.pos_of_ne_zero hb
  apply compare_eq_compare
  · rw [value, value, div_lt_div_iff₀ aPos bPos]
    exact_mod_cast Iff.rfl
  · rw [value, value, div_lt_div_iff₀ bPos aPos]
    exact_mod_cast Iff.rfl

theorem cmp_spec {a b : RationalU256} {o : Ordering} (hb : b.denom ≠ 0)
    (compared : a.cmp b = some o) : o = compare (a.numer * b.denom) (b.numer * a.denom) := by
  have positive : 0 < Nat.gcd a.denom b.denom := gcd_pos_of_denom hb
  simp only [cmp, U256.div_of_ne_zero _ positive.ne', Option.bind_eq_bind, Option.bind_some] at compared
  rcases left : U256.mul a.numer (b.denom / Nat.gcd a.denom b.denom) with _ | lhs
  · simp [left] at compared
  · rcases right : U256.mul b.numer (a.denom / Nat.gcd a.denom b.denom) with _ | rhs
    · simp [left, right] at compared
    · simp only [left, right, Option.bind_some, Option.some.injEq] at compared
      subst compared
      obtain ⟨-, rfl⟩ := U256.mul_eq_some.mp left
      obtain ⟨-, rfl⟩ := U256.mul_eq_some.mp right
      -- both sides are the cross products divided by the `gcd`
      have scaleB : b.denom / Nat.gcd a.denom b.denom * Nat.gcd a.denom b.denom = b.denom :=
        Nat.div_mul_cancel (Nat.gcd_dvd_right _ _)
      have scaleA : a.denom / Nat.gcd a.denom b.denom * Nat.gcd a.denom b.denom = a.denom :=
        Nat.div_mul_cancel (Nat.gcd_dvd_left _ _)
      apply compare_eq_compare
      · rw [← Nat.mul_lt_mul_right positive, Nat.mul_assoc, Nat.mul_assoc, scaleB, scaleA]
      · rw [← Nat.mul_lt_mul_right positive, Nat.mul_assoc, Nat.mul_assoc, scaleB, scaleA]

theorem cmp_of_lt {a b : RationalU256} (hb : b.denom ≠ 0)
    (left : a.numer * b.denom < U256.bound) (right : b.numer * a.denom < U256.bound) :
    (a.cmp b).isSome := by
  have positive : 0 < Nat.gcd a.denom b.denom := gcd_pos_of_denom hb
  have leftFits : a.numer * (b.denom / Nat.gcd a.denom b.denom) < U256.bound :=
    lt_of_le_of_lt (Nat.mul_le_mul_left _ (Nat.div_le_self _ _)) left
  have rightFits : b.numer * (a.denom / Nat.gcd a.denom b.denom) < U256.bound :=
    lt_of_le_of_lt (Nat.mul_le_mul_left _ (Nat.div_le_self _ _)) right
  simp [cmp, U256.div_of_ne_zero _ positive.ne', U256.mul, leftFits, rightFits]

theorem saturatingSub_spec {a b r : RationalU256} (ha : a.denom ≠ 0) (hb : b.denom ≠ 0)
    (subtracted : a.saturatingSub b = some r) :
    r.denom ≠ 0 ∧ r.value = if b.value ≤ a.value then a.value - b.value else 0 := by
  unfold saturatingSub at subtracted
  split at subtracted
  · rename_i same
    have denomPos : (0 : ℚ) < a.denom := by exact_mod_cast Nat.pos_of_ne_zero ha
    split at subtracted
    · -- the numerators overflow: zero, and `b` is the larger
      rename_i below
      simp only [Option.some.injEq] at subtracted
      subst subtracted
      have larger : a.value < b.value := by
        rw [value, value, ← same]
        exact div_lt_div_of_pos_right (by exact_mod_cast below) denomPos
      refine ⟨by decide, ?_⟩
      rw [if_neg (not_le.mpr larger)]
      simp [zero, value]
    · rename_i notBelow
      obtain ⟨nonzero, denotes⟩ := new_spec subtracted
      have larger : b.value ≤ a.value := by
        rw [value, value, ← same]
        exact div_le_div_of_nonneg_right (by exact_mod_cast not_lt.mp notBelow) denomPos.le
      refine ⟨nonzero, ?_⟩
      rw [if_pos larger, denotes, value, value, ← same, Nat.cast_sub (not_lt.mp notBelow)]
      ring
  · rcases scaled : crossScale a b with _ | ⟨lhs, rhs, lcm⟩
    · simp [scaled] at subtracted
    · obtain ⟨lcmNonzero, left, right⟩ := crossScale_spec ha hb scaled
      have lcmPos : (0 : ℚ) < lcm := by exact_mod_cast Nat.pos_of_ne_zero lcmNonzero
      simp only [scaled, Option.bind_eq_bind, Option.bind_some] at subtracted
      split at subtracted
      · rename_i below
        simp only [Option.some.injEq] at subtracted
        subst subtracted
        have larger : a.value < b.value := by
          rw [← left, ← right]
          exact div_lt_div_of_pos_right (by exact_mod_cast below) lcmPos
        refine ⟨by decide, ?_⟩
        rw [if_neg (not_le.mpr larger)]
        simp [zero, value]
      · rename_i notBelow
        obtain ⟨nonzero, denotes⟩ := new_spec subtracted
        have larger : b.value ≤ a.value := by
          rw [← left, ← right]
          exact div_le_div_of_nonneg_right (by exact_mod_cast not_lt.mp notBelow) lcmPos.le
        refine ⟨nonzero, ?_⟩
        rw [if_pos larger, denotes, ← left, ← right, Nat.cast_sub (not_lt.mp notBelow)]
        ring

theorem divU256_spec {a r : RationalU256} {rhs : Nat} (ha : a.denom ≠ 0) (nonzero : rhs ≠ 0)
    (divided : a.divU256 rhs = some r) : r.denom ≠ 0 ∧ r.value = a.value / rhs := by
  have positive : 0 < Nat.gcd a.numer rhs := gcd_pos_of_denom nonzero
  simp only [divU256, U256.div_of_ne_zero _ positive.ne', Option.bind_eq_bind, Option.bind_some] at divided
  rcases denom : U256.mul a.denom (rhs / Nat.gcd a.numer rhs) with _ | d
  · simp [denom] at divided
  · simp only [denom, Option.bind_some, Option.some.injEq] at divided
    subst divided
    obtain ⟨-, rfl⟩ := U256.mul_eq_some.mp denom
    refine ⟨Nat.mul_ne_zero ha (div_gcd_ne_zero nonzero), ?_⟩
    have gcdCast : (Nat.gcd a.numer rhs : ℚ) ≠ 0 := by exact_mod_cast positive.ne'
    have rhsCast : (rhs : ℚ) ≠ 0 := by exact_mod_cast nonzero
    simp only [value, newRaw, Nat.cast_mul, cast_div_gcd_left _ _ positive, cast_div_gcd_right _ _ positive]
    field_simp

theorem saturatingSubU256_spec {a r : RationalU256} {rhs : Nat} (ha : a.denom ≠ 0)
    (subtracted : a.saturatingSubU256 rhs = some r) :
    r.denom ≠ 0 ∧ r.value = if (rhs : ℚ) ≤ a.value then a.value - rhs else 0 := by
  have denomPos : (0 : ℚ) < a.denom := by exact_mod_cast Nat.pos_of_ne_zero ha
  simp only [saturatingSubU256, Option.bind_eq_bind] at subtracted
  rcases scaled : U256.mul a.denom rhs with _ | s
  · simp [scaled] at subtracted
  · obtain ⟨-, rfl⟩ := U256.mul_eq_some.mp scaled
    simp only [scaled, Option.bind_some] at subtracted
    -- `numer < denom * rhs` is `value < rhs`
    have below : a.value < rhs ↔ a.numer < a.denom * rhs := by
      rw [value, div_lt_iff₀ denomPos, mul_comm]
      exact_mod_cast Iff.rfl
    split at subtracted
    · rename_i less
      simp only [Option.some.injEq] at subtracted
      subst subtracted
      refine ⟨by decide, ?_⟩
      rw [if_neg (not_le.mpr (below.mpr less))]
      simp [zero, value]
    · rename_i notLess
      simp only [Option.some.injEq] at subtracted
      subst subtracted
      refine ⟨ha, ?_⟩
      rw [if_pos (not_lt.mp (mt below.mp notLess))]
      simp only [value, newRaw, Nat.cast_sub (not_lt.mp notLess), Nat.cast_mul]
      field_simp

theorem new_of_ne_zero (numer : Nat) {denom : Nat} (nonzero : denom ≠ 0) :
    new numer denom = some ⟨numer / Nat.gcd numer denom, denom / Nat.gcd numer denom⟩ := by
  have positive := gcd_pos_of_denom (n := numer) nonzero
  simp [new, reduce, nonzero, U256.div_of_ne_zero _ positive.ne']

theorem addU256_of_lt {a : RationalU256} {rhs : Nat} (fits : a.numer + a.denom * rhs < U256.bound) :
    a.addU256 rhs = some ⟨a.numer + a.denom * rhs, a.denom⟩ := by
  have product : a.denom * rhs < U256.bound := lt_of_le_of_lt (Nat.le_add_left _ _) fits
  simp [addU256, U256.mul, U256.add, product, fits, newRaw]

/-! Sizes of the ratios the code computes. Each operation returns on operands whose sizes add up
to at most 256 bits, and the size of its result is bounded by theirs, so a chain of operations is
shown not to overflow by adding up the sizes along it. -/

/-- `r` has a non-zero denominator, a numerator below `2 ^ p` and a denominator below `2 ^ q`. -/
structure Within (r : RationalU256) (p q : Nat) : Prop where
  numer_lt : r.numer < 2 ^ p
  denom_lt : r.denom < 2 ^ q
  denom_ne_zero : r.denom ≠ 0

theorem lt_bound {n e : Nat} (lt : n < 2 ^ e) (fits : e ≤ 256) : n < U256.bound :=
  lt_of_lt_of_le lt (Nat.pow_le_pow_right (by decide) fits)

theorem div_mul_div_lt {m n p q : Nat} (g h : Nat) (hm : m < 2 ^ p) (hn : n < 2 ^ q) :
    m / g * (n / h) < 2 ^ (p + q) := by
  rw [Nat.pow_add]
  exact lt_of_le_of_lt (Nat.mul_le_mul (Nat.div_le_self _ _) (Nat.div_le_self _ _))
    (Nat.mul_lt_mul_of_lt_of_lt hm hn)

theorem within_one : Within one 1 1 := ⟨by decide, by decide, by decide⟩

theorem within_new {numer denom p q : Nat} (hn : numer < 2 ^ p) (positive : 0 < denom) (hd : denom < 2 ^ q) :
    ∃ r, new numer denom = some r ∧ Within r p q :=
  ⟨_, new_of_ne_zero numer positive.ne', lt_of_le_of_lt (Nat.div_le_self _ _) hn,
    lt_of_le_of_lt (Nat.div_le_self _ _) hd, div_gcd_ne_zero positive.ne'⟩

theorem intoU256_of_ne_zero {a : RationalU256} (nonzero : a.denom ≠ 0) : a.intoU256 = some (a.numer / a.denom) :=
  U256.div_of_ne_zero _ nonzero

theorem numer_ne_zero_of_value_pos {a : RationalU256} (positive : 0 < a.value) : a.numer ≠ 0 := by
  intro zero
  simp [value, zero] at positive

theorem value_nonneg (a : RationalU256) : 0 ≤ a.value := by
  unfold value
  positivity

theorem value_pos {a : RationalU256} (numer : a.numer ≠ 0) (denom : a.denom ≠ 0) : 0 < a.value := by
  have numerPos : (0 : ℚ) < a.numer := by exact_mod_cast Nat.pos_of_ne_zero numer
  have denomPos : (0 : ℚ) < a.denom := by exact_mod_cast Nat.pos_of_ne_zero denom
  exact div_pos numerPos denomPos

theorem one_le_numer_div_denom {a : RationalU256} (denom : a.denom ≠ 0) (above : 1 < a.value) :
    1 ≤ a.numer / a.denom := by
  have denomPos : (0 : ℚ) < a.denom := by exact_mod_cast Nat.pos_of_ne_zero denom
  have larger : a.denom < a.numer := by
    rw [value, one_lt_div denomPos] at above
    exact_mod_cast above
  exact Nat.div_pos larger.le (Nat.pos_of_ne_zero denom)

namespace Within

variable {a b : RationalU256} {p q p' q' : Nat}

theorem mono (within : Within a p q) (hp : p ≤ p') (hq : q ≤ q') : Within a p' q' :=
  ⟨lt_of_lt_of_le within.numer_lt (Nat.pow_le_pow_right (by decide) hp),
    lt_of_lt_of_le within.denom_lt (Nat.pow_le_pow_right (by decide) hq), within.denom_ne_zero⟩

theorem addU256 (within : Within a p q) {u k : Nat} (hu : u < 2 ^ k) (fits : max p (q + k) + 1 ≤ 256) :
    ∃ r, a.addU256 u = some r ∧ Within r (max p (q + k) + 1) q := by
  have product : a.denom * u < 2 ^ (q + k) := by
    rw [Nat.pow_add]
    exact Nat.mul_lt_mul_of_lt_of_lt within.denom_lt hu
  have sum : a.numer + a.denom * u < 2 ^ (max p (q + k) + 1) := by
    have left := Nat.pow_le_pow_right (n := 2) (by decide) (le_max_left p (q + k))
    have right := Nat.pow_le_pow_right (n := 2) (by decide) (le_max_right p (q + k))
    have numer := within.numer_lt
    rw [Nat.pow_succ]
    omega
  exact ⟨_, addU256_of_lt (lt_bound sum fits), sum, within.denom_lt, within.denom_ne_zero⟩

theorem mulU256 (within : Within a p q) {u k : Nat} (hu : u < 2 ^ k) (fits : p + k ≤ 256) :
    ∃ r, a.mulU256 u = some r ∧ Within r (p + k) q := by
  have positive : 0 < Nat.gcd a.denom u := Nat.gcd_pos_of_pos_left _ (Nat.pos_of_ne_zero within.denom_ne_zero)
  have product : a.numer * (u / Nat.gcd a.denom u) < 2 ^ (p + k) := by
    rw [Nat.pow_add]
    exact lt_of_le_of_lt (Nat.mul_le_mul_left _ (Nat.div_le_self _ _)) (Nat.mul_lt_mul_of_lt_of_lt within.numer_lt hu)
  refine ⟨⟨_, _⟩, ?_, product, lt_of_le_of_lt (Nat.div_le_self _ _) within.denom_lt,
    div_gcd_left_ne_zero (n := u) within.denom_ne_zero⟩
  simp [RationalU256.mulU256, U256.div_of_ne_zero _ positive.ne', U256.mul, lt_bound product fits, newRaw]

theorem mul (ha : Within a p q) (hb : Within b p' q') (fitsNumer : p + p' ≤ 256) (fitsDenom : q + q' ≤ 256) :
    ∃ r, a.mul b = some r ∧ Within r (p + p') (q + q') := by
  have ad : 0 < Nat.gcd a.numer b.denom := gcd_pos_of_denom hb.denom_ne_zero
  have bc : 0 < Nat.gcd a.denom b.numer := Nat.gcd_pos_of_pos_left _ (Nat.pos_of_ne_zero ha.denom_ne_zero)
  have numer := div_mul_div_lt (Nat.gcd a.numer b.denom) (Nat.gcd a.denom b.numer) ha.numer_lt hb.numer_lt
  have denom := div_mul_div_lt (Nat.gcd a.denom b.numer) (Nat.gcd a.numer b.denom) ha.denom_lt hb.denom_lt
  refine ⟨⟨_, _⟩, ?_, numer, denom,
    Nat.mul_ne_zero (div_gcd_left_ne_zero ha.denom_ne_zero) (div_gcd_ne_zero hb.denom_ne_zero)⟩
  simp [RationalU256.mul, U256.div_of_ne_zero _ ad.ne', U256.div_of_ne_zero _ bc.ne', U256.mul,
    lt_bound numer fitsNumer, lt_bound denom fitsDenom, newRaw]

theorem div (ha : Within a p q) (hb : Within b p' q') (nonzero : b.numer ≠ 0) (fitsNumer : p + q' ≤ 256)
    (fitsDenom : q + p' ≤ 256) : ∃ r, a.div b = some r ∧ Within r (p + q') (q + p') := by
  have ac : 0 < Nat.gcd a.numer b.numer := gcd_pos_of_denom nonzero
  have bd : 0 < Nat.gcd a.denom b.denom := gcd_pos_of_denom hb.denom_ne_zero
  have numer := div_mul_div_lt (Nat.gcd a.numer b.numer) (Nat.gcd a.denom b.denom) ha.numer_lt hb.denom_lt
  have denom := div_mul_div_lt (Nat.gcd a.denom b.denom) (Nat.gcd a.numer b.numer) ha.denom_lt hb.numer_lt
  refine ⟨⟨_, _⟩, ?_, numer, denom, Nat.mul_ne_zero (div_gcd_left_ne_zero ha.denom_ne_zero) (div_gcd_ne_zero nonzero)⟩
  simp [RationalU256.div, U256.div_of_ne_zero _ ac.ne', U256.div_of_ne_zero _ bd.ne', U256.mul,
    lt_bound numer fitsNumer, lt_bound denom fitsDenom, newRaw]

theorem saturatingSubU256 (within : Within a p q) {u k : Nat} (hu : u < 2 ^ k) (fits : q + k ≤ 256)
    (positive : 0 < q) : ∃ r, a.saturatingSubU256 u = some r ∧ Within r p q := by
  have product : a.denom * u < 2 ^ (q + k) := by
    rw [Nat.pow_add]
    exact Nat.mul_lt_mul_of_lt_of_lt within.denom_lt hu
  have scaled : U256.mul a.denom u = some (a.denom * u) := by
    simp [U256.mul, lt_bound product fits]
  simp only [RationalU256.saturatingSubU256, scaled, Option.bind_eq_bind, Option.bind_some]
  split
  · exact ⟨_, rfl, Nat.two_pow_pos _, Nat.one_lt_two_pow positive.ne', by decide⟩
  · exact ⟨_, rfl, lt_of_le_of_lt (Nat.sub_le _ _) within.numer_lt, within.denom_lt, within.denom_ne_zero⟩

theorem cmp (ha : Within a p q) (hb : Within b p' q') (fitsLeft : p + q' ≤ 256) (fitsRight : p' + q ≤ 256) :
    a.cmp b = some (compare a.value b.value) := by
  have left : a.numer * b.denom < U256.bound := by
    apply lt_bound _ fitsLeft
    rw [Nat.pow_add]
    exact Nat.mul_lt_mul_of_lt_of_lt ha.numer_lt hb.denom_lt
  have right : b.numer * a.denom < U256.bound := by
    apply lt_bound _ fitsRight
    rw [Nat.pow_add]
    exact Nat.mul_lt_mul_of_lt_of_lt hb.numer_lt ha.denom_lt
  obtain ⟨o, compared⟩ := Option.isSome_iff_exists.mp (cmp_of_lt hb.denom_ne_zero left right)
  rw [compared, cmp_spec hb.denom_ne_zero compared, compare_cross ha.denom_ne_zero hb.denom_ne_zero]

theorem add_lt_bound {m n p p' : Nat} (hm : m < 2 ^ p) (hn : n < 2 ^ p') (hp : p ≤ 255) (hp' : p' ≤ 255) :
    m + n < U256.bound := by
  have left := Nat.pow_le_pow_right (n := 2) (by decide) hp
  have right := Nat.pow_le_pow_right (n := 2) (by decide) hp'
  have double : U256.bound = 2 ^ 255 + 2 ^ 255 := by norm_num [U256.bound]
  omega

theorem crossScale (ha : Within a p q) (hb : Within b p' q') (fitsLeft : p + q' ≤ 256) (fitsRight : p' + q ≤ 256)
    (fitsDenom : q + q' ≤ 256) :
    ∃ lhs rhs lcm, RationalU256.crossScale a b = some (lhs, rhs, lcm) ∧ lhs < 2 ^ (p + q') ∧ rhs < 2 ^ (p' + q) := by
  set g := Nat.gcd a.denom b.denom with hg
  have positive : 0 < g := gcd_pos_of_denom hb.denom_ne_zero
  obtain ⟨k₁, h₁⟩ : g ∣ a.denom := Nat.gcd_dvd_left _ _
  obtain ⟨k₂, h₂⟩ : g ∣ b.denom := Nat.gcd_dvd_right _ _
  have k₁pos : 0 < k₁ := Nat.pos_of_ne_zero fun zero => ha.denom_ne_zero (by rw [h₁, zero, Nat.mul_zero])
  have k₂pos : 0 < k₂ := Nat.pos_of_ne_zero fun zero => hb.denom_ne_zero (by rw [h₂, zero, Nat.mul_zero])
  -- with `a.denom = g * k₁` and `b.denom = g * k₂` the `lcm` is `a.denom * k₂`
  have quotient : b.denom / g = k₂ := by rw [h₂, Nat.mul_div_cancel_left _ positive]
  have overA : a.denom * k₂ / a.denom = k₂ := Nat.mul_div_cancel_left _ (Nat.pos_of_ne_zero ha.denom_ne_zero)
  have overB : a.denom * k₂ / b.denom = k₁ := by
    rw [h₁, h₂, Nat.mul_assoc, Nat.mul_comm k₁, ← Nat.mul_assoc]
    exact Nat.mul_div_cancel_left _ (by positivity)
  have k₁lt : k₁ < 2 ^ q := lt_of_le_of_lt (by rw [h₁]; exact Nat.le_mul_of_pos_left _ positive) ha.denom_lt
  have k₂lt : k₂ < 2 ^ q' := lt_of_le_of_lt (by rw [h₂]; exact Nat.le_mul_of_pos_left _ positive) hb.denom_lt
  have lcmLt : a.denom * k₂ < 2 ^ (q + q') := by
    rw [Nat.pow_add]
    exact Nat.mul_lt_mul_of_lt_of_lt ha.denom_lt k₂lt
  have lhsLt : a.numer * k₂ < 2 ^ (p + q') := by
    rw [Nat.pow_add]
    exact Nat.mul_lt_mul_of_lt_of_lt ha.numer_lt k₂lt
  have rhsLt : b.numer * k₁ < 2 ^ (p' + q) := by
    rw [Nat.pow_add]
    exact Nat.mul_lt_mul_of_lt_of_lt hb.numer_lt k₁lt
  have lcmMul : U256.mul a.denom k₂ = some (a.denom * k₂) := U256.mul_eq_some.mpr ⟨lt_bound lcmLt fitsDenom, rfl⟩
  have lhsMul : U256.mul a.numer k₂ = some (a.numer * k₂) := U256.mul_eq_some.mpr ⟨lt_bound lhsLt fitsLeft, rfl⟩
  have rhsMul : U256.mul b.numer k₁ = some (b.numer * k₁) := U256.mul_eq_some.mpr ⟨lt_bound rhsLt fitsRight, rfl⟩
  refine ⟨_, _, a.denom * k₂, ?_, lhsLt, rhsLt⟩
  simp only [RationalU256.crossScale, ← hg, quotient, U256.div_of_ne_zero _ positive.ne',
    U256.div_of_ne_zero _ ha.denom_ne_zero, U256.div_of_ne_zero _ hb.denom_ne_zero, Option.bind_eq_bind,
    Option.bind_some, lcmMul, overA, overB, lhsMul, rhsMul]

theorem add (ha : Within a p q) (hb : Within b p' q') (fitsLeft : p + q' + 1 ≤ 256) (fitsRight : p' + q + 1 ≤ 256)
    (fitsDenom : q + q' ≤ 256) : (a.add b).isSome := by
  have q'pos : 0 < q' := Nat.pos_of_ne_zero fun zero => hb.denom_ne_zero (by have := hb.denom_lt; simp_all)
  have qpos : 0 < q := Nat.pos_of_ne_zero fun zero => ha.denom_ne_zero (by have := ha.denom_lt; simp_all)
  unfold RationalU256.add
  split_ifs with same
  · -- a shared denominator: the numerators add
    have added : U256.add a.numer b.numer = some (a.numer + b.numer) :=
      U256.add_eq_some.mpr ⟨add_lt_bound ha.numer_lt hb.numer_lt (by omega) (by omega), rfl⟩
    simp [added, new_of_ne_zero _ ha.denom_ne_zero]
  · obtain ⟨lhs, rhs, lcm, scaled, lhsLt, rhsLt⟩ := ha.crossScale hb (by omega) (by omega) fitsDenom
    have lcmNe := (crossScale_spec ha.denom_ne_zero hb.denom_ne_zero scaled).1
    have added : U256.add lhs rhs = some (lhs + rhs) :=
      U256.add_eq_some.mpr ⟨add_lt_bound lhsLt rhsLt (by omega) (by omega), rfl⟩
    simp [scaled, added, new_of_ne_zero _ lcmNe]

theorem numer_le_of_value_le {a b : RationalU256} (same : a.denom = b.denom) (nonzero : a.denom ≠ 0)
    (le : b.value ≤ a.value) : b.numer ≤ a.numer := by
  have denomPos : (0 : ℚ) < a.denom := by exact_mod_cast Nat.pos_of_ne_zero nonzero
  rw [value, value, ← same, div_le_div_iff_of_pos_right denomPos] at le
  exact_mod_cast le

theorem sub (ha : Within a p q) (hb : Within b p' q') (fitsLeft : p + q' ≤ 256) (fitsRight : p' + q ≤ 256)
    (fitsDenom : q + q' ≤ 256) (le : b.value ≤ a.value) : (a.sub b).isSome := by
  unfold RationalU256.sub
  split_ifs with same
  · have subtracted : U256.sub a.numer b.numer = some (a.numer - b.numer) :=
      U256.sub_eq_some.mpr ⟨numer_le_of_value_le same ha.denom_ne_zero le, rfl⟩
    simp [subtracted, new_of_ne_zero _ ha.denom_ne_zero]
  · obtain ⟨lhs, rhs, lcm, scaled, -, -⟩ := ha.crossScale hb fitsLeft fitsRight fitsDenom
    obtain ⟨lcmNe, lhsValue, rhsValue⟩ := crossScale_spec ha.denom_ne_zero hb.denom_ne_zero scaled
    -- the scaled numerators are ordered as the values
    have ordered : rhs ≤ lhs := by
      have lcmPos : (0 : ℚ) < lcm := by exact_mod_cast Nat.pos_of_ne_zero lcmNe
      rw [← lhsValue, ← rhsValue, div_le_div_iff_of_pos_right lcmPos] at le
      exact_mod_cast le
    have subtracted : U256.sub lhs rhs = some (lhs - rhs) := U256.sub_eq_some.mpr ⟨ordered, rfl⟩
    simp [scaled, subtracted, new_of_ne_zero _ lcmNe]

theorem saturatingSub (ha : Within a p q) (hb : Within b p' q') (fitsLeft : p + q' ≤ 256)
    (fitsRight : p' + q ≤ 256) (fitsDenom : q + q' ≤ 256) : (a.saturatingSub b).isSome := by
  unfold RationalU256.saturatingSub
  split_ifs with same lower
  · rfl
  · simp [new_of_ne_zero _ ha.denom_ne_zero]
  · obtain ⟨lhs, rhs, lcm, scaled, -, -⟩ := ha.crossScale hb fitsLeft fitsRight fitsDenom
    have lcmNe := (crossScale_spec ha.denom_ne_zero hb.denom_ne_zero scaled).1
    simp only [scaled, Option.bind_eq_bind, Option.bind_some]
    split_ifs <;> simp [new_of_ne_zero _ lcmNe]

theorem subU256 (within : Within a p q) {u k : Nat} (hu : u < 2 ^ k) (fits : q + k ≤ 256) (le : (u : ℚ) ≤ a.value) :
    (a.subU256 u).isSome := by
  have product : a.denom * u < 2 ^ (q + k) := by
    rw [Nat.pow_add]
    exact Nat.mul_lt_mul_of_lt_of_lt within.denom_lt hu
  have scaled : U256.mul a.denom u = some (a.denom * u) := U256.mul_eq_some.mpr ⟨lt_bound product fits, rfl⟩
  have covered : a.denom * u ≤ a.numer := by
    have denomPos : (0 : ℚ) < a.denom := by exact_mod_cast Nat.pos_of_ne_zero within.denom_ne_zero
    rw [value, le_div_iff₀ denomPos] at le
    exact_mod_cast (by linarith : (a.denom : ℚ) * u ≤ a.numer)
  have subtracted : U256.sub a.numer (a.denom * u) = some (a.numer - a.denom * u) :=
    U256.sub_eq_some.mpr ⟨covered, rfl⟩
  simp [RationalU256.subU256, scaled, subtracted]

end Within

end RationalU256

namespace EpochNumberWithFraction

open RationalU256

theorem length_lt (e : EpochNumberWithFraction) : e.length < 2 ^ 16 := by
  rw [length_eq]
  omega

theorem index_div_length_lt_one {e : EpochNumberWithFraction} (wellFormed : e.isWellFormed) :
    (e.index : ℚ) / e.length < 1 := by
  simp only [isWellFormed, Bool.and_eq_true, decide_eq_true_eq] at wellFormed
  rw [div_lt_one (by exact_mod_cast wellFormed.1)]
  exact_mod_cast wellFormed.2

/-- The order of the code on well-formed epochs is the order of their values: the number first is
enough as each fraction is below one. -/
theorem cmp_eq_compare {x y : EpochNumberWithFraction} (hx : x.isWellFormed) (hy : y.isWellFormed) :
    x.cmp y = compare ((x.number : ℚ) + x.index / x.length) ((y.number : ℚ) + y.index / y.length) := by
  have xBelow := index_div_length_lt_one hx
  have yBelow := index_div_length_lt_one hy
  have xNonneg : (0 : ℚ) ≤ x.index / x.length := by positivity
  have yNonneg : (0 : ℚ) ≤ y.index / y.length := by positivity
  simp only [isWellFormed, Bool.and_eq_true, decide_eq_true_eq] at hx hy
  unfold cmp
  rcases lt_trichotomy x.number y.number with less | same | greater
  · rw [compare_lt_iff_lt.mpr less]
    symm
    apply compare_lt_iff_lt.mpr
    have step : (x.number : ℚ) + 1 ≤ y.number := by exact_mod_cast less
    linarith
  · rw [same, compare_eq_iff_eq.mpr rfl]
    dsimp only
    -- one number: the fractions decide, compared by cross multiplication
    rw [compare_cross (a := ⟨x.index, x.length⟩) (b := ⟨y.index, y.length⟩) hx.1.ne' hy.1.ne', value_mk, value_mk]
    apply compare_eq_compare <;> simp
  · rw [compare_gt_iff_gt.mpr greater]
    symm
    apply compare_gt_iff_gt.mpr
    have step : (y.number : ℚ) + 1 ≤ x.number := by exact_mod_cast greater
    linarith

/-- The ratio of a well-formed epoch: it is computed without overflow, with a numerator below
2^41 and a denominator at most the length, and denotes the epoch's value. -/
theorem toRationalU256_spec {e : EpochNumberWithFraction} (wellFormed : e.isWellFormed) :
    ∃ r, e.toRationalU256 = some r ∧ r.denom ≠ 0 ∧ r.denom < 2 ^ 16 ∧ r.numer < 2 ^ 41 ∧
      r.value = e.number + e.index / e.length := by
  have numberLt := e.number_lt
  have lengthLt := e.length_lt
  have shape := wellFormed
  simp only [isWellFormed, Bool.and_eq_true, decide_eq_true_eq] at shape
  obtain ⟨lengthPos, indexLt⟩ := shape
  have nonzero : e.fullValue ≠ 0 := by
    intro zero
    simp [length_eq, zero] at lengthPos
  -- the reduced fraction is no larger than `index / length`
  have made := new_of_ne_zero e.index lengthPos.ne'
  set fraction : RationalU256 := ⟨e.index / Nat.gcd e.index e.length, e.length / Nat.gcd e.index e.length⟩
  have numerLe : fraction.numer ≤ e.index := Nat.div_le_self _ _
  have denomLe : fraction.denom ≤ e.length := Nat.div_le_self _ _
  have product : fraction.denom * e.number < 2 ^ 40 :=
    calc fraction.denom * e.number ≤ e.length * e.number := Nat.mul_le_mul_right _ denomLe
      _ < 2 ^ 16 * 2 ^ 24 := Nat.mul_lt_mul_of_lt_of_lt lengthLt numberLt
  have fits : fraction.numer + fraction.denom * e.number < 2 ^ 41 := by omega
  have converted : e.toRationalU256 = fraction.addU256 e.number := by
    simp [toRationalU256, nonzero, made]
  rw [addU256_of_lt (lt_of_lt_of_le fits (by decide))] at converted
  obtain ⟨fractionNonzero, fractionValue⟩ := new_spec made
  obtain ⟨-, total⟩ := addU256_spec fractionNonzero (addU256_of_lt (lt_of_lt_of_le fits (by decide)))
  refine ⟨_, converted, fractionNonzero, lt_of_le_of_lt denomLe lengthLt, fits, ?_⟩
  rw [total, fractionValue, add_comm]

/-- On well-formed epochs, comparing the ratios of the code does not overflow and agrees with the
order of the epochs. -/
theorem cmp_toRationalU256 {x y : EpochNumberWithFraction} (hx : x.isWellFormed) (hy : y.isWellFormed) :
    ∃ rx ry, x.toRationalU256 = some rx ∧ y.toRationalU256 = some ry ∧ rx.cmp ry = some (x.cmp y) := by
  obtain ⟨rx, convertedX, xNonzero, xDenom, xNumer, xValue⟩ := toRationalU256_spec hx
  obtain ⟨ry, convertedY, yNonzero, yDenom, yNumer, yValue⟩ := toRationalU256_spec hy
  -- both cross products are below 2^57
  have left : rx.numer * ry.denom < U256.bound :=
    lt_of_lt_of_le (Nat.mul_lt_mul_of_lt_of_lt xNumer yDenom) (by decide)
  have right : ry.numer * rx.denom < U256.bound :=
    lt_of_lt_of_le (Nat.mul_lt_mul_of_lt_of_lt yNumer xDenom) (by decide)
  obtain ⟨o, compared⟩ := Option.isSome_iff_exists.mp (cmp_of_lt yNonzero left right)
  refine ⟨rx, ry, convertedX, convertedY, ?_⟩
  rw [compared, cmp_spec yNonzero compared, compare_cross xNonzero yNonzero, xValue, yValue,
    cmp_eq_compare hx hy]

end EpochNumberWithFraction

namespace RationalU256

theorem arithmetic_exact :
    (∀ {a b r : RationalU256}, a.denom ≠ 0 → b.denom ≠ 0 → a.add b = some r →
      r.denom ≠ 0 ∧ r.value = a.value + b.value) ∧
    (∀ {a b r : RationalU256}, a.denom ≠ 0 → b.denom ≠ 0 → a.sub b = some r →
      r.denom ≠ 0 ∧ r.value = a.value - b.value) ∧
    (∀ {a b r : RationalU256}, a.denom ≠ 0 → b.denom ≠ 0 → a.mul b = some r →
      r.denom ≠ 0 ∧ r.value = a.value * b.value) ∧
    (∀ {a b r : RationalU256}, a.denom ≠ 0 → b.denom ≠ 0 → b.numer ≠ 0 → a.div b = some r →
      r.denom ≠ 0 ∧ r.value = a.value / b.value) ∧
    (∀ {a r : RationalU256} {u : Nat}, a.denom ≠ 0 → a.addU256 u = some r →
      r.denom ≠ 0 ∧ r.value = a.value + u) ∧
    (∀ {a r : RationalU256} {u : Nat}, a.denom ≠ 0 → a.subU256 u = some r →
      r.denom ≠ 0 ∧ r.value = a.value - u) ∧
    (∀ {a r : RationalU256} {u : Nat}, a.denom ≠ 0 → a.mulU256 u = some r →
      r.denom ≠ 0 ∧ r.value = a.value * u) ∧
    (∀ {a b : RationalU256} {o : Ordering}, b.denom ≠ 0 → a.cmp b = some o →
      o = compare (a.numer * b.denom) (b.numer * a.denom)) ∧
    (∀ {a b r : RationalU256}, a.denom ≠ 0 → b.denom ≠ 0 → a.saturatingSub b = some r →
      r.denom ≠ 0 ∧ r.value = if b.value ≤ a.value then a.value - b.value else 0) ∧
    (∀ {x y : EpochNumberWithFraction}, x.isWellFormed → y.isWellFormed →
      ∃ rx ry, x.toRationalU256 = some rx ∧ y.toRationalU256 = some ry ∧ rx.cmp ry = some (x.cmp y)) ∧
    (∀ {a b : RationalU256} {p q p' q' : Nat}, Within a p q → Within b p' q' → p + q' + 1 ≤ 256 →
      p' + q + 1 ≤ 256 → q + q' ≤ 256 → p + p' ≤ 256 →
      (a.add b).isSome ∧ (b.value ≤ a.value → (a.sub b).isSome) ∧ (a.saturatingSub b).isSome ∧
        (a.mul b).isSome ∧ (b.numer ≠ 0 → (a.div b).isSome) ∧ (a.cmp b).isSome) ∧
    (∀ {a : RationalU256} {p q k u : Nat}, Within a p q → u < 2 ^ k → max p (q + k) + 1 ≤ 256 → p + k ≤ 256 →
      (a.addU256 u).isSome ∧ (a.mulU256 u).isSome ∧ ((u : ℚ) ≤ a.value → (a.subU256 u).isSome)) :=
  ⟨add_spec, sub_spec, mul_spec, div_spec, addU256_spec, subU256_spec, mulU256_spec, cmp_spec,
    saturatingSub_spec, EpochNumberWithFraction.cmp_toRationalU256,
    fun ha hb fitsLeft fitsRight fitsDenom fitsNumer =>
      ⟨ha.add hb fitsLeft fitsRight fitsDenom, ha.sub hb (by omega) (by omega) fitsDenom,
        ha.saturatingSub hb (by omega) (by omega) fitsDenom,
        Option.isSome_iff_exists.mpr ((ha.mul hb fitsNumer fitsDenom).imp fun _ made => made.1),
        fun nonzero => Option.isSome_iff_exists.mpr ((ha.div hb nonzero (by omega) (by omega)).imp fun _ made => made.1),
        by rw [ha.cmp hb (by omega) (by omega)]; rfl⟩,
    fun within hu fits fitsProduct =>
      ⟨Option.isSome_iff_exists.mpr ((within.addU256 hu fits).imp fun _ made => made.1),
        Option.isSome_iff_exists.mpr ((within.mulU256 hu fitsProduct).imp fun _ made => made.1),
        fun le => within.subU256 hu (by omega) le⟩⟩

theorem half_add_third_exact :
    add ⟨1, 2⟩ ⟨1, 3⟩ = some ⟨5, 6⟩ ∧
      (⟨5, 6⟩ : RationalU256).value = (⟨1, 2⟩ : RationalU256).value + (⟨1, 3⟩ : RationalU256).value :=
  ⟨by decide, (arithmetic_exact.1 (by decide) (by decide) (by decide)).2⟩

end RationalU256

end Ckb
