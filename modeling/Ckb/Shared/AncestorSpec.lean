import Mathlib
import Ckb.Shared.HeaderIndexView

namespace Ckb.HeaderIndexView

variable {H : Type} (tipNumber : Nat) {number : Nat} {getHeaderView : H → Bool → Option (HeaderIndexView H)}
  {fastScanner : Nat → Nat × H → Option (HeaderIndexView H)}

variable (getHeaderView) in
/-- `chain` is the ancestry of `header` in the store. -/
structure AncestorChain (header : HeaderIndexView H) (chain : Nat → HeaderIndexView H) : Prop where
  top : chain header.number = header
  number_eq : ∀ k ≤ header.number, (chain k).number = k
  parent : ∀ k ≤ header.number, 0 < k → (chain k).parentHash = (chain (k - 1)).hash
  skip : ∀ k ≤ header.number, (chain k).skipHash = none ∨ (chain k).skipHash = some (chain (getSkipHeight k)).hash
  lookup : ∀ k ≤ header.number, ∀ storeFirst, getHeaderView (chain k).hash storeFirst = some (chain k)

variable {self : HeaderIndexView H} {chain : Nat → HeaderIndexView H}

theorem AncestorChain.restrict (ready : AncestorChain getHeaderView self chain) {k : Nat} (within : k ≤ self.number) :
    AncestorChain getHeaderView (chain k) chain := by
  have height := ready.number_eq k within
  refine ⟨by rw [height], fun j low => ready.number_eq j (by omega), fun j low => ready.parent j (by omega),
    fun j low => ready.skip j (by omega), fun j low => ready.lookup j (by omega)⟩

theorem AncestorChain.walkStep (ready : AncestorChain getHeaderView self chain) {numberWalk : Nat}
    (above : number < numberWalk) (within : numberWalk ≤ self.number) :
    ∃ next, walkStep tipNumber number getHeaderView (chain numberWalk) numberWalk = some (chain next, next) ∧
      number ≤ next ∧ next < numberWalk := by
  have lower := getSkipHeight_lt (show 0 < numberWalk by omega)
  -- the parent step is the fallback of both arms
  have parentStep : (getHeaderView (chain numberWalk).parentHash (decide ((chain numberWalk).number ≤ tipNumber))).map
      (·, numberWalk - 1) = some (chain (numberWalk - 1), numberWalk - 1) := by
    rw [ready.parent numberWalk within (by omega), ready.lookup (numberWalk - 1) (by omega)]
    rfl
  unfold HeaderIndexView.walkStep
  rcases ready.skip numberWalk within with unset | set
  · rw [unset]
    exact ⟨numberWalk - 1, parentStep, by omega, by omega⟩
  · rw [set]
    dsimp only
    split_ifs with follows
    · refine ⟨getSkipHeight numberWalk, ?_, by omega, lower⟩
      rw [ready.lookup _ (by omega)]
      rfl
    · exact ⟨numberWalk - 1, parentStep, by omega, by omega⟩

theorem AncestorChain.walk (ready : AncestorChain getHeaderView self chain)
    (scanner : ∀ k ≤ self.number, fastScanner number ((chain k).number, (chain k).hash) = none ∨
      fastScanner number ((chain k).number, (chain k).hash) = some (chain number)) :
    ∀ fuel numberWalk, number ≤ numberWalk → numberWalk ≤ self.number → numberWalk - number ≤ fuel →
      walk tipNumber number getHeaderView fastScanner fuel (chain numberWalk) numberWalk = some (chain number) := by
  intro fuel
  induction fuel with
  | zero =>
    intro numberWalk low within enough
    obtain rfl : numberWalk = number := by omega
    rw [HeaderIndexView.walk, if_neg (Nat.lt_irrefl _)]
  | succ fuel ih =>
    intro numberWalk low within enough
    rcases Nat.eq_or_lt_of_le low with rfl | above
    · rw [HeaderIndexView.walk, if_neg (Nat.lt_irrefl _)]
    · obtain ⟨next, stepped, low', lower⟩ := ready.walkStep tipNumber above within
      rw [HeaderIndexView.walk, if_pos above]
      simp only [stepped, Option.bind_eq_bind, Option.bind_some]
      rcases scanner next (by omega) with none' | found
      · rw [none']
        exact ih next low' (by omega) (by omega)
      · rw [found]

theorem AncestorChain.parents (ready : AncestorChain getHeaderView self chain) :
    ∀ k, number ≤ k → k ≤ self.number →
      Relation.ReflTransGen (fun parent child => ∀ storeFirst, getHeaderView child.parentHash storeFirst = some parent)
        (chain number) (chain k) := by
  intro k
  induction k with
  | zero =>
    intro low _
    obtain rfl : number = 0 := by omega
    exact .refl
  | succ k ih =>
    intro low within
    rcases Nat.eq_or_lt_of_le low with rfl | above
    · exact .refl
    · refine (ih (by omega) (by omega)).tail fun storeFirst => ?_
      rw [ready.parent (k + 1) within (by omega)]
      exact ready.lookup k (by omega) storeFirst

theorem get_ancestor_walks_to_ancestor (ready : AncestorChain getHeaderView self chain)
    (scanner : ∀ k ≤ self.number, fastScanner number ((chain k).number, (chain k).hash) = none ∨
      fastScanner number ((chain k).number, (chain k).hash) = some (chain number))
    (le : number ≤ self.number) :
    self.getAncestor tipNumber number getHeaderView fastScanner = some (chain number) ∧
      (chain number).number = number ∧
      Relation.ReflTransGen (fun parent child => ∀ storeFirst, getHeaderView child.parentHash storeFirst = some parent)
        (chain number) self ∧
      ∀ height, 2 ≤ height → height < 2 ^ 63 → getSkipHeight height < height := by
  refine ⟨?_, ready.number_eq number le, ?_, fun height two _ => getSkipHeight_lt (by omega)⟩
  · unfold getAncestor
    rw [if_neg (by omega)]
    have walked := ready.walk tipNumber scanner (self.number - number) self.number le (Nat.le_refl _) (by omega)
    rwa [ready.top] at walked
  · have linked := ready.parents self.number le (Nat.le_refl _)
    rwa [ready.top] at linked

theorem AncestorChain.buildSkip (ready : AncestorChain getHeaderView self chain) (positive : 0 < self.number)
    (scanner : ∀ k ≤ self.number, fastScanner (getSkipHeight self.number) ((chain k).number, (chain k).hash) = none ∨
      fastScanner (getSkipHeight self.number) ((chain k).number, (chain k).hash) =
        some (chain (getSkipHeight self.number))) :
    (self.buildSkip tipNumber getHeaderView fastScanner).skipHash = some (chain (getSkipHeight self.number)).hash := by
  have lower := getSkipHeight_lt positive
  have found := (get_ancestor_walks_to_ancestor tipNumber ready scanner (Nat.le_of_lt lower)).1
  unfold HeaderIndexView.buildSkip
  rw [if_neg (by omega)]
  dsimp only
  rw [found]
  rfl

section Samples

/-- Five headers hashed `100 + k`, each with its skip hash set. -/
def sampleChain (k : Nat) : HeaderIndexView Nat :=
  ⟨100 + k, k, 100 + (k - 1), if k = 0 then none else some (100 + getSkipHeight k)⟩

def sampleLookup (hash : Nat) (_ : Bool) : Option (HeaderIndexView Nat) :=
  if 100 ≤ hash ∧ hash ≤ 104 then some (sampleChain (hash - 100)) else none

theorem sampleChain_ready : AncestorChain sampleLookup (sampleChain 4) sampleChain :=
  ⟨rfl, by decide, by decide, by decide, by decide⟩

theorem sample_chain_ancestor :
    (sampleChain 4).getAncestor 10 1 sampleLookup (fun _ _ => none) = some (sampleChain 1) :=
  (get_ancestor_walks_to_ancestor 10 sampleChain_ready (by decide) (by decide)).1

end Samples

end Ckb.HeaderIndexView
