import Ckb.Sync.Locator
import Ckb.Shared.AncestorSpec

namespace Ckb.Sync

variable {H : Type}

/-- On the ancestry of `top`, with a fast scanner that returns nothing or the chain's header,
`get_ancestor` from any header of the chain returns the chain's header at the target. -/
theorem ActiveChain.getAncestor_chain {active : ActiveChain H} {top : HeaderIndexView H}
    {chain : Nat → HeaderIndexView H} (ready : HeaderIndexView.AncestorChain active.getHeaderIndexView top chain)
    (scanner : ∀ k ≤ top.number, ∀ target, active.fastScanner target ((chain k).number, (chain k).hash) = none ∨
      active.fastScanner target ((chain k).number, (chain k).hash) = some (chain target))
    {k target : Nat} (within : k ≤ top.number) (le : target ≤ k) :
    active.getAncestor (chain k).hash target = some (chain target) := by
  have restricted := ready.restrict within
  have height : (chain k).number = k := ready.number_eq k within
  unfold ActiveChain.getAncestor
  rw [ready.lookup k within false]
  simp only [Option.bind_eq_bind, Option.bind_some]
  unfold HeaderIndexView.getAncestor
  rw [if_neg (by omega)]
  have walked := restricted.walk active.tipNumber
    (fun j low => scanner j (by rw [height] at low; omega) target)
    ((chain k).number - target) (chain k).number (by omega) le_rfl le_rfl
  rwa [restricted.top] at walked

/-- The store of the active chain holds the ancestry `chain` of the start block, the fast scanner
returns nothing or the chain's header at the target, and the genesis is the chain's first header. -/
structure LocatorChain (active : ActiveChain H) (start : BlockNumberAndHash H) (chain : Nat → HeaderIndexView H) :
    Prop where
  ready : HeaderIndexView.AncestorChain active.getHeaderIndexView (chain start.number) chain
  number_eq : (chain start.number).number = start.number
  hash_eq : (chain start.number).hash = start.hash
  scanner : ∀ k ≤ start.number, ∀ target, active.fastScanner target ((chain k).number, (chain k).hash) = none ∨
    active.fastScanner target ((chain k).number, (chain k).hash) = some (chain target)
  genesis : (chain 0).hash = active.genesisHash

/-- `parent` is the index view the store holds, read either way, for the parent hash of `child`. -/
def IsParent (active : ActiveChain H) (parent child : HeaderIndexView H) : Prop :=
  0 < child.number ∧ ∀ storeFirst, active.getHeaderIndexView child.parentHash storeFirst = some parent

namespace LocatorChain

variable {active : ActiveChain H} {start : BlockNumberAndHash H} {chain : Nat → HeaderIndexView H}

theorem getAncestor (hyp : LocatorChain active start chain) {k target : Nat} (within : k ≤ start.number)
    (le : target ≤ k) : active.getAncestor (chain k).hash target = some (chain target) := by
  have scanner := hyp.scanner
  rw [← hyp.number_eq] at scanner within
  exact ActiveChain.getAncestor_chain hyp.ready scanner within le

end LocatorChain

/-- After the `len`-th push the step is `2 ^ (len - 9)`; a turn that subtracts it needs the height
to be at least twice the step, so below `2 ^ 63` the locator has at most seventy hashes. -/
theorem length_le_of_subtract {len index : Nat} (small : index < 2 ^ 63) (continues : 2 ^ (len - 9) * 2 ≤ index) :
    len ≤ 70 := by
  by_contra long
  have big : 2 ^ 62 ≤ 2 ^ (len - 9) := Nat.pow_le_pow_right (by norm_num) (by omega)
  omega

theorem descend {visited : List Nat} {index next : Nat} (decreasing : (visited ++ [index]).Pairwise (· > ·))
    (lower : next < index) : (visited ++ [index] ++ [next]).Pairwise (· > ·) := by
  refine List.pairwise_append.mpr ⟨decreasing, List.pairwise_singleton _ _, ?_⟩
  intro k member other single
  rw [List.mem_singleton.mp single]
  rcases List.mem_append.mp member with earlier | last
  · have above := (List.pairwise_append.mp decreasing).2.2 k earlier index (by simp)
    omega
  · rw [List.mem_singleton.mp last]
    exact lower

/-- After the push that makes the locator `len + 1` hashes long, the step is `2 ^ (len + 1 - 9)`:
it starts doubling at the tenth hash, and below seventy-two hashes the shift drops no bit. -/
theorem nextStep_eq {len : Nat} (short : len ≤ 70) :
    (if len + 1 ≥ 10 then (2 ^ (len - 9) <<< 1) % 2 ^ 64 else 2 ^ (len - 9)) = 2 ^ (len + 1 - 9) := by
  split_ifs with doubling
  · rw [Nat.shiftLeft_eq, pow_one, ← pow_succ, show len - 9 + 1 = len + 1 - 9 by omega]
    exact Nat.mod_eq_of_lt (Nat.pow_lt_pow_right (by norm_num) (by omega))
  · rw [show len + 1 - 9 = len - 9 by omega]

theorem checkedMul_step {len : Nat} (short : len ≤ 70) :
    checkedMul (2 ^ (len + 1 - 9)) 2 = some (2 ^ (len + 1 - 9) * 2) := by
  have bound : 2 ^ (len + 1 - 9) ≤ 2 ^ 62 := Nat.pow_le_pow_right (by norm_num) (by omega)
  unfold checkedMul u64Max
  rw [if_pos (by omega)]

theorem le_of_head {heights : List Nat} {top : Nat} (decreasing : heights.Pairwise (· > ·))
    (head : heights.head? = some top) : ∀ k ∈ heights, k ≤ top := by
  cases heights with
  | nil => cases head
  | cons first rest =>
    obtain rfl : first = top := by simpa using head
    intro k member
    rcases List.mem_cons.mp member with rfl | later
    · exact le_rfl
    · exact ((List.pairwise_cons.mp decreasing).1 k later).le

namespace LocatorChain

variable {active : ActiveChain H} {start : BlockNumberAndHash H} {chain : Nat → HeaderIndexView H}

theorem getLocatorLoop_spec (hyp : LocatorChain active start chain) (small : start.number < 2 ^ 63) :
    ∀ fuel (visited : List Nat) index b, index ≤ b → b ≤ start.number → index < fuel → visited.length ≤ 70 →
      (visited ++ [index]).Pairwise (· > ·) →
      ∃ heights, active.getLocatorLoop fuel (2 ^ (visited.length - 9)) index (chain b).hash
          (visited.map fun k => (chain k).hash) = some (heights.map fun k => (chain k).hash) ∧
        visited ++ [index] <+: heights ∧ heights.Pairwise (· > ·) ∧ heights.getLast? = some 0 ∧
        heights.length ≤ 72 := by
  intro fuel
  induction fuel with
  | zero =>
    intro visited index b low within enough
    omega
  | succ fuel ih =>
    intro visited index b low within enough short decreasing
    have push : visited.map (fun k => (chain k).hash) ++ [(chain index).hash] =
        (visited ++ [index]).map fun k => (chain k).hash := by simp
    have below : index ≤ start.number := low.trans within
    rw [ActiveChain.getLocatorLoop, hyp.getAncestor within low]
    simp only [Option.bind_eq_bind, Option.bind_some, List.length_append, List.length_map, List.length_singleton,
      nextStep_eq short, checkedMul_step short, push]
    split_ifs with stop halve nonzero
    · -- low heights above a day of blocks: halve the height
      have half : index >>> 1 < index := by
        rw [Nat.shiftRight_eq_div_pow, pow_one]
        unfold oneDayBlockNumber at halve
        omega
      obtain ⟨heights, run, pre, sorted, last, length⟩ :=
        ih (visited ++ [index]) (index >>> 1) index half.le below (by omega) (by simp; omega) (descend decreasing half)
      rw [List.length_append, List.length_singleton] at run
      exact ⟨heights, run, (List.prefix_append _ _).trans pre, sorted, last, length⟩
    · -- the genesis hash closes the list
      refine ⟨visited ++ [index] ++ [0], ?_, List.prefix_append _ _, descend decreasing (by omega), by simp, by simp; omega⟩
      rw [← hyp.genesis]
      simp
    · refine ⟨visited ++ [index], rfl, List.prefix_rfl, decreasing, by simp [not_not.mp nonzero], by simp; omega⟩
    · -- a full step down
      have longest := length_le_of_subtract (small.trans_le' below) (not_lt.mp stop)
      have positive := Nat.one_le_two_pow (n := visited.length + 1 - 9)
      obtain ⟨heights, run, pre, sorted, last, length⟩ :=
        ih (visited ++ [index]) (index - 2 ^ (visited.length + 1 - 9)) index (Nat.sub_le _ _) below (by omega)
          (by simp; omega) (descend decreasing (by omega))
      rw [List.length_append, List.length_singleton] at run
      exact ⟨heights, run, (List.prefix_append _ _).trans pre, sorted, last, length⟩

/-- Every height the locator visits is an ancestor of the start: the walk from the start through
the stored parents reaches it. -/
theorem ancestor (hyp : LocatorChain active start chain) :
    ∀ gap k, k + gap = start.number → Relation.ReflTransGen (IsParent active) (chain k) (chain start.number) := by
  intro gap
  induction gap with
  | zero =>
    intro k top
    rw [show k = start.number by omega]
  | succ gap ih =>
    intro k top
    have within : k + 1 ≤ (chain start.number).number := by rw [hyp.number_eq]; omega
    refine Relation.ReflTransGen.head ⟨?_, fun storeFirst => ?_⟩ (ih (k + 1) (by omega))
    · rw [hyp.ready.number_eq (k + 1) within]
      omega
    · rw [hyp.ready.parent (k + 1) within (by omega), Nat.add_sub_cancel, hyp.ready.lookup k (by omega)]

end LocatorChain

section Peer

variable (peer : ActiveChain H)

/-- A peer's header store in which the stored parent of a stored header has a lower number. -/
def ParentsLower : Prop :=
  ∀ hash header parent, peer.getBlockHeader hash = some header → peer.getBlockHeader header.parentHash = some parent →
    parent.number < header.number

/-- On such a store the parent walk of `locate_latest_common_block` ends within one turn for each
number below the first stored header, with the common block it had or a main-chain number. -/
theorem walkToMainChain_some (lower : ParentsLower peer) (latestCommon : Option Nat) :
    ∀ k hash, (∀ header, peer.getBlockHeader hash = some header → header.number < k) →
      ∃ result, peer.walkToMainChain latestCommon (k + 1) hash = some result ∧
        (result = latestCommon ∨ result.isSome) := by
  intro k
  induction k with
  | zero =>
    intro hash bounded
    cases stored : peer.getBlockHeader hash with
    | none => exact ⟨latestCommon, by rw [ActiveChain.walkToMainChain, stored], Or.inl rfl⟩
    | some header => exact absurd (bounded header stored) (Nat.not_lt_zero _)
  | succ k ih =>
    intro hash bounded
    cases stored : peer.getBlockHeader hash with
    | none => exact ⟨latestCommon, by rw [ActiveChain.walkToMainChain, stored], Or.inl rfl⟩
    | some header =>
      cases main : peer.getBlockNumber hash with
      | some number => exact ⟨some number, by rw [ActiveChain.walkToMainChain, stored, main], Or.inr rfl⟩
      | none =>
        rw [ActiveChain.walkToMainChain, stored, main]
        have below := bounded header stored
        exact ih header.parentHash fun parent parentStored => by
          have lowerParent := lower hash header parent stored parentStored
          omega

variable [DecidableEq H]

/-- A locator that ends at the genesis hash, sent to a peer that has the genesis block at height
zero, always meets a block the peer knows: the search never comes back empty. -/
theorem locateLatestCommonBlock_some (lower : ParentsLower peer) (known : peer.getBlockNumber peer.genesisHash = some 0)
    {locator : List H} (last : locator.getLast? = some peer.genesisHash) :
    ∃ fuel n, peer.locateLatestCommonBlock fuel locator = some (some n) := by
  have genesisAt : locator[locator.length - 1]? = some peer.genesisHash := by
    rw [← List.getLast?_eq_getElem?, last]
  unfold ActiveChain.locateLatestCommonBlock
  simp only [last, ne_eq, not_true_eq_false, if_false]
  split
  · -- the search cannot fail: the genesis hash at the end has a number
    rename_i missing
    refine absurd (List.find?_eq_none.mp missing _ (List.mem_map.mpr ⟨(peer.genesisHash, locator.length - 1),
      List.mem_zipIdx_iff_getElem?.mpr genesisAt, rfl⟩)) ?_
    simp [known]
  rename_i index latestCommon found
  obtain ⟨number, rfl⟩ := Option.isSome_iff_exists.mp (List.find?_eq_some_iff_getElem.mp found).1
  split_ifs with first
  · exact ⟨0, number, rfl⟩
  · cases stored : locator[index - 1]?.bind peer.getBlockHeader with
    | none => exact ⟨0, number, rfl⟩
    | some header =>
      obtain ⟨hash, -, hashStored⟩ := Option.bind_eq_some_iff.mp stored
      obtain ⟨result, walked, common⟩ := walkToMainChain_some peer lower (some number) header.number header.parentHash
        fun parent parentStored => lower hash header parent hashStored parentStored
      refine ⟨header.number + 1, ?_⟩
      rcases common with rfl | isSome
      · exact ⟨number, walked⟩
      · obtain ⟨n, rfl⟩ := Option.isSome_iff_exists.mp isSome
        exact ⟨n, walked⟩

end Peer

section Locator

variable [DecidableEq H] {active : ActiveChain H} {start : BlockNumberAndHash H} {chain : Nat → HeaderIndexView H}

theorem get_locator_reaches_genesis (hyp : LocatorChain active start chain) (small : start.number < 2 ^ 63) :
    ∃ locator, active.getLocator start = some locator ∧ locator.head? = some start.hash ∧
      locator.getLast? = some active.genesisHash ∧
      (∃ heights : List Nat, locator = heights.map (fun k => (chain k).hash) ∧ heights.Pairwise (· > ·) ∧
        ∀ k ∈ heights, (chain k).number = k ∧ Relation.ReflTransGen (IsParent active) (chain k) (chain start.number)) ∧
      locator.length ≤ maxLocatorSize ∧ locatorSizeAccepted locator = true ∧
      ∀ peer : ActiveChain H, peer.genesisHash = active.genesisHash → ParentsLower peer →
        peer.getBlockNumber peer.genesisHash = some 0 →
        ∃ fuel n, peer.locateLatestCommonBlock fuel locator = some (some n) := by
  obtain ⟨heights, run, pre, sorted, last, length⟩ :=
    hyp.getLocatorLoop_spec small (start.number + 1) [] start.number start.number le_rfl le_rfl (by omega) (by simp)
      (List.pairwise_singleton _ _)
  simp only [List.length_nil, Nat.zero_sub, pow_zero, List.map_nil, hyp.hash_eq] at run
  have head : heights.head? = some start.number := by
    obtain ⟨rest, rfl⟩ := pre
    rfl
  have top := le_of_head sorted head
  have genesisLast : (heights.map fun k => (chain k).hash).getLast? = some active.genesisHash := by
    rw [List.getLast?_map, last, Option.map_some, hyp.genesis]
  refine ⟨heights.map fun k => (chain k).hash, run, ?_, genesisLast, ⟨heights, rfl, sorted, fun k member => ?_⟩, ?_, ?_, ?_⟩
  · rw [List.head?_map, head, Option.map_some, hyp.hash_eq]
  · have within := top k member
    exact ⟨hyp.ready.number_eq k (by rw [hyp.number_eq]; exact within), hyp.ancestor (start.number - k) k (by omega)⟩
  · rw [List.length_map]
    unfold maxLocatorSize
    omega
  · unfold locatorSizeAccepted maxLocatorSize
    rw [List.length_map]
    simp only [gt_iff_lt, decide_eq_false_iff_not, Bool.not_eq_true', not_lt]
    omega
  · intro peer same lower known
    exact locateLatestCommonBlock_some peer lower known (by rw [same]; exact genesisLast)

end Locator

section Samples

/-- Thirty-one headers hashed `100 + k`, the genesis first, with no fast scanner: past the ten
hashes a locator lists one by one, so its step doubles. -/
def longLookup (hash : Nat) (_ : Bool) : Option (HeaderIndexView Nat) :=
  if 100 ≤ hash ∧ hash ≤ 130 then some (HeaderIndexView.sampleChain (hash - 100)) else none

def sampleActive : ActiveChain Nat :=
  ⟨30, longLookup, fun _ _ => none, 100, fun hash => if hash = 100 then some 0 else none, fun _ => none⟩

theorem sampleActive_chain : LocatorChain sampleActive ⟨30, 130⟩ HeaderIndexView.sampleChain :=
  ⟨⟨rfl, by decide, by decide, by decide, by decide⟩, rfl, rfl, fun _ _ _ => Or.inl rfl, rfl⟩

example : sampleActive.getLocator ⟨30, 130⟩ =
    some [130, 129, 128, 127, 126, 125, 124, 123, 122, 121, 119, 115, 100] := by
  decide

theorem sample_locator_reaches_genesis :
    LocatorChain sampleActive ⟨30, 130⟩ HeaderIndexView.sampleChain ∧ (30 : Nat) < 2 ^ 63 ∧
      ∃ locator, sampleActive.getLocator ⟨30, 130⟩ = some locator ∧ locator.head? = some 130 ∧
        locator.getLast? = some sampleActive.genesisHash ∧
        (∃ heights : List Nat, locator = heights.map (fun k => (HeaderIndexView.sampleChain k).hash) ∧
          heights.Pairwise (· > ·) ∧ ∀ k ∈ heights, (HeaderIndexView.sampleChain k).number = k ∧
            Relation.ReflTransGen (IsParent sampleActive) (HeaderIndexView.sampleChain k)
              (HeaderIndexView.sampleChain 30)) ∧
        locator.length ≤ maxLocatorSize ∧ locatorSizeAccepted locator = true ∧
        ∀ peer : ActiveChain Nat, peer.genesisHash = sampleActive.genesisHash → ParentsLower peer →
          peer.getBlockNumber peer.genesisHash = some 0 →
          ∃ fuel n, peer.locateLatestCommonBlock fuel locator = some (some n) :=
  ⟨sampleActive_chain, by decide, get_locator_reaches_genesis sampleActive_chain (by decide)⟩

end Samples

end Ckb.Sync
