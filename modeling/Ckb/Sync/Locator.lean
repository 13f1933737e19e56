import Ckb.Shared.HeaderIndexView
import Ckb.Sync.Inflight
import Ckb.Types.Block

/-!
Block locators (`sync/src/types/mod.rs`). `get_locator` lists hashes of ancestors of a start
block: the first ten one block apart, then with a step that doubles at each entry, and for a low
start above a day of blocks the heights halve while the list is short; the genesis hash closes the
list. A peer answers `GetHeaders` only for a locator of at most `MAX_LOCATOR_SIZE` hashes, and
`locate_latest_common_block` looks for the first locator hash on its own main chain, which the
genesis hash at the end guarantees.

`ActiveChain` is what these functions read: the header index views, the fast scanner of
`get_ancestor`, the main-chain index of the snapshot and the header column of the store. `step`
is a `u64`, so its shift drops the high bit and `step * 2` panics on overflow.
-/

namespace Ckb.Sync

def oneDayBlockNumber : Nat := 8192

def maxLocatorSize : Nat := 101

structure ActiveChain (H : Type) where
  tipNumber : Nat
  getHeaderIndexView : H → Bool → Option (HeaderIndexView H)
  fastScanner : Nat → Nat × H → Option (HeaderIndexView H)
  genesisHash : H
  /-- `snapshot.get_block_number`. -/
  getBlockNumber : H → Option Nat
  /-- `store.get_block_header`. -/
  getBlockHeader : H → Option (Header H)

namespace ActiveChain

variable {H : Type} [DecidableEq H] (active : ActiveChain H)

/-- `get_ancestor`: from the index view of `base`, read with the store last. -/
def getAncestor (base : H) (number : Nat) : Option (HeaderIndexView H) := do
  let view ← active.getHeaderIndexView base false
  view.getAncestor active.tipNumber number active.getHeaderIndexView active.fastScanner

/-- The loop of `get_locator`, on fuel of one turn for each height it may still visit; `none` is
the panic of a missing ancestor or an overflow, or no fuel left. -/
def getLocatorLoop : Nat → Nat → Nat → H → List H → Option (List H)
  | 0, _, _, _, _ => none
  | fuel + 1, step, index, base, locator => do
    let headerHash := (← active.getAncestor base index).hash
    let locator := locator ++ [headerHash]
    let step := if locator.length ≥ 10 then (step <<< 1) % 2 ^ 64 else step
    if index < (← checkedMul step 2) then
      -- a few low heights start parallel block downloads early
      if locator.length < 52 ∧ index > oneDayBlockNumber then
        getLocatorLoop fuel step (index >>> 1) headerHash locator
      -- the genesis hash always closes the list
      else if index ≠ 0 then some (locator ++ [active.genesisHash])
      else some locator
    else getLocatorLoop fuel step (index - step) headerHash locator

def getLocator (start : BlockNumberAndHash H) : Option (List H) :=
  active.getLocatorLoop (start.number + 1) 1 start.number start.hash []

/-- The parent walk of `locate_latest_common_block`, from the parent of the last unknown locator
hash up to a block of the main chain; `none` is no fuel left. -/
def walkToMainChain (latestCommon : Option Nat) : Nat → H → Option (Option Nat)
  | 0, _ => none
  | fuel + 1, blockHash =>
    match active.getBlockHeader blockHash with
    | none => some latestCommon
    | some blockHeader =>
      match active.getBlockNumber blockHash with
      | some blockNumber => some (some blockNumber)
      | none => walkToMainChain latestCommon fuel blockHeader.parentHash

/-- `locate_latest_common_block`; the outer `none` is the panic of the `expect`, or no fuel left
for the parent walk. -/
def locateLatestCommonBlock (fuel : Nat) (locator : List H) : Option (Option Nat) :=
  match locator.getLast? with
  | none => some none
  | some locatorHash =>
    if locatorHash ≠ active.genesisHash then some none
    else
      match (locator.zipIdx.map fun (hash, index) => (index, active.getBlockNumber hash)).find? (·.2.isSome) with
      | none => none
      | some (index, latestCommon) =>
        if index = 0 ∨ latestCommon = some 0 then some latestCommon
        else
          match locator[index - 1]?.bind active.getBlockHeader with
          | some header => active.walkToMainChain latestCommon fuel header.parentHash
          | none => some latestCommon

end ActiveChain

/-- The locator check of `GetHeadersProcess::execute`: a longer locator is a malformed message. -/
def locatorSizeAccepted {H : Type} (locator : List H) : Bool := !(locator.length > maxLocatorSize)

end Ckb.Sync
