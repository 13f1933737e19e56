import Ckb.Store.Transaction

/-!
The block sampling of the light client server (`get_last_state_proof.rs`). A light client asks for
the blocks from its start block to a last block of the main chain: the `last_n_blocks` blocks below
the last one, and before them one block for each of its sampled total difficulties. The server
finds those blocks by binary search over the total difficulties of the main chain
(`FindBlocksViaDifficulties`, generic over `get_block_total_difficulty`) and hands the numbers
to `complete_headers`.

Block numbers are `u64` and the `+`, `*` and `-` of the source panic on overflow, as the node is
built with `overflow-checks`: the outer `none` of a result is that panic. `complete_headers` and
`reply_proof`, which turn the numbers into verifiable headers with their MMR positions, are left
out: `execute` stops at the numbers it passes to them.
-/

namespace Ckb.Store

variable {H : Type} [DecidableEq H]

/-- `is_main_chain`: the hash has an entry in `COLUMN_INDEX`. -/
def isMainChain (store : Store H) (hash : H) : Bool := (store.getBlockNumber hash).isSome

/-- The walk of `get_ancestor`, one turn a header. A base on the main chain reads the main chain at
the number; any other base goes on to its parent. -/
def getAncestorWalk (store : Store H) (number : Nat) : Nat → H → Option (Header H)
  | 0, _ => none
  | fuel + 1, base =>
    match store.getBlockHeader base with
    | none => none
    | some header =>
      if number > header.number then none
      else if number = header.number then some header
      else if store.isMainChain base then (store.getBlockHash number).bind store.getBlockHeader
      else getAncestorWalk store number fuel header.parentHash

/-- `get_ancestor`, on fuel of one turn for each number from the base's down to the ancestor's. -/
def getAncestor (store : Store H) (base : H) (number : Nat) : Option (Header H) :=
  match store.getBlockHeader base with
  | none => none
  | some header => store.getAncestorWalk number (header.number - number + 1) base

end Ckb.Store

namespace Ckb.Light

def getLastStateProofLimit : Nat := 1000

/-- `{:#x}` of a `U256`. -/
def lowerHex (value : Nat) : String := "0x" ++ String.ofList (Nat.toDigits 16 value)

namespace FindBlocksViaDifficulties

variable (getBlockTotalDifficulty : Nat → Option Nat)

/-- The `loop` of the search, over the bracket of a number below the minimum and one at or above
it whose total difficulty is `endTotalDifficulty`. The source loops without a bound; each turn
narrows the bracket, so the fuel the caller gives never runs out on a bracket of its own. -/
def searchLoop (minTotalDifficulty : Nat) : Nat → Nat → Nat → Nat → Option (Option (Nat × Nat))
  | 0, _, _, _ => none
  | fuel + 1, blockLessThanMin, blockGreaterThanMin, endTotalDifficulty =>
    if blockGreaterThanMin = blockLessThanMin + 1 then some (some (blockGreaterThanMin, endTotalDifficulty))
    else
      match checkedAdd blockLessThanMin blockGreaterThanMin with
      | none => none
      | some sum =>
        let nextNumber := sum / 2
        match getBlockTotalDifficulty nextNumber with
        | none => some none
        | some totalDifficulty =>
          match compare totalDifficulty minTotalDifficulty with
          | .eq => some (some (nextNumber, totalDifficulty))
          | .lt => searchLoop minTotalDifficulty fuel nextNumber blockGreaterThanMin endTotalDifficulty
          | .gt => searchLoop minTotalDifficulty fuel blockLessThanMin nextNumber totalDifficulty

/-- `get_first_block_total_difficulty_is_not_less_than`: the first block of
`[startBlockNumber, endBlockNumber)` whose total difficulty is at least the minimum, with that
total difficulty. -/
def getFirstBlockTotalDifficultyIsNotLessThan (startBlockNumber endBlockNumber minTotalDifficulty : Nat) :
    Option (Option (Nat × Nat)) :=
  match getBlockTotalDifficulty startBlockNumber with
  | none => some none
  | some startTotalDifficulty =>
    if startTotalDifficulty ≥ minTotalDifficulty then some (some (startBlockNumber, startTotalDifficulty))
    else
      match checkedSub endBlockNumber 1 with
      | none => none
      | some lastBlockNumber =>
        match getBlockTotalDifficulty lastBlockNumber with
        | none => some none
        | some endTotalDifficulty =>
          if endTotalDifficulty < minTotalDifficulty then some none
          else
            searchLoop getBlockTotalDifficulty minTotalDifficulty (endBlockNumber - startBlockNumber)
              startBlockNumber lastBlockNumber endTotalDifficulty

/-- The error of a difficulty that no block of the range reaches. -/
def notInRangeMessage (difficulty startBlockNumber endBlockNumber : Nat) : String :=
  "the difficulty (" ++ lowerHex difficulty ++ ") is not in the block range [" ++ toString startBlockNumber ++
    ", " ++ toString endBlockNumber ++ ")"

/-- The `for` loop of `get_block_numbers_via_difficulties`. A difficulty that the last block found
already reaches is skipped; the next search starts one below the last block found. -/
def getBlockNumbersLoop (endBlockNumber : Nat) :
    List Nat → Nat → Nat → List Nat → Option (Except String (List Nat))
  | [], _, _, numbers => some (.ok numbers)
  | difficulty :: difficulties, startBlockNumber, currentDifficulty, numbers =>
    if currentDifficulty ≥ difficulty then
      getBlockNumbersLoop endBlockNumber difficulties startBlockNumber currentDifficulty numbers
    else
      match getFirstBlockTotalDifficultyIsNotLessThan getBlockTotalDifficulty startBlockNumber endBlockNumber difficulty with
      | none => none
      | some none => some (.error (notInRangeMessage difficulty startBlockNumber endBlockNumber))
      | some (some (num, diff)) =>
        getBlockNumbersLoop endBlockNumber difficulties (if num > startBlockNumber then num - 1 else startBlockNumber)
          diff (numbers ++ [num])

def getBlockNumbersViaDifficulties (startBlockNumber endBlockNumber : Nat) (difficulties : List Nat) :
    Option (Except String (List Nat)) :=
  getBlockNumbersLoop getBlockTotalDifficulty endBlockNumber difficulties startBlockNumber 0 []

end FindBlocksViaDifficulties

/-- The `StatusCode`s that the sampling returns. -/
inductive StatusCode where
  | malformedProtocolMessage
  | invalidRequest
  | internalError
  | invaildDifficultyBoundary
deriving DecidableEq, Repr

/-- A `StatusCode` with its context, as `with_context` builds it. -/
structure Status where
  code : StatusCode
  context : String
deriving DecidableEq, Repr

/-- The fields of a `GetLastStateProof` message that `execute` reads. -/
structure GetLastStateProof (H : Type) where
  lastHash : H
  startHash : H
  startNumber : Nat
  lastNBlocks : Nat
  difficultyBoundary : Nat
  difficulties : List Nat
deriving DecidableEq, Repr

/-- How `execute` ends: a status returned early, the tip state sent for a last hash off the main
chain, or the block numbers handed to `complete_headers`. -/
inductive Outcome where
  | status (status : Status)
  | replyTipState
  | completeHeaders (numbers : List Nat)
deriving DecidableEq, Repr

namespace BlockSampler

variable {H : Type} [DecidableEq H] (store : Store H)

/-- `get_block_total_difficulty` of the snapshot: the total difficulty of the main-chain block at
a number. -/
def getBlockTotalDifficulty (number : Nat) : Option Nat :=
  ((store.getBlockHash number).bind store.getBlockExt).map (·.totalDifficulty)

/-- The block "Check the request data" of `execute`: `none` when the request passes. -/
def checkRequestData (startBlockNumber difficultyBoundary : Nat) (difficulties : List Nat) : Option Status :=
  -- `difficulties.windows(2).any(|d| d[0] >= d[1])`
  if (difficulties.zip difficulties.tail).any (fun (first, second) => decide (first ≥ second)) then
    some ⟨.invalidRequest, "the difficulties should be monotonically increasing"⟩
  else if (difficulties.getLast?.map fun difficulty => decide (difficulty ≥ difficultyBoundary)).getD false then
    some ⟨.invalidRequest, "the difficulty boundary should be greater than all difficulties"⟩
  else
    match difficulties.head? with
    | none => none
    | some startDifficulty =>
      if startBlockNumber > 0 then
        let previousBlockNumber := startBlockNumber - 1
        match getBlockTotalDifficulty store previousBlockNumber with
        | some totalDifficulty =>
          if totalDifficulty ≥ startDifficulty then
            some ⟨.invalidRequest, "the start difficulty is " ++ lowerHex startDifficulty ++
              " too less than the previous block #" ++ toString previousBlockNumber ++ " of the start block"⟩
          else none
        | none =>
          some ⟨.internalError, "the total difficulty for block#" ++ toString previousBlockNumber ++ " is not found"⟩
      else none

/-- The pair `(sampled_numbers, last_n_numbers)` of `execute`, or the status it returns instead.
With no more than `last_n_blocks` blocks from the start every block is in the last-N segment;
otherwise the segment begins at the first block that reaches the difficulty boundary, moved down
to keep `last_n_blocks` blocks, and the difficulties below it are sampled. -/
def sampledAndLastNNumbers (startBlockNumber lastBlockNumber lastNBlocks difficultyBoundary : Nat)
    (difficulties : List Nat) : Option (Except Status (List Nat × List Nat)) :=
  match checkedSub lastBlockNumber startBlockNumber with
  | none => none
  | some blocks =>
    if blocks ≤ lastNBlocks then some (.ok ([], List.range' startBlockNumber blocks))
    else
      match FindBlocksViaDifficulties.getFirstBlockTotalDifficultyIsNotLessThan (getBlockTotalDifficulty store)
          startBlockNumber lastBlockNumber difficultyBoundary with
      | none => none
      | some none =>
        some (.error ⟨.invaildDifficultyBoundary, "the difficulty boundary (" ++ lowerHex difficultyBoundary ++
          ") is not in the block range [" ++ toString startBlockNumber ++ ", " ++ toString lastBlockNumber ++ ")"⟩)
      | some (some (num, _)) =>
        -- too few blocks after the difficulty boundary: take more
        let boundaryNumber := if lastBlockNumber - num < lastNBlocks then lastBlockNumber - lastNBlocks else num
        let lastNNumbers := List.range' boundaryNumber (lastBlockNumber - boundaryNumber)
        if boundaryNumber > 0 then
          match getBlockTotalDifficulty store (boundaryNumber - 1) with
          | none =>
            some (.error ⟨.internalError,
              "the total difficulty for block#" ++ toString boundaryNumber ++ " is not found"⟩)
          | some totalDifficulty =>
            match FindBlocksViaDifficulties.getBlockNumbersViaDifficulties (getBlockTotalDifficulty store)
                startBlockNumber boundaryNumber (difficulties.takeWhile fun difficulty => decide (difficulty ≤ totalDifficulty)) with
            | none => none
            | some (.ok sampledNumbers) => some (.ok (sampledNumbers, lastNNumbers))
            | some (.error errmsg) => some (.error ⟨.internalError, errmsg⟩)
        else some (.ok ([], lastNNumbers))

/-- `reorg_last_n_numbers`: the `last_n_blocks` blocks below the start, when the start block is not
the main-chain ancestor of the last block. -/
def reorgLastNNumbers (message : GetLastStateProof H) : List Nat :=
  if message.startNumber = 0 ∨
      (store.getAncestor message.lastHash message.startNumber).any (·.hash = message.startHash) then []
  else
    let minBlockNumber := message.startNumber - min message.startNumber message.lastNBlocks
    List.range' minBlockNumber (message.startNumber - minBlockNumber)

end BlockSampler

open BlockSampler in
/-- `GetLastStateProofProcess::execute`, up to `complete_headers`. -/
def execute {H : Type} [DecidableEq H] (store : Store H) (message : GetLastStateProof H) : Option Outcome :=
  -- `difficulties().len() + (last_n_blocks as usize) * 2` on `usize`
  match (checkedMul message.lastNBlocks 2).bind (checkedAdd message.difficulties.length) with
  | none => none
  | some samples =>
    if samples > getLastStateProofLimit then some (.status ⟨.malformedProtocolMessage, "too many samples"⟩)
    else if !store.isMainChain message.lastHash then some .replyTipState
    else
      match store.getBlock message.lastHash with
      -- the `expect` on the last block
      | none | some none => none
      | some (some lastBlock) =>
        match checkRequestData store message.startNumber message.difficultyBoundary message.difficulties with
        | some status => some (.status status)
        | none =>
          match sampledAndLastNNumbers store message.startNumber lastBlock.number message.lastNBlocks
              message.difficultyBoundary message.difficulties with
          | none => none
          | some (.error status) => some (.status status)
          | some (.ok (sampledNumbers, lastNNumbers)) =>
            some (.completeHeaders (reorgLastNNumbers store message ++ sampledNumbers ++ lastNNumbers))

end Ckb.Light
