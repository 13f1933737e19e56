import Ckb.Types.Core
import Ckb.Types.Epoch

/-!
Blocks as the chain store keeps them (`ckb_types::core::views`): a header, its uncles, the
transactions with the cellbase first, and the proposal short ids. Hashes are stored in the views as
the source caches them; the header fields that no modelled code reads are left out.
-/

namespace Ckb

/-- The 10-byte `ProposalShortId` of a transaction proposal. -/
structure ProposalShortId where
  bytes : List UInt8
deriving DecidableEq, Repr

structure Header (H : Type) where
  hash : H
  parentHash : H
  number : Nat
  epoch : EpochNumberWithFraction
  timestamp : Nat
  compactTarget : Nat
deriving DecidableEq, Repr

structure UncleBlock (H : Type) where
  header : Header H
  proposals : List ProposalShortId
deriving DecidableEq, Repr

structure Block (H : Type) where
  header : Header H
  uncles : List (UncleBlock H)
  transactions : List (TransactionView H)
  proposals : List ProposalShortId
deriving DecidableEq, Repr

/-- `BlockExt`: what verification records of a block. `verified` is `none` until the block is
verified on the main chain. -/
structure BlockExt where
  totalDifficulty : Nat
  totalUnclesCount : Nat
  verified : Option Bool
  txsFees : List Nat
deriving DecidableEq, Repr

namespace Block

variable {H : Type}

def hash (block : Block H) : H := block.header.hash

def number (block : Block H) : Nat := block.header.number

def parentHash (block : Block H) : H := block.header.parentHash

def txHashes (block : Block H) : List H := block.transactions.map (·.hash)

/-- `union_proposal_ids_iter`: the block's proposals, then each uncle's. -/
def unionProposalIds (block : Block H) : List ProposalShortId :=
  block.proposals ++ block.uncles.flatMap (·.proposals)

end Block

end Ckb
