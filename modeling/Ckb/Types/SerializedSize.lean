import Ckb.Types.Block
import Ckb.Types.Molecule

/-!
The serialized sizes of the packed types of `blockchain.mol`, as molecule lays them out, and the
size `BlockBytesVerifier` bounds. A vector of fixed-size items is a `fixvec`, a vector of tables or
vectors a `dynvec`, and an absent option takes no bytes. The structs have fixed sizes: a cell input
44 bytes, a cell dep 37, a header 208, a proposal short id 10. The transactions of the model carry
no version, whose `Uint32` always takes 4 bytes.
-/

namespace Ckb

open Molecule

variable {H : Type}

/-- `Header::TOTAL_SIZE`: the 192 bytes of `RawHeader` and the 16 of the nonce. -/
def Header.totalSize : Nat := 208

def ProposalShortId.serializedSize : Nat := 10

def Script.serializedSize (script : Script H) : Nat := tableSize [32, 1, bytesSize script.args]

def CellOutput.serializedSize (output : CellOutput H) : Nat :=
  tableSize [8, output.lock.serializedSize, (output.type.map Script.serializedSize).getD 0]

namespace TransactionView

/-- The bytes of the packed `RawTransaction`. -/
def rawSerializedSize (tx : TransactionView H) : Nat :=
  tableSize [4, fixVecSize 37 tx.cellDeps.length, fixVecSize 32 tx.headerDeps.length,
    fixVecSize 44 tx.inputs.length, dynVecSize (tx.outputs.map CellOutput.serializedSize),
    dynVecSize (tx.outputsData.map bytesSize)]

/-- The bytes of the packed `Transaction`, `tx.data().as_slice().len()`. -/
def serializedSize (tx : TransactionView H) : Nat :=
  tableSize [tx.rawSerializedSize, dynVecSize (tx.witnesses.map bytesSize)]

/-- `serialized_size_in_block`: the transaction and its offset in the block's `TransactionVec`. -/
def serializedSizeInBlock (tx : TransactionView H) : Nat := tx.serializedSize + numberSize

end TransactionView

namespace UncleBlock

def serializedSize (uncle : UncleBlock H) : Nat :=
  tableSize [Header.totalSize, fixVecSize ProposalShortId.serializedSize uncle.proposals.length]

def serializedSizeInBlock : Nat := Header.totalSize + 5 * numberSize

end UncleBlock

/-- The bytes of a packed `Block` with these uncles, transactions and proposals, or of a `BlockV1`
when there is an extension. -/
def blockSize (uncles : List (UncleBlock H)) (transactions : List (TransactionView H))
    (proposals : List ProposalShortId) (extension : Option (List UInt8)) : Nat :=
  tableSize ([Header.totalSize, dynVecSize (uncles.map UncleBlock.serializedSize),
    dynVecSize (transactions.map TransactionView.serializedSize),
    fixVecSize ProposalShortId.serializedSize proposals.length] ++ extension.toList.map bytesSize)

/-- `serialized_size_without_uncle_proposals`: the block's size less its uncles' proposals; each
uncle keeps the item count of its `ProposalShortIdVec`. -/
def serializedSizeWithoutUncleProposals (uncles : List (UncleBlock H))
    (transactions : List (TransactionView H)) (proposals : List ProposalShortId)
    (extension : Option (List UInt8)) : Nat :=
  blockSize uncles transactions proposals extension -
    (uncles.map fun uncle => fixVecSize ProposalShortId.serializedSize uncle.proposals.length - numberSize).sum

def Block.serializedSizeWithoutUncleProposals (block : Block H) (extension : Option (List UInt8)) : Nat :=
  Ckb.serializedSizeWithoutUncleProposals block.uncles block.transactions block.proposals extension

inductive BlockErrorKind where
  | exceededMaximumBlockBytes
deriving DecidableEq, Repr

/-- `BlockBytesVerifier::verify`, which does not check the genesis block. -/
def BlockBytesVerifier.verify (blockBytesLimit : Nat) (block : Block H) (extension : Option (List UInt8)) :
    Except BlockErrorKind Unit :=
  if block.number = 0 then .ok ()
  else if block.serializedSizeWithoutUncleProposals extension ≤ blockBytesLimit then .ok ()
  else .error .exceededMaximumBlockBytes

/-! An uncle adds `serialized_size_in_block` bytes, a transaction its own `serialized_size_in_block`
and a proposal 10: the offsets and item counts of the vectors are counted once, in the block with
nothing in it. -/

theorem UncleBlock.serializedSize_add_numberSize (uncle : UncleBlock H) :
    uncle.serializedSize + numberSize =
      serializedSizeInBlock + (fixVecSize ProposalShortId.serializedSize uncle.proposals.length - numberSize) := by
  simp only [serializedSize, serializedSizeInBlock, tableSize, dynVecSize, fixVecSize, numberSize,
    Header.totalSize, ProposalShortId.serializedSize, List.length_cons, List.length_nil, List.sum_cons,
    List.sum_nil]
  omega

theorem UncleBlock.sum_serializedSize (uncles : List (UncleBlock H)) :
    (uncles.map (·.serializedSize + numberSize)).sum =
      uncles.length * serializedSizeInBlock +
        (uncles.map fun uncle => fixVecSize ProposalShortId.serializedSize uncle.proposals.length - numberSize).sum := by
  induction uncles with
  | nil => simp
  | cons uncle uncles ih =>
    simp only [List.map_cons, List.sum_cons, List.length_cons, uncle.serializedSize_add_numberSize, ih]
    ring

theorem blockSize_eq (uncles : List (UncleBlock H)) (transactions : List (TransactionView H))
    (proposals : List ProposalShortId) (extension : Option (List UInt8)) :
    blockSize uncles transactions proposals extension =
      blockSize (H := H) [] [] [] extension + (uncles.map (·.serializedSize + numberSize)).sum +
        (transactions.map TransactionView.serializedSizeInBlock).sum +
        proposals.length * ProposalShortId.serializedSize := by
  have txs : (transactions.map TransactionView.serializedSizeInBlock) =
      (transactions.map TransactionView.serializedSize).map (· + numberSize) := by
    simp [Function.comp_def, TransactionView.serializedSizeInBlock]
  have uncleSizes : uncles.map (·.serializedSize + numberSize) =
      (uncles.map UncleBlock.serializedSize).map (· + numberSize) := by
    simp [Function.comp_def]
  rw [txs, uncleSizes]
  cases extension <;>
    simp only [blockSize, tableSize, dynVecSize_eq, fixVecSize, List.map_nil, List.sum_nil,
      List.length_nil, Option.toList, List.map_cons, List.cons_append, List.nil_append, List.sum_cons] <;>
    ring

theorem serializedSizeWithoutUncleProposals_eq (uncles : List (UncleBlock H))
    (transactions : List (TransactionView H)) (proposals : List ProposalShortId)
    (extension : Option (List UInt8)) :
    serializedSizeWithoutUncleProposals uncles transactions proposals extension =
      blockSize (H := H) [] [] [] extension + uncles.length * UncleBlock.serializedSizeInBlock +
        (transactions.map TransactionView.serializedSizeInBlock).sum +
        proposals.length * ProposalShortId.serializedSize := by
  rw [serializedSizeWithoutUncleProposals, blockSize_eq, UncleBlock.sum_serializedSize]
  omega

end Ckb
