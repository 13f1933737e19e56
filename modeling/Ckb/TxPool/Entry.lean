import Ckb.Types.Core

/-!
`TxEntry` and the sort keys derived from it (`tx-pool/src/component/entry.rs`, `sort_key.rs`).
The weight of a transaction is `max(size, cycles as f64 * DEFAULT_BYTES_PER_CYCLES)`; the
floating-point product is the one part not modelled, and enters as the function `cyclesWeight`.
-/

namespace Ckb.TxPool

variable {H : Type}

/-- A transaction in the pool with its own weight and the aggregates over its in-pool ancestors
and descendants, each of which counts the entry itself. -/
structure TxEntry (H : Type) where
  rtx : ResolvedTransaction H
  cycles : Nat
  size : Nat
  fee : Nat
  ancestorsSize : Nat
  ancestorsFee : Nat
  ancestorsCycles : Nat
  ancestorsCount : Nat
  descendantsFee : Nat
  descendantsSize : Nat
  descendantsCycles : Nat
  descendantsCount : Nat
  timestamp : Nat
deriving DecidableEq, Repr

namespace TxEntry

/-- `TxEntry::new_with_timestamp`: both aggregates start at the entry's own weight. -/
def newWithTimestamp (rtx : ResolvedTransaction H) (cycles fee size timestamp : Nat) : TxEntry H where
  rtx := rtx
  cycles := cycles
  size := size
  fee := fee
  timestamp := timestamp
  ancestorsSize := size
  ancestorsFee := fee
  ancestorsCycles := cycles
  descendantsFee := fee
  descendantsSize := size
  descendantsCycles := cycles
  descendantsCount := 1
  ancestorsCount := 1

def transaction (e : TxEntry H) : TransactionView H := e.rtx.transaction

def relatedDepOutPoints (e : TxEntry H) : List (OutPoint H) := e.rtx.relatedDepOutPoints

def addDescendantWeight (self entry : TxEntry H) : TxEntry H :=
  { self with
    descendantsCount := saturatingAdd self.descendantsCount 1
    descendantsSize := saturatingAdd self.descendantsSize entry.size
    descendantsCycles := saturatingAdd self.descendantsCycles entry.cycles
    descendantsFee := saturatingAdd self.descendantsFee entry.fee }

/-- `sub_descendant_weight`; `saturating_sub` is truncated subtraction. -/
def subDescendantWeight (self entry : TxEntry H) : TxEntry H :=
  { self with
    descendantsCount := self.descendantsCount - 1
    descendantsSize := self.descendantsSize - entry.size
    descendantsCycles := self.descendantsCycles - entry.cycles
    descendantsFee := self.descendantsFee - entry.fee }

def addAncestorWeight (self entry : TxEntry H) : TxEntry H :=
  { self with
    ancestorsCount := saturatingAdd self.ancestorsCount 1
    ancestorsSize := saturatingAdd self.ancestorsSize entry.size
    ancestorsCycles := saturatingAdd self.ancestorsCycles entry.cycles
    ancestorsFee := saturatingAdd self.ancestorsFee entry.fee }

def subAncestorWeight (self entry : TxEntry H) : TxEntry H :=
  { self with
    ancestorsCount := self.ancestorsCount - 1
    ancestorsSize := self.ancestorsSize - entry.size
    ancestorsCycles := self.ancestorsCycles - entry.cycles
    ancestorsFee := self.ancestorsFee - entry.fee }

def resetStatisticState (e : TxEntry H) : TxEntry H :=
  { e with
    ancestorsCount := 1
    ancestorsSize := e.size
    ancestorsCycles := e.cycles
    ancestorsFee := e.fee
    descendantsCount := 1
    descendantsSize := e.size
    descendantsCycles := e.cycles
    descendantsFee := e.fee }

end TxEntry

/-- `get_transaction_weight`, given the truncated float product `cycles * DEFAULT_BYTES_PER_CYCLES`. -/
def getTransactionWeight (cyclesWeight : Nat → Nat) (size cycles : Nat) : Nat :=
  max size (cyclesWeight cycles)

/-- `FeeRate::calculate`: shannons per thousand weight units. -/
def feeRateCalculate (fee weight : Nat) : Nat :=
  if weight = 0 then 0 else saturatingMul fee 1000 / weight

structure AncestorsScoreSortKey where
  fee : Nat
  weight : Nat
  ancestorsFee : Nat
  ancestorsWeight : Nat
deriving DecidableEq, Repr

structure EvictKey where
  feeRate : Nat
  timestamp : Nat
  descendantsCount : Nat
deriving DecidableEq, Repr

/-- `Ord for EvictKey`: fee rate first, then the number of descendants, then the timestamp. -/
def EvictKey.cmp (a b : EvictKey) : Ordering :=
  if a.feeRate = b.feeRate then
    if a.descendantsCount = b.descendantsCount then compare a.timestamp b.timestamp
    else compare a.descendantsCount b.descendantsCount
  else compare a.feeRate b.feeRate

namespace TxEntry

def asScoreKey (cyclesWeight : Nat → Nat) (e : TxEntry H) : AncestorsScoreSortKey where
  fee := e.fee
  weight := getTransactionWeight cyclesWeight e.size e.cycles
  ancestorsFee := e.ancestorsFee
  ancestorsWeight := getTransactionWeight cyclesWeight e.ancestorsSize e.ancestorsCycles

/-- `From<&TxEntry> for EvictKey`: the better of the own and the descendants' fee rate. -/
def asEvictKey (cyclesWeight : Nat → Nat) (e : TxEntry H) : EvictKey where
  feeRate := max (feeRateCalculate e.descendantsFee
      (getTransactionWeight cyclesWeight e.descendantsSize e.descendantsCycles))
    (feeRateCalculate e.fee (getTransactionWeight cyclesWeight e.size e.cycles))
  timestamp := e.timestamp
  descendantsCount := e.descendantsCount

@[simp] theorem addDescendantWeight_rtx (self entry : TxEntry H) :
    (self.addDescendantWeight entry).rtx = self.rtx := rfl

@[simp] theorem subDescendantWeight_rtx (self entry : TxEntry H) :
    (self.subDescendantWeight entry).rtx = self.rtx := rfl

@[simp] theorem addAncestorWeight_rtx (self entry : TxEntry H) :
    (self.addAncestorWeight entry).rtx = self.rtx := rfl

@[simp] theorem subAncestorWeight_rtx (self entry : TxEntry H) :
    (self.subAncestorWeight entry).rtx = self.rtx := rfl

@[simp] theorem addDescendantWeight_size (self entry : TxEntry H) :
    (self.addDescendantWeight entry).size = self.size := rfl

@[simp] theorem subDescendantWeight_size (self entry : TxEntry H) :
    (self.subDescendantWeight entry).size = self.size := rfl

@[simp] theorem addAncestorWeight_size (self entry : TxEntry H) :
    (self.addAncestorWeight entry).size = self.size := rfl

@[simp] theorem subAncestorWeight_size (self entry : TxEntry H) :
    (self.subAncestorWeight entry).size = self.size := rfl

end TxEntry

end Ckb.TxPool
