import Ckb.Support.FiniteMap
import Ckb.Types.Core

/-!
`Edges` (`tx-pool/src/component/edges.rs`): which in-pool transaction spends an out point, which
ones use it as a cell dep, and the header deps of each transaction.
-/

namespace Ckb.TxPool

variable {H I : Type} [DecidableEq H] [DecidableEq I]

/-- The messages of `Reject::RBFRejected` that `check_rbf` raises, each with the values it formats:
"new Tx contains unconfirmed inputs", "Tx conflict with too many txs, conflict txs count: {}, expect
<= {}", "Tx ancestors have common with conflict Tx descendants", "new Tx contains inputs in
descendants of to be replaced Tx", "new Tx contains cell deps from conflicts", "Tx's current fee is
{}, expect it to >= {} to replace old txs" and "calculate_min_replace_fee failed". -/
inductive RbfReason where
  | unconfirmedInputs
  | tooManyConflicts (count limit : Nat)
  | ancestorsInConflictDescendants
  | inputsInConflictDescendants
  | cellDepsFromConflicts
  | feeTooLow (fee minReplaceFee : Nat)
  | minReplaceFeeFailed
deriving DecidableEq

/-- The rejections the pool map and the pool raise. `rbfRejected` is `Reject::RBFRejected` with the
message `"txpool unexpected double-spending out_point: {:?} old_tx: {:?} new_tx: {:?}"`, and `full`
is `Reject::Full` with `"the fee_rate for this transaction is: {}"`, each kept as the values its
message is formatted from. -/
inductive Reject (H I : Type) where
  | exceededMaximumAncestorsCount
  | full (feeRate : Nat)
  | resolve (error : OutPointError H)
  | expiry (timestamp : Nat)
  | rbfRejected (outPoint : OutPoint H) (oldTx newTx : I)
  | rbfReplacement (reason : RbfReason)
deriving DecidableEq

structure Edges (H I : Type) where
  inputs : FiniteMap (OutPoint H) I
  deps : FiniteMap (OutPoint H) (Finset I)
  headerDeps : FiniteMap I (List H)

namespace Edges

def empty : Edges H I := ⟨∅, ∅, ∅⟩

/-- `insert_input`: an occupied out point is a double spend. -/
def insertInput (e : Edges H I) (outPoint : OutPoint H) (txid : I) : Except (Reject H I) (Edges H I) :=
  match e.inputs.lookup outPoint with
  | some old => .error (.rbfRejected outPoint old txid)
  | none => .ok { e with inputs := e.inputs.insert outPoint txid }

/-- `remove_input`, returning the removed spender. -/
def removeInput (e : Edges H I) (outPoint : OutPoint H) : Option I × Edges H I :=
  (e.inputs.lookup outPoint, { e with inputs := e.inputs.erase outPoint })

/-- `remove_deps`, returning the removed set. -/
def removeDeps (e : Edges H I) (outPoint : OutPoint H) : Option (Finset I) × Edges H I :=
  (e.deps.lookup outPoint, { e with deps := e.deps.erase outPoint })

/-- `insert_deps`: `deps.entry(out_point).or_default().insert(txid)`. -/
def insertDeps (e : Edges H I) (outPoint : OutPoint H) (txid : I) : Edges H I :=
  { e with deps := e.deps.insert outPoint (insert txid ((e.deps.lookup outPoint).getD ∅)) }

/-- `delete_txid_by_dep`: drop `txid`, and the whole entry once it is empty. -/
def deleteTxidByDep (e : Edges H I) (outPoint : OutPoint H) (txid : I) : Edges H I :=
  match e.deps.lookup outPoint with
  | some ids =>
    if ids.erase txid = ∅ then { e with deps := e.deps.erase outPoint }
    else { e with deps := e.deps.insert outPoint (ids.erase txid) }
  | none => e

@[simp] theorem insertDeps_inputs (e : Edges H I) (outPoint : OutPoint H) (txid : I) :
    (e.insertDeps outPoint txid).inputs = e.inputs := rfl

@[simp] theorem insertDeps_headerDeps (e : Edges H I) (outPoint : OutPoint H) (txid : I) :
    (e.insertDeps outPoint txid).headerDeps = e.headerDeps := rfl

@[simp] theorem deleteTxidByDep_inputs (e : Edges H I) (outPoint : OutPoint H) (txid : I) :
    (e.deleteTxidByDep outPoint txid).inputs = e.inputs := by
  unfold deleteTxidByDep
  split
  · split <;> rfl
  · rfl

@[simp] theorem deleteTxidByDep_headerDeps (e : Edges H I) (outPoint : OutPoint H) (txid : I) :
    (e.deleteTxidByDep outPoint txid).headerDeps = e.headerDeps := by
  unfold deleteTxidByDep
  split
  · split <;> rfl
  · rfl

theorem lookup_insertDeps (e : Edges H I) (outPoint o : OutPoint H) (txid : I) :
    (e.insertDeps outPoint txid).deps.lookup o =
      if o = outPoint then some (insert txid ((e.deps.lookup o).getD ∅)) else e.deps.lookup o := by
  by_cases same : o = outPoint
  · subst same
    simp [insertDeps]
  · simp [insertDeps, Finmap.lookup_insert_of_ne _ same, same]

/-- After `delete_txid_by_dep` the entry at `outPoint` holds the old ids without `txid`, and is
absent when none are left. -/
theorem lookup_deleteTxidByDep (e : Edges H I) (outPoint o : OutPoint H) (txid : I) :
    (e.deleteTxidByDep outPoint txid).deps.lookup o =
      if o = outPoint then
        match e.deps.lookup o with
        | some ids => if ids.erase txid = ∅ then none else some (ids.erase txid)
        | none => none
      else e.deps.lookup o := by
  unfold deleteTxidByDep
  by_cases same : o = outPoint
  · subst same
    cases found : e.deps.lookup o with
    | none => simp [found]
    | some ids =>
      by_cases empty : ids.erase txid = ∅ <;> simp [found, empty]
  · cases found : e.deps.lookup outPoint with
    | none => simp [same]
    | some ids =>
      by_cases empty : ids.erase txid = ∅ <;>
        simp [empty, same, Finmap.lookup_erase_ne same, Finmap.lookup_insert_of_ne _ same]

end Edges

end Ckb.TxPool
