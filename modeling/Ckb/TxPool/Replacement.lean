import Ckb.TxPool.Pool
import Ckb.TxPool.Consistency

/-!
Replace-by-fee. `check_rbf` compares the new transaction's inputs with the outputs of the replaced
entries' descendants, and its ancestors with those descendants; it never compares its inputs with
the outputs of the conflicts themselves, and the ancestors it reads, of a transaction not in the
pool, are always empty. A replacement may then spend an output of an entry it replaces:
`process_rbf` removes that entry and `add_entry` takes the replacement, whose input no transaction
in the pool or on the chain creates.
-/

namespace Ckb.TxPool

section Samples

/-- A transaction spending the chain cell `sampleParent` spends and the output of `sampleParent`,
which `sampleChild` spends. -/
def replacement : TransactionView ℕ := ⟨3, [], [], [⟨⟨100, 0⟩, 0⟩, ⟨⟨1, 0⟩, 0⟩], [sampleOutput], [[]], [[]]⟩

def replacementEntry : TxEntry ℕ := TxEntry.newWithTimestamp ⟨replacement, [], [], []⟩ 10 1000 200 0

/-- The parent and child pool, with replace-by-fee on. -/
def rbfPool : TxPool ℕ ℕ :=
  { poolMap := childAdded, maxTxPoolSize := 1000000, minFeeRate := 1000, minRbfRate := 1500, expiry := 0 }

/-- The pool `process_rbf` leaves after removing both conflicts. -/
def replacedPool : TxPool ℕ ℕ := ((rbfPool.processRbf sampleEnv {1, 2}).map (·.1)).getD rbfPool

/-- `check_rbf` accepts the replacement of 1 and 2, though the replacement spends `1:0`, an output
of the replaced entry 1, and only 100 is a committed transaction. After `process_rbf` removes both,
`add_entry` admits the replacement: the pool holds it and nothing that creates `1:0`. -/
theorem check_rbf_accepts_spending_replaced_output :
    Reachable sampleEnv 25 rbfPool.poolMap ∧
      rbfPool.checkRbf sampleEnv (fun hash => decide (hash = 100)) replacementEntry = some (.ok {1, 2}) ∧
      ⟨1, 0⟩ ∈ replacementEntry.transaction.inputPts ∧
      (rbfPool.poolMap.entries.lookup 1).map (·.inner.transaction.hash) = some 1 ∧
      (rbfPool.processRbf sampleEnv {1, 2}).map (·.1.poolMap.entries.keys) = some ∅ ∧
      (replacedPool.poolMap.addEntry sampleEnv replacementEntry .pending).map
        (fun added => (added.1.entries.keys, added.2.isOk)) = some ({3}, true) := by
  have first : PoolStep sampleEnv (PoolMap.new 25) parentAdded := ⟨.addEntry (sampleEntry sampleParent) .pending, rfl⟩
  have second : PoolStep sampleEnv parentAdded childAdded := ⟨.addEntry (sampleEntry sampleChild) .pending, rfl⟩
  refine ⟨(Relation.ReflTransGen.single first).tail second, ?_⟩
  decide

end Samples

end Ckb.TxPool
