import Ckb.TxPool.Pool
import Ckb.TxPool.Consistency

/-!
A pool is closed under ancestors when it holds the transaction that creates every out point an
entry spends or uses as a cell dep, the cells of the chain apart. `remove_expired` removes each
expired entry with `remove_entry`, which leaves its descendants in the pool; a descendant that has
not expired yet then spends an output of a transaction that is neither in the pool nor on the
chain.
-/

namespace Ckb.TxPool

variable {H I : Type} [LinearOrder I]

/-- Every out point an entry spends or uses as a cell dep is a cell of the chain or an output of
an entry. -/
def ClosedUnderAncestors (chainCell : OutPoint H → Prop) (s : PoolMap H I) : Prop :=
  ∀ k e, s.entries.lookup k = some e →
    ∀ o ∈ e.inner.transaction.inputPts ++ e.inner.transaction.cellDepPts, ¬ chainCell o →
      ∃ k' e', s.entries.lookup k' = some e' ∧ e'.inner.transaction.hash = o.txHash

theorem closedUnderAncestors_iff (chainCell : OutPoint H → Prop) (s : PoolMap H I) :
    ClosedUnderAncestors chainCell s ↔
      ∀ k ∈ s.entries.keys, ∀ e ∈ s.entries.lookup k,
        ∀ o ∈ e.inner.transaction.inputPts ++ e.inner.transaction.cellDepPts, chainCell o ∨
          ∃ k' ∈ s.entries.keys, ∃ e' ∈ s.entries.lookup k', e'.inner.transaction.hash = o.txHash := by
  have listed : ∀ {k e}, s.entries.lookup k = some e → k ∈ s.entries.keys := fun found =>
    Finmap.mem_keys.mpr (Finmap.mem_of_lookup_eq_some found)
  constructor
  · intro closed k _ e found o used
    by_cases chain : chainCell o
    · exact .inl chain
    · obtain ⟨k', e', found', created⟩ := closed k e found o used chain
      exact .inr ⟨k', listed found', e', found', created⟩
  · intro closed k e found o used notChain
    rcases closed k (listed found) e found o used with chain | ⟨k', -, e', found', created⟩
    · exact absurd chain notChain
    · exact ⟨k', e', found', created⟩

instance [DecidableEq H] (chainCell : OutPoint H → Prop) [DecidablePred chainCell] (s : PoolMap H I) :
    Decidable (ClosedUnderAncestors chainCell s) :=
  decidable_of_iff _ (closedUnderAncestors_iff chainCell s).symm

section Samples

/-- `sampleParent`, added at time 0, and `sampleChild`, spending its output, added at 5000. -/
def agedRun : List (PoolOp ℕ ℕ) :=
  [.addEntry (TxEntry.newWithTimestamp ⟨sampleParent, [], [], []⟩ 10 100 200 0) .pending,
    .addEntry (TxEntry.newWithTimestamp ⟨sampleChild, [], [], []⟩ 10 100 200 5000) .pending]

/-- The two entries in a pool whose entries expire after 1000 milliseconds. -/
def agedPool : TxPool ℕ ℕ :=
  { poolMap := (PoolOp.runAll sampleEnv (PoolMap.new 25) agedRun).getD (PoolMap.new 25)
    maxTxPoolSize := 1000000, minFeeRate := 1000, minRbfRate := 1500, expiry := 1000 }

/-- The pool `remove_expired` leaves at time 3000. -/
def expiredPool : TxPool ℕ ℕ := ((agedPool.removeExpired sampleEnv 3000).map (·.1)).getD agedPool

/-- At time 3000 only the parent has expired: `remove_expired` removes it alone, and the child
stays, spending an output of a transaction that is neither in the pool nor on the chain. -/
theorem remove_expired_orphans_descendant :
    Reachable sampleEnv 25 agedPool.poolMap ∧ ClosedUnderAncestors (· = ⟨100, 0⟩) agedPool.poolMap ∧
      (agedPool.removeExpired sampleEnv 3000).map (fun result => result.2.map (·.2)) = some [.expiry 0] ∧
      1 ∉ expiredPool.poolMap.entries ∧ 2 ∈ expiredPool.poolMap.entries ∧
      ¬ ClosedUnderAncestors (· = ⟨100, 0⟩) expiredPool.poolMap := by
  refine ⟨reachable_runAll sampleEnv .refl agedRun rfl, ?_⟩
  decide

end Samples

end Ckb.TxPool
