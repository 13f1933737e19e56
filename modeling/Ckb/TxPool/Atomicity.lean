import Ckb.TxPool.Consistency

/-!
`add_entry` on an entry it rejects. The ancestor limit rejects before anything is written. A
double spend is found by `record_entry_edges` only after `check_and_record_ancestors` has linked
the entry under its parents, possibly after evicting cell-dep parents, and after the inputs before
the conflicting one were recorded; nothing of that is undone.
-/

namespace Ckb.TxPool

variable {H I : Type} [DecidableEq H] [LinearOrder I] {env : PoolEnv H I}

/-- The only rejection of `check_and_record_ancestors` is the ancestor limit, and it writes
nothing. -/
theorem PoolMap.checkAndRecordAncestors_error {s s₁ : PoolMap H I} {entry entry₁ : TxEntry H}
    {reject : Reject H I} (ran : checkAndRecordAncestors env s entry = some (s₁, entry₁, .error reject)) :
    reject = .exceededMaximumAncestorsCount ∧ s₁ = s := by
  unfold checkAndRecordAncestors at ran
  generalize getTxAncenstors env s entry.transaction = found at ran
  obtain ⟨ancestors, parents, cellRefParents⟩ := found
  dsimp only at ran
  split_ifs at ran with fits evictable
  · rw [Option.bind_eq_bind] at ran
    obtain ⟨_, -, finished⟩ := Option.bind_eq_some_iff.mp ran
    cases finished
  · rw [Option.bind_eq_bind] at ran
    obtain ⟨_, -, rest⟩ := Option.bind_eq_some_iff.mp ran
    split_ifs at rest
    rw [Option.bind_eq_bind] at rest
    obtain ⟨_, -, finished⟩ := Option.bind_eq_some_iff.mp rest
    cases finished
  · cases ran
    exact ⟨rfl, rfl⟩

theorem PoolMap.checkAndRecordAncestors_rtx {s s₁ : PoolMap H I} {entry entry₁ : TxEntry H}
    {recorded : Except (Reject H I) (List (TxEntry H))}
    (ran : checkAndRecordAncestors env s entry = some (s₁, entry₁, recorded)) : entry₁.rtx = entry.rtx := by
  unfold checkAndRecordAncestors at ran
  generalize getTxAncenstors env s entry.transaction = found at ran
  obtain ⟨ancestors, parents, cellRefParents⟩ := found
  dsimp only at ran
  split_ifs at ran with fits evictable
  · rw [Option.bind_eq_bind] at ran
    obtain ⟨⟨sA, eA⟩, recordedA, finished⟩ := Option.bind_eq_some_iff.mp ran
    cases finished
    exact (recordAncestors_eq env recordedA).2.1
  · rw [Option.bind_eq_bind] at ran
    obtain ⟨_, -, rest⟩ := Option.bind_eq_some_iff.mp ran
    split_ifs at rest
    rw [Option.bind_eq_bind] at rest
    obtain ⟨⟨sA, eA⟩, recordedA, finished⟩ := Option.bind_eq_some_iff.mp rest
    cases finished
    exact (recordAncestors_eq env recordedA).2.1
  · cases ran
    rfl

/-- A rejected `add_entry` either hit the ancestor limit and left the map as it was, or found a
double spend of one of the entry's inputs. -/
theorem PoolMap.addEntry_error {s s' : PoolMap H I} {entry : TxEntry H} {status : Status} {reject : Reject H I}
    (ran : addEntry env s entry status = some (s', .error reject)) :
    (reject = .exceededMaximumAncestorsCount ∧ s' = s) ∨
      ∃ o old, reject = .rbfRejected o old (entry.proposalShortId env) := by
  unfold addEntry at ran
  split_ifs at ran with present
  · cases ran
  rw [Option.bind_eq_bind] at ran
  obtain ⟨⟨s₁, entry₁, recorded⟩, checked, rest⟩ := Option.bind_eq_some_iff.mp ran
  cases recorded with
  | error reject' =>
    cases rest
    exact .inl (checkAndRecordAncestors_error checked)
  | ok evicts =>
    dsimp only at rest
    split at rest
    · rename_i s₂ reject' edgesRan
      cases rest
      have sameId : entry₁.proposalShortId env = entry.proposalShortId env := by
        simp only [TxEntry.proposalShortId, TxEntry.transaction, checkAndRecordAncestors_rtx checked]
      rw [← sameId]
      exact .inr (recordEntryEdges_reject env edgesRan)
    · rename_i s₂ edgesRan
      rw [Option.bind_eq_bind] at rest
      obtain ⟨_, -, finished⟩ := Option.bind_eq_some_iff.mp rest
      cases finished

section Samples

/-- A transaction spending the output of `sampleParent` and the chain cell `sampleParent` already
spends. -/
def doubleSpender : TransactionView ℕ := ⟨3, [], [], [⟨⟨1, 0⟩, 0⟩, ⟨⟨100, 0⟩, 0⟩], [sampleOutput], [[]], [[]]⟩

/-- The map `add_entry` leaves after rejecting `doubleSpender`. -/
def doubleSpendRejected : PoolMap ℕ ℕ :=
  ((parentAdded.addEntry sampleEnv (sampleEntry doubleSpender) .pending).map (·.1)).getD parentAdded

/-- `add_entry` rejects the double spend but keeps what it wrote before the conflict: the entry is
linked under its parent and its first input is recorded, though the entry is not in the pool. -/
theorem add_entry_rejection_keeps_writes :
    ∃ s', parentAdded.addEntry sampleEnv (sampleEntry doubleSpender) .pending =
        some (s', .error (.rbfRejected ⟨100, 0⟩ 1 3)) ∧
      3 ∉ s'.entries ∧ s'.entries.keys = parentAdded.entries.keys ∧
      3 ∉ parentAdded.links.inner ∧ 3 ∈ s'.links.inner ∧
      3 ∈ s'.links.directIds .children 1 ∧ 3 ∉ parentAdded.links.directIds .children 1 ∧
      parentAdded.edges.inputs.lookup ⟨1, 0⟩ = none ∧ s'.edges.inputs.lookup ⟨1, 0⟩ = some 3 := by
  refine ⟨doubleSpendRejected, rfl, ?_⟩
  decide

end Samples

end Ckb.TxPool
