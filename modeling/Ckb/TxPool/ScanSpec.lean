import Ckb.TxPool.ScanRound
import Ckb.TxPool.Consistency

namespace Ckb.TxPool

variable {H I : Type} [LinearOrder I] {env : PoolEnv H I} {pool : PoolMap H I} {sizeLimit cyclesLimit : Nat}

namespace ScanState

theorem loop_finished_mono {rounds more : Nat} {state final : ScanState H I}
    (finished : state.loop env pool sizeLimit cyclesLimit rounds = .finished final) (le : rounds ≤ more) :
    state.loop env pool sizeLimit cyclesLimit more = .finished final := by
  induction rounds generalizing state more with
  | zero => cases finished
  | succ rounds ih =>
    obtain ⟨more, rfl⟩ : ∃ m, more = m + 1 := ⟨more - 1, by omega⟩
    rw [loop] at finished ⊢
    cases stepped : state.round env pool sizeLimit cyclesLimit with
    | none =>
      rw [stepped] at finished
      rw [← finished]
    | some next =>
      rw [stepped] at finished
      exact ih finished (by omega)

end ScanState

theorem txsToCommit_finished_mono {rounds more : Nat} {result : List (TxEntry H) × Nat × Nat}
    (finished : txsToCommit env pool sizeLimit cyclesLimit rounds = .finished result) (le : rounds ≤ more) :
    txsToCommit env pool sizeLimit cyclesLimit more = .finished result := by
  obtain ⟨final, ran, rfl⟩ := Rounds.map_eq_finished.mp finished
  rw [txsToCommit, ScanState.loop_finished_mono ran le]
  rfl

namespace ScanInv

variable (ready : ScanReady env pool) (sizeBelow : sizeLimit < u64Max) (cyclesBelow : cyclesLimit < u64Max)
include ready sizeBelow cyclesBelow

theorem loop_finished {state : ScanState H I} (inv : ScanInv env pool sizeLimit cyclesLimit state) :
    ∃ final, ScanInv env pool sizeLimit cyclesLimit final ∧
      state.loop env pool sizeLimit cyclesLimit (scanMeasure pool state + 1) = .finished final := by
  -- strong induction on the measure, which `round` lowers
  induction measured : scanMeasure pool state using Nat.strong_induction_on generalizing state with
  | _ m ih =>
    cases stepped : state.round env pool sizeLimit cyclesLimit with
    | none => exact ⟨state, inv, by rw [ScanState.loop, stepped]⟩
    | some next =>
      obtain ⟨nextInv, lower⟩ := inv.round ready sizeBelow cyclesBelow stepped
      obtain ⟨final, finalInv, finished⟩ := ih _ (measured ▸ lower) nextInv rfl
      refine ⟨final, finalInv, ?_⟩
      rw [ScanState.loop, stepped]
      exact ScanState.loop_finished_mono finished (by omega)

omit ready sizeBelow cyclesBelow in
theorem ancestor_earlier (ready : ScanReady env pool) {state : ScanState H I}
    (inv : ScanInv env pool sizeLimit cyclesLimit state) {l₁ l₂ : List (TxEntry H)} {e : TxEntry H}
    (split : state.entries = l₁ ++ e :: l₂) {a : I} (ancestor : a ∈ pool.calcAncestors (e.proposalShortId env))
    (proposed : pool.hasProposed a = true) : a ∈ l₁.map (·.proposalShortId env) := by
  have listed : e ∈ state.entries := by
    rw [split]
    exact List.mem_append_right _ List.mem_cons_self
  have fetchedE : e.proposalShortId env ∈ state.fetchedTxs := by
    rw [inv.fetched]
    exact List.mem_toFinset.mpr (List.mem_map_of_mem listed)
  have fetchedA := inv.closed _ fetchedE a ancestor proposed
  rw [inv.fetched, split] at fetchedA
  obtain ⟨x, member, rfl⟩ := List.mem_map.mp (List.mem_toFinset.mp fetchedA)
  rcases List.mem_append.mp member with earlier | later
  · exact List.mem_map_of_mem earlier
  · -- neither `e` itself nor an entry after it is an ancestor of `e`
    have ordered := inv.ordered
    rw [split, List.pairwise_append, List.pairwise_cons] at ordered
    rcases List.mem_cons.mp later with rfl | after
    · exact absurd ancestor (ready.acyclic _)
    · exact absurd ancestor (ordered.2.1.1 x after)

end ScanInv

theorem scanMeasure_new_lt : scanMeasure pool (ScanState.new pool) < (pool.entries.keys.card + 1) ^ 2 := by
  have shorter := PoolMap.length_sortedProposedIter (s := pool)
  have square : (pool.entries.keys.card + 1) ^ 2 =
      pool.entries.keys.card * (pool.entries.keys.card + 1) + pool.entries.keys.card + 1 := by
    ring
  rw [square]
  simp only [scanMeasure, ScanState.new, Finset.card_empty, Nat.sub_zero, Finmap.keys_empty, Nat.add_zero]
  omega

variable (env pool sizeLimit cyclesLimit) in
theorem txs_to_commit_terminates_within_limits (ready : ScanReady env pool) (sizeBelow : sizeLimit < u64Max)
    (cyclesBelow : cyclesLimit < u64Max) :
    ∃ entries size cycles,
      (∀ rounds, (pool.entries.keys.card + 1) ^ 2 ≤ rounds →
        txsToCommit env pool sizeLimit cyclesLimit rounds = .finished (entries, size, cycles)) ∧
      (entries.map (·.proposalShortId env)).Nodup ∧
      (∀ e ∈ entries, EntryOf pool (e.proposalShortId env) e) ∧
      (∀ l₁ e l₂, entries = l₁ ++ e :: l₂ → ∀ a ∈ pool.calcAncestors (e.proposalShortId env),
        pool.hasProposed a = true → a ∈ l₁.map (·.proposalShortId env)) ∧
      size = (entries.map (·.size)).sum ∧ size ≤ sizeLimit ∧
      cycles = (entries.map (·.cycles)).sum ∧ cycles ≤ cyclesLimit := by
  obtain ⟨final, inv, finished⟩ := ScanInv.new.loop_finished ready sizeBelow cyclesBelow
  refine ⟨final.entries, final.size, final.cycles, fun rounds enough => ?_, inv.nodup, inv.entries,
    fun l₁ e l₂ split a => inv.ancestor_earlier ready split, inv.size, inv.size_le, inv.cycles, inv.cycles_le⟩
  have below : scanMeasure pool (ScanState.new pool) < _ := scanMeasure_new_lt
  have ran : (ScanState.new pool).loop env pool sizeLimit cyclesLimit rounds = .finished final :=
    ScanState.loop_finished_mono finished (by omega)
  rw [txsToCommit, ran]
  rfl

section Samples

/-- A parent and its child, both proposed. -/
def scanPool : PoolMap ℕ ℕ :=
  (PoolOp.runAll sampleEnv (PoolMap.new 25)
    [.addEntry (sampleEntry sampleParent) .proposed, .addEntry (sampleEntry sampleChild) .proposed]).getD
    (PoolMap.new 25)

theorem scanPool_ready : ScanReady sampleEnv scanPool :=
  ScanReady.of_keys (by decide) (by decide) (by decide) (by decide) (by decide)
    (FiniteMap.forall_lookup_iff.mpr (by decide))

theorem scan_pool_commits_within_limits :
    ∃ entries size cycles, (∀ rounds, 9 ≤ rounds →
      txsToCommit sampleEnv scanPool 1000 1000 rounds = .finished (entries, size, cycles)) ∧
      size = (entries.map (·.size)).sum ∧ size ≤ 1000 := by
  obtain ⟨entries, size, cycles, finished, -, -, -, sum, fits, -⟩ :=
    txs_to_commit_terminates_within_limits sampleEnv scanPool 1000 1000 scanPool_ready (by decide) (by decide)
  exact ⟨entries, size, cycles, finished, sum, fits⟩

/-- A transaction that spends another chain cell, unrelated to the parent. -/
def sampleSibling : TransactionView ℕ := ⟨3, [], [], [⟨⟨101, 0⟩, 0⟩], [sampleOutput], [[]], [[]]⟩

/-- Two unrelated proposed transactions of `2^63` bytes each. -/
def hugeScanPool : PoolMap ℕ ℕ :=
  (PoolOp.runAll sampleEnv (PoolMap.new 25)
    [.addEntry (hugeEntry sampleParent) .proposed, .addEntry (hugeEntry sampleSibling) .proposed]).getD
    (PoolMap.new 25)

theorem hugeScanPool_ready : ScanReady sampleEnv hugeScanPool :=
  ScanReady.of_keys (by decide) (by decide) (by decide) (by decide) (by decide)
    (FiniteMap.forall_lookup_iff.mpr (by decide))

theorem txs_to_commit_size_saturates_at_u64_max :
    ScanReady sampleEnv hugeScanPool ∧ ∃ entries size cycles, (∀ rounds, 9 ≤ rounds →
      txsToCommit sampleEnv hugeScanPool u64Max u64Max rounds = .finished (entries, size, cycles)) ∧
      size ≠ (entries.map (·.size)).sum := by
  have checked : (txsToCommit sampleEnv hugeScanPool u64Max u64Max 9).map
      (fun result => decide (result.2.1 = (result.1.map (·.size)).sum)) = .finished false := by
    decide
  obtain ⟨⟨entries, size, cycles⟩, finished, differs⟩ := Rounds.map_eq_finished.mp checked
  exact ⟨hugeScanPool_ready, entries, size, cycles, fun rounds enough => txsToCommit_finished_mono finished enough,
    of_decide_eq_false differs⟩

end Samples

end Ckb.TxPool
