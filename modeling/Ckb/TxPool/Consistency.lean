import Ckb.TxPool.Insertion
import Ckb.TxPool.Reachable

/-!
The pool map's redundant indexes agree with its entries along every run of its mutating calls, as
long as no `add_entry` is rejected as a double spend after writing its links and the entries' sizes
never sum past `usize::MAX`, beyond which `update_stat_for_add_tx` keeps the old total.
-/

namespace Ckb.TxPool

variable {H I : Type} [DecidableEq H] [LinearOrder I] (env : PoolEnv H I)

/-- A call of the pool map that is not an `add_entry` rejected as a double spend, after which the
sizes of the entries sum to at most `usize::MAX`. -/
def CleanStep (s s' : PoolMap H I) : Prop :=
  ∃ op : PoolOp H I, op.run env s = some s' ∧ op.rejectedAsDoubleSpend env s = false ∧
    s'.sumSizes ≤ u64Max

variable {env}

theorem consistent_new (maxAncestorsCount : Nat) :
    Consistent env ∅ ∅ (PoolMap.new maxAncestorsCount : PoolMap H I) ∧
      KeysAgree (PoolMap.new maxAncestorsCount : PoolMap H I) := by
  refine ⟨⟨⟨?_, ?_, ?_, ?_, ?_, ?_⟩, ⟨?_, ?_⟩, ⟨?_, ?_⟩⟩, ?_⟩
  all_goals simp [PoolMap.new, Spends, DependsOn, HasHeaderDeps, Edges.empty, TxLinksMap.new,
    TxLinksMap.Symmetric, TxLinksMap.directIds, PoolMap.countStatus, PoolMap.sumSizes, FiniteMap.sumBy, KeysAgree,
    Finmap.notMem_empty]
  intro status
  cases status <;> rfl

theorem Consistent.cleanStep {s s' : PoolMap H I} (cons : Consistent env ∅ ∅ s) (agree : KeysAgree s)
    (step : CleanStep env s s') : Consistent env ∅ ∅ s' ∧ KeysAgree s' := by
  obtain ⟨op, ran, notRejected, bounded⟩ := step
  cases op with
  | addEntry entry status =>
    obtain ⟨⟨s₁, result⟩, added, rfl⟩ := Option.map_eq_some_iff.mp ran
    -- the admitted results are those that are not a double-spend rejection
    have accepted : ∀ o old new, result ≠ .error (.rbfRejected o old new) := by
      rintro o old new rfl
      simp [PoolOp.rejectedAsDoubleSpend, added] at notRejected
    exact cons.addEntry agree added accepted bounded
  | removeEntry id =>
    obtain ⟨⟨s₁, removed⟩, ran₁, rfl⟩ := Option.map_eq_some_iff.mp ran
    obtain ⟨entries, links, -⟩ := cons.removeEntry_keys ran₁
    refine ⟨cons.removeEntry ran₁, fun k => ?_⟩
    rw [links, entries, agree k]
  | removeEntryAndDescendants id =>
    obtain ⟨⟨s₁, removed⟩, ran₁, rfl⟩ := Option.map_eq_some_iff.mp ran
    obtain ⟨cons₁, agree₁, -, -⟩ := cons.removeEntryAndDescendants ran₁
    exact ⟨cons₁, agree₁ agree⟩
  | resolveConflict tx =>
    obtain ⟨res, ran₁, rfl⟩ := Option.map_eq_some_iff.mp ran
    exact cons.resolveConflict agree ran₁
  | resolveConflictHeaderDep headers =>
    obtain ⟨res, ran₁, rfl⟩ := Option.map_eq_some_iff.mp ran
    exact cons.resolveConflictHeaderDep agree ran₁
  | setEntry id status =>
    exact cons.setEntry agree ran

theorem consistent_of_clean {maxAncestorsCount : Nat} {s : PoolMap H I}
    (reach : Relation.ReflTransGen (CleanStep env) (PoolMap.new maxAncestorsCount : PoolMap H I) s) :
    Consistent env ∅ ∅ s ∧ KeysAgree s := by
  induction reach with
  | refl => exact consistent_new maxAncestorsCount
  | tail _ step previous => exact previous.1.cleanStep previous.2 step

/-- Along every run of admitted calls from `PoolMap::new`, the link ids are the entries, the links
mirror each other, every out point's spender and dep users are recorded exactly, the header deps
are recorded for exactly the entries that have some, and the counters count the entries. -/
theorem pool_map_indexes_consistent {maxAncestorsCount : Nat} {s : PoolMap H I}
    (reach : Relation.ReflTransGen (CleanStep env) (PoolMap.new maxAncestorsCount : PoolMap H I) s) :
    (∀ id, id ∈ s.links.inner ↔ id ∈ s.entries) ∧
      (∀ p c, c ∈ s.links.directIds .children p ↔ p ∈ s.links.directIds .parents c) ∧
      (∀ p c, c ∈ s.links.directIds .children p → p ∈ s.entries ∧ c ∈ s.entries) ∧
      (∀ o id, s.edges.inputs.lookup o = some id ↔ Spends s.entries id o) ∧
      (∀ o id id', Spends s.entries id o → Spends s.entries id' o → id = id') ∧
      (∀ o ids, s.edges.deps.lookup o = some ids → ids.Nonempty) ∧
      (∀ o id, id ∈ (s.edges.deps.lookup o).getD ∅ ↔ DependsOn s.entries id o) ∧
      (∀ id, id ∈ s.edges.headerDeps ↔ HasHeaderDeps s.entries id) ∧
      s.pendingCount = s.countStatus .pending ∧ s.gapCount = s.countStatus .gap ∧
      s.proposedCount = s.countStatus .proposed ∧ s.totalTxSize = s.sumSizes := by
  obtain ⟨cons, agree⟩ := consistent_of_clean reach
  have symm := cons.links.symmetric
  -- both ends of a link have links, and so are entries
  have ends : ∀ p c, c ∈ s.links.directIds .children p → p ∈ s.entries ∧ c ∈ s.entries := by
    intro p c child
    have parent := (symm p c).mp child
    exact ⟨(agree p).mp (TxLinksMap.mem_inner_of_mem_directIds child),
      (agree c).mp (TxLinksMap.mem_inner_of_mem_directIds parent)⟩
  refine ⟨agree, symm, ends, fun o id => ?_, cons.edges.single_spender, cons.edges.deps_nonempty,
    fun o id => ?_, cons.edges.headerDeps_exact, cons.counters.counts .pending, cons.counters.counts .gap,
    cons.counters.counts .proposed, cons.counters.total_size⟩
  · simpa using cons.edges.inputs_exact o id
  · simpa using cons.edges.deps_exact o id

section Samples

/-- `sampleParent` and then its child, both admitted by the pool. -/
def parentAdded : PoolMap ℕ ℕ :=
  ((PoolOp.addEntry (sampleEntry sampleParent) .pending).run sampleEnv (PoolMap.new 25)).getD (PoolMap.new 25)

def childAdded : PoolMap ℕ ℕ :=
  ((PoolOp.addEntry (sampleEntry sampleChild) .pending).run sampleEnv parentAdded).getD parentAdded

theorem childAdded_indexes_consistent :
    Relation.ReflTransGen (CleanStep sampleEnv) (PoolMap.new 25) childAdded ∧
      (∀ id, id ∈ childAdded.links.inner ↔ id ∈ childAdded.entries) ∧
      (∀ p c, c ∈ childAdded.links.directIds .children p ↔ p ∈ childAdded.links.directIds .parents c) ∧
      (∀ p c, c ∈ childAdded.links.directIds .children p → p ∈ childAdded.entries ∧ c ∈ childAdded.entries) ∧
      (∀ o id, childAdded.edges.inputs.lookup o = some id ↔ Spends childAdded.entries id o) ∧
      (∀ o id id', Spends childAdded.entries id o → Spends childAdded.entries id' o → id = id') ∧
      (∀ o ids, childAdded.edges.deps.lookup o = some ids → ids.Nonempty) ∧
      (∀ o id, id ∈ (childAdded.edges.deps.lookup o).getD ∅ ↔ DependsOn childAdded.entries id o) ∧
      (∀ id, id ∈ childAdded.edges.headerDeps ↔ HasHeaderDeps childAdded.entries id) ∧
      childAdded.pendingCount = childAdded.countStatus .pending ∧
      childAdded.gapCount = childAdded.countStatus .gap ∧
      childAdded.proposedCount = childAdded.countStatus .proposed ∧
      childAdded.totalTxSize = childAdded.sumSizes := by
  have first : CleanStep sampleEnv (PoolMap.new 25) parentAdded :=
    ⟨.addEntry (sampleEntry sampleParent) .pending, rfl, by decide, by decide⟩
  have second : CleanStep sampleEnv parentAdded childAdded :=
    ⟨.addEntry (sampleEntry sampleChild) .pending, rfl, by decide, by decide⟩
  have reach := (Relation.ReflTransGen.single first).tail second
  exact ⟨reach, pool_map_indexes_consistent reach⟩

/-- A transaction of `2^63` bytes. -/
def hugeEntry (tx : TransactionView ℕ) : TxEntry ℕ :=
  TxEntry.newWithTimestamp ⟨tx, [], [], []⟩ 10 100 (2 ^ 63) 0

def hugeRun : List (PoolOp ℕ ℕ) :=
  [.addEntry (hugeEntry sampleParent) .pending, .addEntry (hugeEntry sampleChild) .pending]

def hugeState : PoolMap ℕ ℕ := (PoolOp.runAll sampleEnv (PoolMap.new 25) hugeRun).getD (PoolMap.new 25)

theorem total_tx_size_stops_at_overflow :
    ∃ s, Reachable sampleEnv 25 s ∧ s.totalTxSize ≠ s.sumSizes := by
  refine ⟨hugeState, reachable_runAll sampleEnv .refl hugeRun rfl, ?_⟩
  decide

end Samples

end Ckb.TxPool
