import Ckb.TxPool.PoolMap
import Mathlib.Algebra.BigOperators.Group.Finset.Basic
import Mathlib.Logic.Relation

/-!
The pool map as a state machine. Each call of the map's mutating surface is one step, a call that
panics has no successor, and a map is reachable when a finite sequence of calls leads to it from
`PoolMap::new`. What a call returns besides the map is dropped.
-/

namespace Ckb.TxPool

variable {H I : Type} [DecidableEq H] [LinearOrder I] (env : PoolEnv H I)

inductive PoolOp (H I : Type) where
  | addEntry (entry : TxEntry H) (status : Status)
  | removeEntry (id : I)
  | removeEntryAndDescendants (id : I)
  | resolveConflict (tx : TransactionView H)
  | resolveConflictHeaderDep (headers : Finset H)
  | setEntry (id : I) (status : Status)

namespace PoolOp

def run (s : PoolMap H I) : PoolOp H I → Option (PoolMap H I)
  | .addEntry entry status => (s.addEntry env entry status).map (·.1)
  | .removeEntry id => (s.removeEntry env id).map (·.1)
  | .removeEntryAndDescendants id => (s.removeEntryAndDescendants env id).map (·.1)
  | .resolveConflict tx => (s.resolveConflict env tx).map (·.1)
  | .resolveConflictHeaderDep headers => (s.resolveConflictHeaderDep env headers).map (·.1)
  | .setEntry id status => s.setEntry id status

/-- An `add_entry` that `record_entry_edges` rejects as a double spend, after the ancestors were
already recorded. -/
def rejectedAsDoubleSpend (s : PoolMap H I) : PoolOp H I → Bool
  | .addEntry entry status =>
    match s.addEntry env entry status with
    | some (_, .error (.rbfRejected _ _ _)) => true
    | _ => false
  | _ => false

/-- The calls one after another, stopping at the first panic. -/
def runAll (s : PoolMap H I) (ops : List (PoolOp H I)) : Option (PoolMap H I) :=
  ops.foldlM (fun s op => op.run env s) s

end PoolOp

def PoolStep (s s' : PoolMap H I) : Prop := ∃ op : PoolOp H I, op.run env s = some s'

def Reachable (maxAncestorsCount : Nat) (s : PoolMap H I) : Prop :=
  Relation.ReflTransGen (PoolStep env) (PoolMap.new maxAncestorsCount) s

theorem reachable_runAll {maxAncestorsCount : Nat} {s s' : PoolMap H I} (reach : Reachable env maxAncestorsCount s)
    (ops : List (PoolOp H I)) (ran : PoolOp.runAll env s ops = some s') :
    Reachable env maxAncestorsCount s' := by
  induction ops generalizing s with
  | nil =>
    cases ran
    exact reach
  | cons op rest ih =>
    simp only [PoolOp.runAll, List.foldlM_cons] at ran
    cases stepped : op.run env s with
    | none => simp [stepped] at ran
    | some next =>
      rw [stepped] at ran
      exact ih (reach.tail ⟨op, stepped⟩) ran

/-- The sum of `weight` over the in-pool entries among `ids`. -/
def PoolMap.sumOver (s : PoolMap H I) (ids : Finset I) (weight : TxEntry H → Nat) : Nat :=
  ∑ id ∈ ids, ((s.entries.lookup id).map fun e => weight e.inner).getD 0

/-- Every entry's aggregates are its own weight plus the weights of its in-pool ancestors, and of
its in-pool descendants, and its two sort keys are those of its entry. -/
def AggregatesExact (s : PoolMap H I) : Prop :=
  ∀ id e, s.entries.lookup id = some e →
    let ancestors := s.calcAncestors id
    let descendants := s.calcDescendants id
    e.inner.ancestorsCount = 1 + ancestors.card ∧
      e.inner.ancestorsSize = e.inner.size + s.sumOver ancestors (·.size) ∧
      e.inner.ancestorsCycles = e.inner.cycles + s.sumOver ancestors (·.cycles) ∧
      e.inner.ancestorsFee = e.inner.fee + s.sumOver ancestors (·.fee) ∧
      e.inner.descendantsCount = 1 + descendants.card ∧
      e.inner.descendantsSize = e.inner.size + s.sumOver descendants (·.size) ∧
      e.inner.descendantsCycles = e.inner.cycles + s.sumOver descendants (·.cycles) ∧
      e.inner.descendantsFee = e.inner.fee + s.sumOver descendants (·.fee) ∧
      e.score = e.inner.asScoreKey env.cyclesWeight ∧
      e.evictKey = e.inner.asEvictKey env.cyclesWeight

section StaleDescendants

/-- Hashes are numbers and a short id is the hash itself. -/
def sampleEnv : PoolEnv ℕ ℕ := ⟨id, fun _ => 0⟩

def sampleOutput : CellOutput ℕ := ⟨0, ⟨0, .data, []⟩, none⟩

/-- A transaction spending a chain cell, and one spending its first output. -/
def sampleParent : TransactionView ℕ := ⟨1, [], [], [⟨⟨100, 0⟩, 0⟩], [sampleOutput], [[]], [[]]⟩

def sampleChild : TransactionView ℕ := ⟨2, [], [], [⟨⟨1, 0⟩, 0⟩], [sampleOutput], [[]], [[]]⟩

def sampleEntry (tx : TransactionView ℕ) : TxEntry ℕ :=
  TxEntry.newWithTimestamp ⟨tx, [], [], []⟩ 10 100 200 0

def staleRun : List (PoolOp ℕ ℕ) :=
  [.addEntry (sampleEntry sampleParent) .pending, .addEntry (sampleEntry sampleChild) .pending,
    .removeEntryAndDescendants 2]

def staleState : PoolMap ℕ ℕ := (PoolOp.runAll sampleEnv (PoolMap.new 25) staleRun).getD (PoolMap.new 25)

/-- Removing a child with `remove_entry_and_descendants` strips its links before `remove_entry`
runs, so its parent keeps counting it as a descendant. -/
theorem stale_descendants_count_after_removal :
    ∃ s, Reachable sampleEnv 25 s ∧ ¬ AggregatesExact sampleEnv s := by
  refine ⟨staleState, reachable_runAll sampleEnv .refl staleRun rfl, ?_⟩
  intro exact
  have present : (staleState.entries.lookup 1).isSome := by decide
  obtain ⟨parent, found⟩ := Option.isSome_iff_exists.mp present
  have counted : (staleState.entries.lookup 1).map (·.inner.descendantsCount) = some 2 := by decide
  have gone : staleState.calcDescendants 1 = ∅ := by decide
  rw [found, Option.map_some, Option.some_inj] at counted
  have claimed := (exact 1 parent found).2.2.2.2.1
  rw [gone, counted] at claimed
  simp at claimed

end StaleDescendants

end Ckb.TxPool
