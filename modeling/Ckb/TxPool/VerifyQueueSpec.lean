import Ckb.TxPool.VerifyQueue

namespace Ckb.TxPool

namespace VerifyQueue

variable {H I : Type} [LinearOrder I] {fromTxHash : H → I}

/-- What an entry adds to `total_tx_size`. -/
def size (entry : VerifyEntry H I) : Nat := entry.inner.tx.serializedSizeInBlock

variable (fromTxHash) in
structure Accounted (queue : VerifyQueue H I) : Prop where
  total : queue.totalTxSize = queue.inner.sumBy size
  bounded : queue.totalTxSize ≤ defaultMaxVerifyQueueTxSize
  keyed : ∀ id entry, queue.inner.lookup id = some entry → entry.id = id ∧ fromTxHash entry.inner.tx.hash = id

variable {queue : VerifyQueue H I}

theorem accounted_new (largeCycleThreshold : Nat) : Accounted fromTxHash (new largeCycleThreshold : VerifyQueue H I) where
  total := by simp [new]
  bounded := by simp [new]
  keyed := by simp [new]

/-! `remove_tx` -/

theorem removeTx_of_lookup (accounted : Accounted fromTxHash queue) {id : I} {entry : VerifyEntry H I}
    (found : queue.inner.lookup id = some entry) :
    queue.removeTx id = ({ queue with inner := queue.inner.erase id, totalTxSize := queue.totalTxSize - size entry },
      some entry.inner) ∧ FiniteMap.sumBy (queue.inner.erase id) size + size entry = queue.totalTxSize := by
  have counted := FiniteMap.sumBy_erase found size
  rw [← accounted.total] at counted
  have within : size entry ≤ queue.totalTxSize := by omega
  refine ⟨?_, counted⟩
  simp only [removeTx, found, checkedSub, size] at within ⊢
  rw [if_pos within, Option.getD_some]

theorem removeTx_of_lookup_eq_none {id : I} (absent : queue.inner.lookup id = none) :
    queue.removeTx id = (queue, none) := by
  simp [removeTx, absent]

theorem Accounted.removeTx (accounted : Accounted fromTxHash queue) (id : I) :
    Accounted fromTxHash (queue.removeTx id).1 := by
  cases found : queue.inner.lookup id with
  | none => rwa [removeTx_of_lookup_eq_none found]
  | some entry =>
    obtain ⟨removed, counted⟩ := removeTx_of_lookup accounted found
    rw [removed]
    refine ⟨by simp only; omega, by simp only; have := accounted.bounded; omega, fun id' entry' stored => ?_⟩
    have other : id' ≠ id := by
      rintro rfl
      simp at stored
    exact accounted.keyed id' entry' (by rwa [Finmap.lookup_erase_ne other] at stored)

theorem Accounted.removeTxs (ids : List I) (accounted : Accounted fromTxHash queue) :
    Accounted fromTxHash (queue.removeTxs ids) := by
  induction ids generalizing queue with
  | nil => exact accounted
  | cons id rest ih => exact ih (accounted.removeTx id)

/-! `add_tx` -/

theorem isFull_eq (accounted : Accounted fromTxHash queue) (addTxSize : Nat) :
    queue.isFull addTxSize = some (decide (addTxSize ≥ defaultMaxVerifyQueueTxSize - queue.totalTxSize)) := by
  simp [isFull, checkedSub, accounted.bounded]

/-- `add_tx` never panics: a new transaction is rejected exactly when it does not fit in what is
left of the bound, and otherwise its size is added to the total without overflow. -/
theorem addTx_spec (accounted : Accounted fromTxHash queue) (tx : TransactionView H) (remote : Option (Nat × Nat))
    (now : Nat) :
    ∃ result, queue.addTx fromTxHash tx remote now = some result ∧ Accounted fromTxHash result.1 ∧
      (fromTxHash tx.hash ∈ queue.inner → result = (queue, .ok false)) ∧
      (fromTxHash tx.hash ∉ queue.inner →
        defaultMaxVerifyQueueTxSize - queue.totalTxSize ≤ tx.serializedSizeInBlock → result = (queue, .error (.full tx.hash))) ∧
      (fromTxHash tx.hash ∉ queue.inner → tx.serializedSizeInBlock < defaultMaxVerifyQueueTxSize - queue.totalTxSize →
        result.2 = .ok true ∧ (result.1.inner.lookup (fromTxHash tx.hash)).map (·.inner) = some ⟨tx, remote⟩ ∧
        result.1.totalTxSize = queue.totalTxSize + tx.serializedSizeInBlock) := by
  by_cases known : fromTxHash tx.hash ∈ queue.inner
  · refine ⟨(queue, .ok false), by simp [addTx, containsKey, known], accounted, fun _ => rfl, fun fresh => absurd known fresh,
      fun fresh => absurd known fresh⟩
  · by_cases full : defaultMaxVerifyQueueTxSize - queue.totalTxSize ≤ tx.serializedSizeInBlock
    · refine ⟨(queue, .error (.full tx.hash)), ?_, accounted, fun present => absurd present known, fun _ _ => rfl,
        fun _ fits => absurd full (by omega)⟩
      simp [addTx, containsKey, known, isFull_eq accounted, full]
    · -- the new total stays below the bound, far from overflowing a `usize`
      have fits : queue.totalTxSize + tx.serializedSizeInBlock < defaultMaxVerifyQueueTxSize := by omega
      have noOverflow : checkedAdd queue.totalTxSize tx.serializedSizeInBlock =
          some (queue.totalTxSize + tx.serializedSizeInBlock) := by
        have small : queue.totalTxSize + tx.serializedSizeInBlock ≤ u64Max := by
          unfold u64Max
          unfold defaultMaxVerifyQueueTxSize at fits
          omega
        simp [checkedAdd, small]
      set entry : VerifyEntry H I := ⟨fromTxHash tx.hash, now,
        (remote.map fun declared => decide (declared.1 > queue.largeCycleThreshold)).getD false, ⟨tx, remote⟩⟩
      set added : VerifyQueue H I := { queue with inner := queue.inner.insert (fromTxHash tx.hash) entry, totalTxSize := queue.totalTxSize + tx.serializedSizeInBlock }
      have counted := FiniteMap.sumBy_insert_of_notMem known entry size
      refine ⟨(added, .ok true), ?_, ⟨?_, ?_, ?_⟩,
        fun present => absurd present known, fun _ tooBig => absurd tooBig full, fun _ _ => ⟨rfl, by simp [added, entry], rfl⟩⟩
      · simp [addTx, containsKey, known, isFull_eq accounted, full, noOverflow, added, entry]
      · simp only [added]
        rw [counted, ← accounted.total]
        simp only [size, entry]
        omega
      · simp only [added]
        omega
      · intro id' entry' stored
        simp only [added] at stored
        by_cases same : id' = fromTxHash tx.hash
        · subst same
          simp only [Finmap.lookup_insert, Option.some_inj] at stored
          subst stored
          exact ⟨rfl, rfl⟩
        · rw [Finmap.lookup_insert_of_ne _ same] at stored
          exact accounted.keyed id' entry' stored

/-! `pop_front` -/

/-- The entries `peek` may return. -/
def eligible (onlySmallCycle : Bool) (entry : VerifyEntry H I) : Bool := !onlySmallCycle || !entry.isLargeCycle

theorem peek_eq (queue : VerifyQueue H I) (onlySmallCycle : Bool) :
    queue.peek fromTxHash onlySmallCycle =
      (queue.iterByAddedTime.find? (eligible onlySmallCycle)).map fun entry => fromTxHash entry.inner.tx.hash := by
  have headFind : ∀ entries : List (VerifyEntry H I), entries.find? (eligible false) = entries.head? := by
    intro entries
    cases entries <;> simp [eligible]
  cases onlySmallCycle
  · simp only [peek, Bool.false_eq_true, if_false, headFind]
  · rfl

theorem mem_iterByAddedTime {entry : VerifyEntry H I} :
    entry ∈ queue.iterByAddedTime ↔ ∃ id, queue.inner.lookup id = some entry := by
  rw [iterByAddedTime, (List.perm_insertionSort _ _).mem_iff, List.mem_filterMap]
  simp only [mem_sortedElems, Finmap.mem_keys]
  constructor
  · rintro ⟨id, -, found⟩
    exact ⟨id, found⟩
  · rintro ⟨id, found⟩
    exact ⟨id, Finmap.mem_of_lookup_eq_some found, found⟩

theorem pairwise_iterByAddedTime (queue : VerifyQueue H I) :
    queue.iterByAddedTime.Pairwise fun a b => a.addedTime ≤ b.addedTime := by
  have total : Std.Total fun a b : VerifyEntry H I => a.addedTime ≤ b.addedTime := ⟨fun a b => le_total _ _⟩
  have transitive : IsTrans (VerifyEntry H I) fun a b => a.addedTime ≤ b.addedTime := ⟨fun _ _ _ => le_trans⟩
  exact List.pairwise_insertionSort _ _

/-- In a list ordered by a key, the first element a test accepts has the least key of those it
accepts. -/
theorem le_of_find?_eq_some {α : Type*} {key : α → Nat} {l : List α} {p : α → Bool} {a : α}
    (sorted : l.Pairwise fun x y => key x ≤ key y) (found : l.find? p = some a) :
    ∀ b ∈ l, p b = true → key a ≤ key b := by
  obtain ⟨-, before, after, rfl, rejected⟩ := List.find?_eq_some_iff_append.mp found
  intro b member accepted
  rcases List.mem_append.mp member with early | late
  · have skipped := rejected b early
    simp [accepted] at skipped
  · rcases List.mem_cons.mp late with rfl | later
    · exact le_refl _
    · exact (List.pairwise_cons.mp (List.pairwise_append.mp sorted).2.1).1 b later

/-- `pop_front` takes out an eligible entry added no later than any other eligible one, and
returns nothing only when no entry is eligible. -/
theorem popFront_spec (accounted : Accounted fromTxHash queue) (onlySmallCycle : Bool) :
    ((∀ id entry, queue.inner.lookup id = some entry → eligible onlySmallCycle entry = false) →
      queue.popFront fromTxHash onlySmallCycle = (queue, none)) ∧
    (∀ id entry, queue.inner.lookup id = some entry → eligible onlySmallCycle entry = true →
      ∃ first, queue.inner.lookup first.id = some first ∧ eligible onlySmallCycle first = true ∧
        (∀ id' entry', queue.inner.lookup id' = some entry' → eligible onlySmallCycle entry' = true →
          first.addedTime ≤ entry'.addedTime) ∧
        queue.popFront fromTxHash onlySmallCycle = ((queue.removeTx first.id).1, some first.inner)) := by
  constructor
  · intro noneEligible
    have missing : queue.iterByAddedTime.find? (eligible onlySmallCycle) = none := by
      rw [List.find?_eq_none]
      intro entry member
      obtain ⟨id, found⟩ := mem_iterByAddedTime.mp member
      simp [noneEligible id entry found]
    simp [popFront, peek_eq, missing]
  · intro id entry found accepted
    cases firstFound : queue.iterByAddedTime.find? (eligible onlySmallCycle) with
    | none =>
      rw [List.find?_eq_none] at firstFound
      exact absurd accepted (firstFound entry (mem_iterByAddedTime.mpr ⟨id, found⟩))
    | some first =>
      obtain ⟨firstId, stored⟩ := mem_iterByAddedTime.mp (List.mem_of_find?_eq_some firstFound)
      obtain ⟨rfl, hashed⟩ := accounted.keyed firstId first stored
      have least := le_of_find?_eq_some (pairwise_iterByAddedTime queue) firstFound
      refine ⟨first, stored, List.find?_some firstFound, fun id' entry' found' accepted' =>
        least entry' (mem_iterByAddedTime.mpr ⟨id', found'⟩) accepted', ?_⟩
      obtain ⟨removed, -⟩ := removeTx_of_lookup accounted stored
      simp only [popFront, peek_eq, firstFound, Option.map_some, hashed, removed]

/-! Runs -/

theorem Step.accounted {queue' : VerifyQueue H I} (step : Step fromTxHash queue queue')
    (accounted : Accounted fromTxHash queue) : Accounted fromTxHash queue' := by
  cases step with
  | addTx tx remote now result added =>
    obtain ⟨result', run, accounted', -⟩ := addTx_spec accounted tx remote now
    rw [added, Option.some_inj] at run
    subst run
    exact accounted'
  | removeTx id => exact accounted.removeTx id
  | removeTxs ids => exact accounted.removeTxs ids
  | popFront onlySmallCycle =>
    -- `pop_front` removes what `peek` finds, or nothing
    unfold VerifyQueue.popFront
    split
    · exact accounted.removeTx _
    · exact accounted
  | clear => exact ⟨by simp [VerifyQueue.clear], by simp [VerifyQueue.clear], by simp [VerifyQueue.clear]⟩

theorem Reachable.accounted {largeCycleThreshold : Nat} (reachable : Reachable fromTxHash largeCycleThreshold queue) :
    Accounted fromTxHash queue := by
  induction reachable with
  | refl => exact accounted_new largeCycleThreshold
  | tail _ step ih => exact step.accounted ih

/-! What every reachable queue does -/

theorem verify_queue_total_exact {largeCycleThreshold : Nat} (reachable : Reachable fromTxHash largeCycleThreshold queue) :
    queue.totalTxSize = queue.inner.sumBy size ∧ queue.totalTxSize ≤ defaultMaxVerifyQueueTxSize ∧
    (∀ addTxSize, queue.isFull addTxSize =
      some (decide (addTxSize ≥ defaultMaxVerifyQueueTxSize - queue.totalTxSize))) ∧
    ∀ id entry, queue.inner.lookup id = some entry →
      (queue.removeTx id).2 = some entry.inner ∧ (queue.removeTx id).1.totalTxSize + size entry = queue.totalTxSize := by
  have accounted := reachable.accounted
  refine ⟨accounted.total, accounted.bounded, isFull_eq accounted, fun id entry found => ?_⟩
  obtain ⟨removed, counted⟩ := removeTx_of_lookup accounted found
  rw [removed]
  exact ⟨rfl, by simp only; have := accounted.bounded; omega⟩

theorem add_tx_never_panics {largeCycleThreshold : Nat} (reachable : Reachable fromTxHash largeCycleThreshold queue)
    (tx : TransactionView H) (remote : Option (Nat × Nat)) (now : Nat) :
    ∃ result, queue.addTx fromTxHash tx remote now = some result ∧ Reachable fromTxHash largeCycleThreshold result.1 ∧
      (fromTxHash tx.hash ∈ queue.inner → result = (queue, .ok false)) ∧
      (fromTxHash tx.hash ∉ queue.inner →
        defaultMaxVerifyQueueTxSize - queue.totalTxSize ≤ tx.serializedSizeInBlock → result = (queue, .error (.full tx.hash))) ∧
      (fromTxHash tx.hash ∉ queue.inner → tx.serializedSizeInBlock < defaultMaxVerifyQueueTxSize - queue.totalTxSize →
        result.2 = .ok true ∧ (result.1.inner.lookup (fromTxHash tx.hash)).map (·.inner) = some ⟨tx, remote⟩ ∧
        result.1.totalTxSize = queue.totalTxSize + tx.serializedSizeInBlock) := by
  obtain ⟨result, run, -, known, full, added⟩ := addTx_spec reachable.accounted tx remote now
  exact ⟨result, run, reachable.tail (Step.addTx queue tx remote now result run), known, full, added⟩

theorem pop_front_earliest {largeCycleThreshold : Nat} (reachable : Reachable fromTxHash largeCycleThreshold queue)
    (onlySmallCycle : Bool) :
    ((∀ id entry, queue.inner.lookup id = some entry → eligible onlySmallCycle entry = false) →
      queue.popFront fromTxHash onlySmallCycle = (queue, none)) ∧
    (∀ id entry, queue.inner.lookup id = some entry → eligible onlySmallCycle entry = true →
      ∃ first, queue.inner.lookup first.id = some first ∧ eligible onlySmallCycle first = true ∧
        (∀ id' entry', queue.inner.lookup id' = some entry' → eligible onlySmallCycle entry' = true →
          first.addedTime ≤ entry'.addedTime) ∧
        queue.popFront fromTxHash onlySmallCycle = ((queue.removeTx first.id).1, some first.inner)) :=
  popFront_spec reachable.accounted onlySmallCycle

def sampleQueuedTx : TransactionView Nat := ⟨7, [], [], [⟨⟨5, 0⟩, 0⟩], [], [], []⟩

/-- The queue after one small transaction from the local node at time `5`. -/
def sampleQueue : VerifyQueue Nat Nat :=
  (((new 1000 : VerifyQueue Nat Nat).addTx (fun hash => hash) sampleQueuedTx none 5).map (·.1)).getD (new 1000)

theorem sampleQueue_reachable : Reachable (fun hash => hash) 1000 sampleQueue :=
  .single (Step.addTx (new 1000) sampleQueuedTx none 5 (sampleQueue, .ok true) rfl)

-- the transaction takes 116 bytes in a block
example : sampleQueue.totalTxSize = 116 := by decide

theorem sampleQueue_total_exact :
    sampleQueue.totalTxSize = sampleQueue.inner.sumBy size ∧ sampleQueue.totalTxSize ≤ defaultMaxVerifyQueueTxSize ∧
    (∀ addTxSize, sampleQueue.isFull addTxSize =
      some (decide (addTxSize ≥ defaultMaxVerifyQueueTxSize - sampleQueue.totalTxSize))) ∧
    ∀ id entry, sampleQueue.inner.lookup id = some entry →
      (sampleQueue.removeTx id).2 = some entry.inner ∧
      (sampleQueue.removeTx id).1.totalTxSize + size entry = sampleQueue.totalTxSize :=
  verify_queue_total_exact sampleQueue_reachable

/-- A second transaction, from a remote peer, spending another out point. -/
def remoteTx : TransactionView Nat := ⟨9, [], [], [⟨⟨5, 1⟩, 0⟩], [], [], []⟩

theorem sampleQueue_add_fresh :
    remoteTx.hash ∉ sampleQueue.inner ∧
      remoteTx.serializedSizeInBlock < defaultMaxVerifyQueueTxSize - sampleQueue.totalTxSize ∧
    ∃ result, sampleQueue.addTx (fun hash => hash) remoteTx (some (3, 2000)) 6 = some result ∧
      Reachable (fun hash => hash) 1000 result.1 ∧
      (remoteTx.hash ∈ sampleQueue.inner → result = (sampleQueue, .ok false)) ∧
      (remoteTx.hash ∉ sampleQueue.inner →
        defaultMaxVerifyQueueTxSize - sampleQueue.totalTxSize ≤ remoteTx.serializedSizeInBlock →
        result = (sampleQueue, .error (.full remoteTx.hash))) ∧
      (remoteTx.hash ∉ sampleQueue.inner →
        remoteTx.serializedSizeInBlock < defaultMaxVerifyQueueTxSize - sampleQueue.totalTxSize →
        result.2 = .ok true ∧ (result.1.inner.lookup remoteTx.hash).map (·.inner) = some ⟨remoteTx, some (3, 2000)⟩ ∧
        result.1.totalTxSize = sampleQueue.totalTxSize + remoteTx.serializedSizeInBlock) :=
  ⟨by decide, by decide, add_tx_never_panics sampleQueue_reachable remoteTx (some (3, 2000)) 6⟩

theorem sampleQueue_pop_small :
    ((∀ id entry, sampleQueue.inner.lookup id = some entry → eligible true entry = false) →
      sampleQueue.popFront (fun hash => hash) true = (sampleQueue, none)) ∧
    (∀ id entry, sampleQueue.inner.lookup id = some entry → eligible true entry = true →
      ∃ first, sampleQueue.inner.lookup first.id = some first ∧ eligible true first = true ∧
        (∀ id' entry', sampleQueue.inner.lookup id' = some entry' → eligible true entry' = true →
          first.addedTime ≤ entry'.addedTime) ∧
        sampleQueue.popFront (fun hash => hash) true = ((sampleQueue.removeTx first.id).1, some first.inner)) :=
  pop_front_earliest sampleQueue_reachable true

end VerifyQueue

end Ckb.TxPool
