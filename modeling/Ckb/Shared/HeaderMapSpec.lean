import Ckb.Shared.HeaderMap

namespace Ckb.HeaderMap

variable {H : Type} [DecidableEq H]

namespace MemoryMap

@[simp]
theorem lookup_erase (memory : MemoryMap H) (hash key : H) :
    (memory.erase hash).lookup key = if key = hash then none else memory.lookup key := by
  unfold lookup erase
  rw [List.find?_filter]
  by_cases same : key = hash
  · rw [if_pos same]
    subst key
    rw [List.find?_eq_none]
    simp
  · rw [if_neg same]
    congr 1
    funext entry
    by_cases here : entry.hash = key
    · simp [here, same]
    · simp [here]

@[simp]
theorem lookup_toBack (memory : MemoryMap H) (view : HeaderIndexView H) (key : H) :
    (memory.toBack view).lookup key = if key = view.hash then some view else memory.lookup key := by
  have erased := lookup_erase memory view.hash key
  unfold lookup toBack at *
  rw [List.find?_append, erased]
  split
  · subst key
    simp
  · simp [Ne.symm ‹¬key = view.hash›]

theorem lookup_getRefresh (memory : MemoryMap H) (hash : H) :
    (memory.getRefresh hash).1.lookup = memory.lookup ∧ (memory.getRefresh hash).2 = memory.lookup hash := by
  unfold getRefresh
  rcases found : memory.lookup hash with _ | view
  · exact ⟨rfl, rfl⟩
  · refine ⟨funext fun key => ?_, rfl⟩
    -- the view found is the entry of its own hash
    have own : view.hash = hash := by
      have := List.find?_some found
      simpa using this
    rw [lookup_toBack]
    split
    · subst key
      rw [own, found]
    · rfl

theorem lookup_removeBatch (memory : MemoryMap H) (keys : List H) (key : H) :
    (memory.removeBatch keys).lookup key = if key ∈ keys then none else memory.lookup key := by
  induction keys generalizing memory with
  | nil => rfl
  | cons hash rest ih =>
    rw [removeBatch, List.foldl_cons, ← removeBatch, ih, lookup_erase]
    by_cases here : key = hash <;> by_cases later : key ∈ rest <;> simp [here, later]

theorem filter_notMem_front (front rest : List (HeaderIndexView H)) (distinct : ((front ++ rest).map (·.hash)).Nodup) :
    (front ++ rest).filter (fun entry => decide (entry.hash ∉ front.map (·.hash))) = rest := by
  rw [List.map_append, List.nodup_append] at distinct
  rw [List.filter_append, List.filter_eq_nil_iff.mpr, List.filter_eq_self.mpr, List.nil_append]
  · intro entry later
    simp only [decide_eq_true_eq]
    intro earlier
    exact distinct.2.2 _ earlier _ (List.mem_map_of_mem later) rfl
  · intro entry earlier
    simp [List.mem_map_of_mem earlier]

theorem removeBatch_take (memory : MemoryMap H) (n : Nat) :
    (memory.removeBatch ((memory.entries.take n).map (·.hash))).entries = memory.entries.drop n := by
  have erased : ∀ keys : List H, (memory.removeBatch keys).entries = memory.entries.filter (·.hash ∉ keys) := by
    intro keys
    induction keys generalizing memory with
    | nil => simp [removeBatch]
    | cons hash rest ih =>
      rw [removeBatch, List.foldl_cons, ← removeBatch, ih]
      simp only [erase, List.filter_filter, List.mem_cons, not_or]
      congr 1
      funext entry
      simp [Bool.and_comm]
  have front := filter_notMem_front (memory.entries.take n) (memory.entries.drop n)
    (by rw [List.take_append_drop]; exact memory.distinct)
  rw [List.take_append_drop] at front
  rw [erased, front]

end MemoryMap

namespace Backend

theorem lookup_of_isEmpty {backend : Backend H} (empty : backend.isEmpty = true) (hash : H) :
    backend.lookup hash = none := by
  unfold isEmpty at empty
  rw [beq_iff_eq, Finset.card_eq_zero] at empty
  unfold lookup
  rw [Finmap.lookup_eq_none, ← Finmap.mem_keys, empty]
  exact Finset.notMem_empty hash

theorem containsKey_eq (backend : Backend H) (hash : H) : backend.containsKey hash = (backend.lookup hash).isSome := by
  unfold containsKey lookup
  rw [Bool.eq_iff_iff, decide_eq_true_iff, Finmap.lookup_isSome]

@[simp]
theorem lookup_removeNoReturn (backend : Backend H) (hash key : H) :
    (backend.removeNoReturn hash).lookup key = if key = hash then none else backend.lookup key := by
  unfold removeNoReturn lookup
  split
  · subst key
    exact Finmap.lookup_erase _ _
  · exact Finmap.lookup_erase_ne ‹_›

@[simp]
theorem lookup_insert (backend : Backend H) (view : HeaderIndexView H) (key : H) :
    (backend.insert view).lookup key = if key = view.hash then some view else backend.lookup key := by
  unfold insert lookup
  split
  · subst key
    simp
  · exact Finmap.lookup_insert_of_ne _ ‹_›

theorem lookup_insertBatch (backend : Backend H) {values : List (HeaderIndexView H)}
    (distinct : (values.map (·.hash)).Nodup) (key : H) :
    (backend.insertBatch values).lookup key =
      if key ∈ values.map (·.hash) then values.find? (·.hash = key) else backend.lookup key := by
  induction values generalizing backend with
  | nil => rfl
  | cons view rest ih =>
    rw [List.map_cons, List.nodup_cons] at distinct
    rw [insertBatch, List.foldl_cons, ← insertBatch, ih _ distinct.2, List.find?_cons]
    by_cases later : key ∈ rest.map (·.hash)
    · have other : view.hash ≠ key := fun same => distinct.1 (same ▸ later)
      simp [later, other]
    · by_cases here : view.hash = key
      · subst key
        simp [later]
      · simp [later, Ne.symm here]

end Backend

namespace Kernel

/-- The map a kernel stands for: the memory map's view of a hash over the backend's. -/
def abstract (kernel : Kernel H) (hash : H) : Option (HeaderIndexView H) :=
  (kernel.memory.lookup hash).or (kernel.backend.lookup hash)

end Kernel

/-- A call of the map from hash to view that the kernel stands for: the map before and after, and
the result. `insert` reports whether the memory map had the hash, which the map does not say. -/
def Call.Spec : Call H → (H → Option (HeaderIndexView H)) → (H → Option (HeaderIndexView H)) → Result H → Prop
  | .containsKey hash, before, after, result => after = before ∧ result = .containsKey (before hash).isSome
  | .get hash, before, after, result => after = before ∧ result = .get (before hash)
  | .insert view, before, after, _ => after = Function.update before view.hash (some view)
  | .remove hash, before, after, result => after = Function.update before hash none ∧ result = .remove
  | .limitMemory, before, after, result => after = before ∧ result = .limitMemory

namespace Task

variable (memoryLimit : Nat) (kernel : Kernel H)

theorem runAlone_containsKey (hash : H) :
    runAlone memoryLimit 4 kernel (.call (.containsKey hash)) = some (kernel, .containsKey (kernel.abstract hash).isSome) := by
  simp only [runAlone, step, MemoryMap.containsKey]
  by_cases hit : (kernel.memory.lookup hash).isSome = true
  · rcases Option.isSome_iff_exists.mp hit with ⟨view, found⟩
    simp [Kernel.abstract, found]
  · have missed : kernel.memory.lookup hash = none := Option.not_isSome_iff_eq_none.mp hit
    by_cases empty : kernel.backend.isEmpty = true
    · simp [Kernel.abstract, missed, empty, Backend.lookup_of_isEmpty empty]
    · simp [Kernel.abstract, missed, empty, Backend.containsKey_eq]

theorem runAlone_get (hash : H) :
    ∃ kernel', runAlone memoryLimit 4 kernel (.call (.get hash)) = some (kernel', .get (kernel.abstract hash)) ∧
      kernel'.abstract = kernel.abstract := by
  rcases kernel.memory.lookup_getRefresh hash with ⟨refreshed, found⟩
  simp only [runAlone, step]
  rcases hrefresh : kernel.memory.getRefresh hash with ⟨memory, _ | view⟩
  · rw [hrefresh] at refreshed found
    dsimp only at refreshed found ⊢
    by_cases empty : kernel.backend.isEmpty = true
    · -- a memory miss and an empty backend
      refine ⟨{ kernel with memory }, by simp [empty, Kernel.abstract, ← found, Backend.lookup_of_isEmpty empty], ?_⟩
      funext key
      simp [Kernel.abstract, refreshed]
    · rcases hbackend : kernel.backend.lookup hash with _ | view
      · refine ⟨{ memory, backend := kernel.backend.removeNoReturn hash }, ?_, ?_⟩
        · simp [empty, Backend.remove, hbackend, Kernel.abstract, ← found]
        · funext key
          by_cases same : key = hash
          · subst key
            simp [Kernel.abstract, refreshed, ← found, hbackend]
          · simp [Kernel.abstract, refreshed, same]
      · -- the view moves from the backend to the memory map
        refine ⟨{ memory := (memory.insert view).1, backend := kernel.backend.removeNoReturn hash }, ?_, ?_⟩
        · simp [empty, Backend.remove, hbackend, Kernel.abstract, ← found]
        · have own : view.hash = hash := kernel.backend.keyed hash view hbackend
          funext key
          by_cases same : key = hash
          · subst key
            simp [Kernel.abstract, MemoryMap.insert, own, ← found, hbackend]
          · simp [Kernel.abstract, MemoryMap.insert, own, same, refreshed]
  · rw [hrefresh] at refreshed found
    refine ⟨{ kernel with memory }, by simp [Kernel.abstract, ← found], ?_⟩
    funext key
    simp [Kernel.abstract, refreshed]

theorem runAlone_insert (view : HeaderIndexView H) :
    ∃ kernel' replaced, runAlone memoryLimit 4 kernel (.call (.insert view)) = some (kernel', .insert replaced) ∧
      kernel'.abstract = Function.update kernel.abstract view.hash (some view) := by
  refine ⟨{ kernel with memory := kernel.memory.toBack view }, _, rfl, funext fun key => ?_⟩
  by_cases same : key = view.hash
  · subst key
    simp [Kernel.abstract]
  · simp [Kernel.abstract, same]

theorem runAlone_remove (hash : H) :
    ∃ kernel', runAlone memoryLimit 4 kernel (.call (.remove hash)) = some (kernel', .remove) ∧
      kernel'.abstract = Function.update kernel.abstract hash none := by
  by_cases empty : kernel.backend.isEmpty = true
  · -- the backend holds nothing, so the memory map is all there is to remove from
    refine ⟨{ kernel with memory := kernel.memory.erase hash }, by simp [runAlone, step, MemoryMap.remove, empty],
      funext fun key => ?_⟩
    by_cases same : key = hash
    · subst key
      simp [Kernel.abstract, Backend.lookup_of_isEmpty empty]
    · simp [Kernel.abstract, same]
  · refine ⟨{ memory := kernel.memory.erase hash, backend := kernel.backend.removeNoReturn hash },
      by simp [runAlone, step, MemoryMap.remove, empty], funext fun key => ?_⟩
    by_cases same : key = hash
    · subst key
      simp [Kernel.abstract]
    · simp [Kernel.abstract, same]

/-- `limit_memory` run alone moves the oldest views to the backend without changing the map, and
leaves at most `memory_limit` of them in memory. -/
theorem runAlone_limitMemory :
    ∃ kernel', runAlone memoryLimit 4 kernel (.call .limitMemory) = some (kernel', .limitMemory) ∧
      kernel'.abstract = kernel.abstract ∧ kernel'.memory.entries.length ≤ memoryLimit := by
  by_cases crowded : kernel.memory.entries.length > memoryLimit
  · have distinct : ((kernel.memory.entries.take (kernel.memory.entries.length - memoryLimit)).map (·.hash)).Nodup :=
      kernel.memory.distinct.sublist ((List.take_sublist _ _).map _)
    refine ⟨{ memory := kernel.memory.removeBatch
                ((kernel.memory.entries.take (kernel.memory.entries.length - memoryLimit)).map (·.hash))
              backend := kernel.backend.insertBatch (kernel.memory.entries.take (kernel.memory.entries.length - memoryLimit)) },
      by simp [runAlone, step, MemoryMap.frontN, crowded], funext fun key => ?_, ?_⟩
    · simp only [Kernel.abstract, MemoryMap.lookup_removeBatch, Backend.lookup_insertBatch _ distinct]
      by_cases moved : key ∈ (kernel.memory.entries.take (kernel.memory.entries.length - memoryLimit)).map (·.hash)
      · -- a moved view is the memory map's view of its hash, now in the backend
        rw [if_pos moved, if_pos moved]
        rcases List.mem_map.mp moved with ⟨entry, member, rfl⟩
        have inFront : ((kernel.memory.entries.take (kernel.memory.entries.length - memoryLimit)).find?
            (·.hash = entry.hash)).isSome := List.find?_isSome.mpr ⟨entry, member, by simp⟩
        rcases Option.isSome_iff_exists.mp inFront with ⟨found, hfound⟩
        have stored : kernel.memory.lookup entry.hash = some found := by
          unfold MemoryMap.lookup
          rw [← List.take_append_drop (kernel.memory.entries.length - memoryLimit) kernel.memory.entries,
            List.find?_append, hfound]
          rfl
        rw [hfound, stored]
        rfl
      · rw [if_neg moved, if_neg moved]
    · rw [MemoryMap.removeBatch_take, List.length_drop]
      omega
  · refine ⟨kernel, by simp [runAlone, step, MemoryMap.frontN, crowded], rfl, by omega⟩

/-- Run with no other call in progress, every call of the header map does to the map from hash to
view what the call of that map does, and answers as it does. -/
theorem runAlone_spec (call : Call H) :
    ∃ kernel' result, runAlone memoryLimit 4 kernel (.call call) = some (kernel', result) ∧
      call.Spec kernel.abstract kernel'.abstract result := by
  cases call with
  | containsKey hash => exact ⟨kernel, _, runAlone_containsKey memoryLimit kernel hash, rfl, rfl⟩
  | get hash =>
    rcases runAlone_get memoryLimit kernel hash with ⟨kernel', ran, same⟩
    exact ⟨kernel', _, ran, same, rfl⟩
  | insert view =>
    rcases runAlone_insert memoryLimit kernel view with ⟨kernel', replaced, ran, updated⟩
    exact ⟨kernel', _, ran, updated⟩
  | remove hash =>
    rcases runAlone_remove memoryLimit kernel hash with ⟨kernel', ran, updated⟩
    exact ⟨kernel', _, ran, updated, rfl⟩
  | limitMemory =>
    rcases runAlone_limitMemory memoryLimit kernel with ⟨kernel', ran, same, -⟩
    exact ⟨kernel', _, ran, same, rfl⟩

end Task

/-! Where the views of a kernel come from: every view the memory map, the backend or a call in
progress holds, and every view a `get` returns, is the view of an `insert` call. -/

namespace MemoryMap

theorem mem_toBack {memory : MemoryMap H} {view other : HeaderIndexView H} (member : other ∈ (memory.toBack view).entries) :
    other ∈ memory.entries ∨ other = view := by
  rcases List.mem_append.mp member with kept | added
  · exact .inl (List.mem_filter.mp kept).1
  · exact .inr (List.mem_singleton.mp added)

theorem mem_removeBatch {memory : MemoryMap H} {keys : List H} {other : HeaderIndexView H}
    (member : other ∈ (memory.removeBatch keys).entries) : other ∈ memory.entries := by
  induction keys generalizing memory with
  | nil => exact member
  | cons hash rest ih => exact (List.mem_filter.mp (ih member)).1

theorem mem_of_lookup {memory : MemoryMap H} {hash : H} {view : HeaderIndexView H}
    (found : memory.lookup hash = some view) : view ∈ memory.entries :=
  List.mem_of_find?_eq_some found

end MemoryMap

namespace Backend

theorem lookup_insertBatch_of_some {backend : Backend H} {values : List (HeaderIndexView H)} {view : HeaderIndexView H}
    (found : (backend.insertBatch values).lookup view.hash = some view) :
    view ∈ values ∨ backend.lookup view.hash = some view := by
  induction values generalizing backend with
  | nil => exact .inr found
  | cons first rest ih =>
    rcases ih found with later | earlier
    · exact .inl (List.mem_cons_of_mem first later)
    · rw [lookup_insert] at earlier
      split at earlier
      · exact .inl (List.mem_cons.mpr (.inl (Option.some_inj.mp earlier).symm))
      · exact .inr earlier

end Backend

/-- The kernel holds a view: in the memory map, or in the backend under its hash. -/
def Kernel.Holds (kernel : Kernel H) (view : HeaderIndexView H) : Prop :=
  view ∈ kernel.memory.entries ∨ kernel.backend.lookup view.hash = some view

/-- The views a call in progress holds. -/
def Task.Holds : Task H → HeaderIndexView H → Prop
  | .call (.insert inserted), view => view = inserted
  | .getInsert taken, view => view = taken
  | .limitInsert values, view => view ∈ values
  | .limitRemove values, view => view ∈ values
  | _, _ => False

/-- The view a result returns. -/
def Result.Gives : Result H → HeaderIndexView H → Prop
  | .get (some found), view => view = found
  | _, _ => False

/-- The views a call's rest or its result holds. -/
def Task.OutcomeHolds : Task H ⊕ Result H → HeaderIndexView H → Prop
  | .inl next => next.Holds
  | .inr result => result.Gives

theorem Kernel.holds_toBack {kernel : Kernel H} {view other : HeaderIndexView H}
    (held : Kernel.Holds { kernel with memory := kernel.memory.toBack view } other) : kernel.Holds other ∨ other = view := by
  rcases held with inMemory | inBackend
  · rcases MemoryMap.mem_toBack inMemory with kept | added
    · exact .inl (.inl kept)
    · exact .inr added
  · exact .inl (.inr inBackend)

theorem Kernel.holds_of_memory_subset {kernel : Kernel H} {memory : MemoryMap H}
    (subset : ∀ view ∈ memory.entries, view ∈ kernel.memory.entries) {view : HeaderIndexView H}
    (held : Kernel.Holds { kernel with memory } view) : kernel.Holds view := by
  rcases held with inMemory | inBackend
  · exact .inl (subset view inMemory)
  · exact .inr inBackend

theorem Kernel.holds_removeNoReturn {kernel : Kernel H} {hash : H} {view : HeaderIndexView H}
    (held : Kernel.Holds { kernel with backend := kernel.backend.removeNoReturn hash } view) : kernel.Holds view := by
  rcases held with inMemory | inBackend
  · exact .inl inMemory
  · rw [Backend.lookup_removeNoReturn] at inBackend
    split at inBackend
    · cases inBackend
    · exact .inr inBackend

/-- One step keeps the views where they were: every view of the kernel after it, of the task's
rest or of its result was the kernel's or the task's before. -/
theorem Task.step_holds (memoryLimit : Nat) {kernel kernel' : Kernel H} {task : Task H} {outcome : Task H ⊕ Result H}
    (ran : task.step memoryLimit kernel = (kernel', outcome)) (view : HeaderIndexView H)
    (held : kernel'.Holds view ∨ Task.OutcomeHolds outcome view) : kernel.Holds view ∨ task.Holds view := by
  cases task with
  | call call =>
    cases call with
    | containsKey hash =>
      simp only [step] at ran
      split at ran <;> cases ran <;> simpa [Task.OutcomeHolds, Task.Holds, Result.Gives] using held
    | get hash =>
      -- a found view is the memory map's, moved to the back
      simp only [step] at ran
      rcases found : kernel.memory.lookup hash with _ | found'
      · simp only [MemoryMap.getRefresh, found] at ran
        cases ran
        simpa [Task.OutcomeHolds, Task.Holds] using held
      · simp only [MemoryMap.getRefresh, found] at ran
        cases ran
        rcases held with inKernel | given
        · rcases Kernel.holds_toBack inKernel with old | rfl
          · exact .inl old
          · exact .inl (.inl (MemoryMap.mem_of_lookup found))
        · simp only [Task.OutcomeHolds, Result.Gives] at given
          subst given
          exact .inl (.inl (MemoryMap.mem_of_lookup found))
    | insert inserted =>
      simp only [step, MemoryMap.insert] at ran
      cases ran
      rcases held with inKernel | given
      · rcases Kernel.holds_toBack inKernel with old | rfl
        · exact .inl old
        · exact .inr rfl
      · simp [Task.OutcomeHolds, Result.Gives] at given
    | remove hash =>
      simp only [step, MemoryMap.remove] at ran
      cases ran
      rcases held with inKernel | given
      · exact .inl (Kernel.holds_of_memory_subset (fun _ member => (List.mem_filter.mp member).1) inKernel)
      · simp [Task.OutcomeHolds, Task.Holds] at given
    | limitMemory =>
      -- the views `front_n` takes are the oldest of the memory map
      simp only [step] at ran
      rcases front : kernel.memory.frontN memoryLimit with _ | values
      · rw [front] at ran
        cases ran
        exact .inl (by simpa [Task.OutcomeHolds, Result.Gives] using held)
      · rw [front] at ran
        cases ran
        rcases held with inKernel | taken
        · exact .inl inKernel
        · simp only [Task.OutcomeHolds, Task.Holds] at taken
          unfold MemoryMap.frontN at front
          split at front
          · cases front
            exact .inl (.inl (List.mem_of_mem_take taken))
          · cases front
  | containsKeyBackend hash =>
    simp only [step] at ran
    split at ran <;> cases ran <;> simpa [Task.OutcomeHolds, Task.Holds, Result.Gives] using held
  | containsKeyLookup hash =>
    simp only [step] at ran
    cases ran
    exact .inl (by simpa [Task.OutcomeHolds, Result.Gives] using held)
  | getBackend hash =>
    simp only [step] at ran
    split at ran <;> cases ran <;> simpa [Task.OutcomeHolds, Task.Holds, Result.Gives] using held
  | getRemove hash =>
    -- the view taken out was the backend's, under its own hash
    simp only [step, Backend.remove] at ran
    rcases found : kernel.backend.lookup hash with _ | taken
    · rw [found] at ran
      cases ran
      rcases held with inKernel | given
      · exact .inl (Kernel.holds_removeNoReturn inKernel)
      · simp [Task.OutcomeHolds, Result.Gives] at given
    · rw [found] at ran
      cases ran
      rcases held with inKernel | given
      · exact .inl (Kernel.holds_removeNoReturn inKernel)
      · simp only [Task.OutcomeHolds, Task.Holds] at given
        subst given
        have own := kernel.backend.keyed hash view found
        exact .inl (.inr (own ▸ found))
  | getInsert taken =>
    simp only [step, MemoryMap.insert] at ran
    cases ran
    rcases held with inKernel | given
    · rcases Kernel.holds_toBack inKernel with old | rfl
      · exact .inl old
      · exact .inr rfl
    · simp only [Task.OutcomeHolds, Result.Gives] at given
      exact .inr given
  | removeBackend hash =>
    simp only [step] at ran
    split at ran <;> cases ran <;> simpa [Task.OutcomeHolds, Task.Holds, Result.Gives] using held
  | removeNoReturn hash =>
    simp only [step] at ran
    cases ran
    rcases held with inKernel | given
    · exact .inl (Kernel.holds_removeNoReturn inKernel)
    · simp [Task.OutcomeHolds, Result.Gives] at given
  | limitInsert values =>
    simp only [step] at ran
    cases ran
    rcases held with inKernel | kept
    · rcases inKernel with inMemory | inBackend
      · exact .inl (.inl inMemory)
      · rcases Backend.lookup_insertBatch_of_some inBackend with moved | old
        · exact .inr moved
        · exact .inl (.inr old)
    · exact .inr kept
  | limitRemove values =>
    simp only [step] at ran
    cases ran
    rcases held with inKernel | given
    · exact .inl (Kernel.holds_of_memory_subset (fun _ member => MemoryMap.mem_removeBatch member) inKernel)
    · simp [Task.OutcomeHolds, Result.Gives] at given

namespace System

variable {memoryLimit : Nat}

theorem perform_step {sys sys' : System H} {action : Action H} (performed : perform memoryLimit sys action = some sys') :
    Step memoryLimit sys sys' := by
  cases action with
  | call call =>
    cases performed
    exact Step.call sys call
  | run index =>
    simp only [perform] at performed
    rcases found : sys.tasks[index]? with _ | ⟨id, task⟩
    · simp [found] at performed
    · simp only [found, Option.some.injEq] at performed
      subst performed
      rcases List.getElem?_eq_some_iff.mp found with ⟨within, same⟩
      -- the call at the index splits the calls in progress around it
      have split : sys.tasks = sys.tasks.take index ++ (id, task) :: sys.tasks.drop (index + 1) := by
        rw [← same, ← List.drop_eq_getElem_cons within, List.take_append_drop]
      exact Step.run sys _ _ id task split

theorem reachable_of_performAll : ∀ (actions : List (Action H)) {sys sys' : System H},
    performAll memoryLimit sys actions = some sys' → Relation.ReflTransGen (Step memoryLimit) sys sys'
  | [], _, _, performed => by
    cases performed
    exact Relation.ReflTransGen.refl
  | action :: actions, sys, sys', performed => by
    simp only [performAll, List.foldlM_cons, Option.bind_eq_bind, Option.bind_eq_some_iff] at performed
    rcases performed with ⟨middle, first, rest⟩
    exact Relation.ReflTransGen.head (perform_step first) (reachable_of_performAll actions rest)

/-- Every view the kernel or a call in progress holds, and every view a `get` returned, is the view
of an `insert` call of the history. -/
def Sourced (sys : System H) : Prop :=
  ∀ view, (sys.kernel.Holds view ∨ (∃ id task, (id, task) ∈ sys.tasks ∧ task.Holds view) ∨
    ∃ id, Event.respond id (.get (some view)) ∈ sys.history) → ∃ id, Event.invoke id (.insert view) ∈ sys.history

theorem sourced_initial : (initial : System H).Sourced := by
  rintro view (inKernel | ⟨_, _, held, -⟩ | ⟨_, responded⟩)
  · rcases inKernel with inMemory | inBackend
    · cases inMemory
    · cases inBackend
  · cases held
  · cases responded

theorem Sourced.start {sys : System H} (sourced : sys.Sourced) (call : Call H) : (sys.start call).Sourced := by
  have grown : ∀ {event : Event H}, event ∈ sys.history → event ∈ (sys.start call).history :=
    fun member => List.mem_append_left _ member
  rintro view (inKernel | ⟨id, task, held, holds⟩ | ⟨id, responded⟩)
  · rcases sourced view (.inl inKernel) with ⟨id, invoked⟩
    exact ⟨id, grown invoked⟩
  · rcases List.mem_append.mp held with old | new
    · rcases sourced view (.inr (.inl ⟨id, task, old, holds⟩)) with ⟨id', invoked⟩
      exact ⟨id', grown invoked⟩
    · -- the new call holds a view only as an `insert` of it, invoked now
      rw [List.mem_singleton, Prod.mk.injEq] at new
      rcases new with ⟨-, rfl⟩
      cases call with
      | insert inserted =>
        cases holds
        exact ⟨sys.nextId, List.mem_append_right _ (List.mem_singleton_self _)⟩
      | _ => cases holds
  · rcases List.mem_append.mp responded with old | new
    · rcases sourced view (.inr (.inr ⟨id, old⟩)) with ⟨id', invoked⟩
      exact ⟨id', grown invoked⟩
    · simp at new

theorem Sourced.advance {sys : System H} (sourced : sys.Sourced) {before after : List (Nat × Task H)} {id : Nat}
    {task : Task H} (split : sys.tasks = before ++ (id, task) :: after) :
    (sys.advance memoryLimit before after id task).Sourced := by
  -- a view of the step's results was the kernel's or the stepping call's
  have earlier : ∀ view, sys.kernel.Holds view ∨ task.Holds view → ∃ id, Event.invoke id (.insert view) ∈ sys.history := by
    rintro view (inKernel | holds)
    · exact sourced view (.inl inKernel)
    · exact sourced view (.inr (.inl ⟨id, task, split ▸ List.mem_append_right _ (List.mem_cons_self ..), holds⟩))
  have others : ∀ view, ∀ other ∈ before ++ after, Task.Holds other.2 view →
      ∃ id, Event.invoke id (.insert view) ∈ sys.history := by
    intro view other member holds
    have kept : other ∈ sys.tasks := by
      rw [split]
      rcases List.mem_append.mp member with left | right
      · exact List.mem_append_left _ left
      · exact List.mem_append_right _ (List.mem_cons_of_mem _ right)
    exact sourced view (.inr (.inl ⟨other.1, other.2, kept, holds⟩))
  unfold System.advance
  rcases ran : task.step memoryLimit sys.kernel with ⟨kernel, next | result⟩
  · rintro view (inKernel | ⟨id', task', held, holds⟩ | ⟨id', responded⟩)
    · exact earlier view (Task.step_holds memoryLimit ran view (.inl inKernel))
    · rcases List.mem_append.mp held with left | here
      · exact others view (id', task') (List.mem_append_left _ left) holds
      · rcases List.mem_cons.mp here with same | right
        · rw [Prod.mk.injEq] at same
          rcases same with ⟨rfl, rfl⟩
          exact earlier view (Task.step_holds memoryLimit ran view (.inr holds))
        · exact others view (id', task') (List.mem_append_right _ right) holds
    · exact sourced view (.inr (.inr ⟨id', responded⟩))
  · rintro view (inKernel | ⟨id', task', held, holds⟩ | ⟨id', responded⟩)
    · rcases earlier view (Task.step_holds memoryLimit ran view (.inl inKernel)) with ⟨id'', invoked⟩
      exact ⟨id'', List.mem_append_left _ invoked⟩
    · rcases others view (id', task') held holds with ⟨id'', invoked⟩
      exact ⟨id'', List.mem_append_left _ invoked⟩
    · rcases List.mem_append.mp responded with old | new
      · rcases sourced view (.inr (.inr ⟨id', old⟩)) with ⟨id'', invoked⟩
        exact ⟨id'', List.mem_append_left _ invoked⟩
      · -- the response returns a view of the step
        rw [List.mem_singleton, Event.respond.injEq] at new
        rcases new with ⟨rfl, rfl⟩
        rcases earlier view (Task.step_holds memoryLimit ran view (.inr rfl)) with ⟨id'', invoked⟩
        exact ⟨id'', List.mem_append_left _ invoked⟩

theorem Sourced.step {sys sys' : System H} (sourced : sys.Sourced) (step : Step memoryLimit sys sys') : sys'.Sourced := by
  cases step with
  | call call => exact sourced.start call
  | run before after id task split => exact sourced.advance split

theorem Reachable.sourced {sys : System H} (reachable : sys.Reachable memoryLimit) : sys.Sourced := by
  induction reachable with
  | refl => exact sourced_initial
  | tail _ step sourced => exact sourced.step step

/-- Over every interleaving of the calls, a view that a `get` returns is the view of some `insert`
call: the map never makes a view up. -/
theorem Reachable.get_inserted {sys : System H} (reachable : sys.Reachable memoryLimit) {id : Nat}
    {view : HeaderIndexView H} (responded : Event.respond id (.get (some view)) ∈ sys.history) :
    ∃ id', Event.invoke id' (.insert view) ∈ sys.history :=
  reachable.sourced view (.inr (.inr ⟨id, responded⟩))

/-- The view of block `1` in a map that keeps nothing in memory. -/
def sampleView : HeaderIndexView Nat := ⟨1, 1, 0, none⟩

/-- `insert` and `limit_memory` move the view to the backend; a `get` takes it out of the
backend, and before it puts it in memory a `remove` of its hash runs to the end; a later `get`
starts. -/
def restoreSchedule : List (Action Nat) :=
  [.call (.insert sampleView), .run 0, .call .limitMemory, .run 0, .run 0, .run 0,
    .call (.get 1), .run 0, .run 0, .run 0, .call (.remove 1), .run 1, .run 1, .run 0,
    .call (.get 1), .run 0]

/-- A run where `remove(1)` responds before a `get(1)` is invoked, no `insert` of hash `1` is
invoked after the `remove`, and that `get` returns the view. -/
theorem remove_during_get_restores_header :
    ∃ sys : System Nat, sys.Reachable 0 ∧ sys.history =
      [.invoke 0 (.insert sampleView), .respond 0 (.insert none), .invoke 1 .limitMemory, .respond 1 .limitMemory,
        .invoke 2 (.get 1), .invoke 3 (.remove 1), .respond 3 .remove, .respond 2 (.get (some sampleView)),
        .invoke 4 (.get 1), .respond 4 (.get (some sampleView))] := by
  have ran : (performAll 0 initial restoreSchedule).map (·.history) =
      some [.invoke 0 (.insert sampleView), .respond 0 (.insert none), .invoke 1 .limitMemory,
        .respond 1 .limitMemory, .invoke 2 (.get 1), .invoke 3 (.remove 1), .respond 3 .remove,
        .respond 2 (.get (some sampleView)), .invoke 4 (.get 1), .respond 4 (.get (some sampleView))] := by
    decide
  rcases Option.map_eq_some_iff.mp ran with ⟨sys, performed, history⟩
  exact ⟨sys, reachable_of_performAll restoreSchedule performed, history⟩

theorem restored_get_was_inserted :
    ∃ sys : System Nat, sys.Reachable 0 ∧ Event.respond 4 (.get (some sampleView)) ∈ sys.history ∧
      ∃ id, Event.invoke id (.insert sampleView) ∈ sys.history := by
  have ran : (performAll 0 initial restoreSchedule).map
      (fun sys => decide (Event.respond 4 (.get (some sampleView)) ∈ sys.history)) = some true := by
    decide
  obtain ⟨sys, performed, responded⟩ := Option.map_eq_some_iff.mp ran
  have reachable := reachable_of_performAll restoreSchedule performed
  exact ⟨sys, reachable, of_decide_eq_true responded,
    Reachable.get_inserted reachable (of_decide_eq_true responded)⟩

end System

end Ckb.HeaderMap
