import Ckb.Shared.HeaderIndexView
import Ckb.Support.FiniteMap

/-!
The header map of the shared state (`header_map/kernel_lru.rs`): `HeaderMapKernel` keeps the
recent header views in a `MemoryMap`, a `LinkedHashMap` from hash to view under one `RwLock`, and
moves the oldest ones to a key-value backend (`KeyValueBackend`, a sled tree) when
`limit_memory` finds more than `memory_limit` of them. A view leaves the backend again when `get`
reads it.

Each `MemoryMap` method takes its lock once, and each backend call is atomic, but a kernel
operation is a sequence of such calls. A call is a `Task`, one constructor for each point between
two of them, and `Task.step` runs the next one. A system is the kernel with the calls in progress
and the history of their invocations and responses; a `Step` starts a call or runs one step of any
call in progress, so the runs of `Step` are the interleavings and the order of the history is real
time. The `shrink_to_fit` of the memory map under `ibd_finished`, the metrics and the statistics
change no entry and are left out.
-/

namespace Ckb.HeaderMap

variable {H : Type} [DecidableEq H]

/-- `MemoryMap`: the entries of the `LinkedHashMap`, oldest first, with distinct hashes. -/
structure MemoryMap (H : Type) where
  entries : List (HeaderIndexView H)
  distinct : (entries.map (·.hash)).Nodup

namespace MemoryMap

def empty : MemoryMap H := ⟨[], List.nodup_nil⟩

def lookup (memory : MemoryMap H) (hash : H) : Option (HeaderIndexView H) :=
  memory.entries.find? (·.hash = hash)

def containsKey (memory : MemoryMap H) (hash : H) : Bool := (memory.lookup hash).isSome

/-- The entries without the one of `hash`, as `LinkedHashMap::remove` leaves them. -/
def erase (memory : MemoryMap H) (hash : H) : MemoryMap H :=
  ⟨memory.entries.filter (·.hash ≠ hash), memory.distinct.sublist (List.filter_sublist.map _)⟩

/-- A view at the back, in place of the entry of its hash: `LinkedHashMap::insert` of a new or an
existing key, and `get_refresh` of a found one. -/
def toBack (memory : MemoryMap H) (view : HeaderIndexView H) : MemoryMap H :=
  ⟨(memory.erase view.hash).entries ++ [view], by
    rw [List.map_append, List.map_singleton, List.nodup_append]
    refine ⟨(memory.erase view.hash).distinct, List.nodup_singleton _, fun a member b single => ?_⟩
    rw [List.mem_singleton] at single
    subst single
    rcases List.mem_map.mp member with ⟨entry, kept, rfl⟩
    simpa using (List.mem_filter.mp kept).2⟩

/-- `get_refresh`: the view of `hash`, moved to the back. -/
def getRefresh (memory : MemoryMap H) (hash : H) : MemoryMap H × Option (HeaderIndexView H) :=
  match memory.lookup hash with
  | none => (memory, none)
  | some view => (memory.toBack view, some view)

/-- `insert`: `some ()` when the hash had an entry. -/
def insert (memory : MemoryMap H) (view : HeaderIndexView H) : MemoryMap H × Option Unit :=
  (memory.toBack view, (memory.lookup view.hash).map fun _ => ())

def remove (memory : MemoryMap H) (hash : H) : MemoryMap H × Option (HeaderIndexView H) :=
  (memory.erase hash, memory.lookup hash)

/-- `front_n`: the oldest entries beyond the first `size_limit` from the back. -/
def frontN (memory : MemoryMap H) (sizeLimit : Nat) : Option (List (HeaderIndexView H)) :=
  if memory.entries.length > sizeLimit then some (memory.entries.take (memory.entries.length - sizeLimit))
  else none

def removeBatch (memory : MemoryMap H) (keys : List H) : MemoryMap H := keys.foldl erase memory

end MemoryMap

/-- The sled backend, as the map it stores; each view is stored under its own hash. -/
structure Backend (H : Type) [DecidableEq H] where
  views : FiniteMap H (HeaderIndexView H)
  keyed : ∀ hash view, views.lookup hash = some view → view.hash = hash

namespace Backend

def empty : Backend H := ⟨∅, fun _ _ stored => by cases stored⟩

def lookup (backend : Backend H) (hash : H) : Option (HeaderIndexView H) := backend.views.lookup hash

def containsKey (backend : Backend H) (hash : H) : Bool := decide (hash ∈ backend.views)

/-- `is_empty`: `len() == 0`. -/
def isEmpty (backend : Backend H) : Bool := backend.views.keys.card == 0

def removeNoReturn (backend : Backend H) (hash : H) : Backend H :=
  ⟨backend.views.erase hash, fun key view stored => by
    by_cases same : key = hash
    · subst key
      rw [Finmap.lookup_erase] at stored
      cases stored
    · rw [Finmap.lookup_erase_ne same] at stored
      exact backend.keyed key view stored⟩

/-- `remove`: the view of `hash`, taken out. -/
def remove (backend : Backend H) (hash : H) : Backend H × Option (HeaderIndexView H) :=
  (backend.removeNoReturn hash, backend.lookup hash)

def insert (backend : Backend H) (view : HeaderIndexView H) : Backend H :=
  ⟨backend.views.insert view.hash view, fun key stored found => by
    by_cases same : key = view.hash
    · subst key
      rw [Finmap.lookup_insert, Option.some_inj] at found
      rw [← found]
    · rw [Finmap.lookup_insert_of_ne _ same] at found
      exact backend.keyed key stored found⟩

def insertBatch (backend : Backend H) (values : List (HeaderIndexView H)) : Backend H :=
  values.foldl insert backend

end Backend

structure Kernel (H : Type) [DecidableEq H] where
  memory : MemoryMap H
  backend : Backend H

/-- The kernel calls, each at its first step. -/
inductive Call (H : Type) where
  | containsKey (hash : H)
  | get (hash : H)
  | insert (view : HeaderIndexView H)
  | remove (hash : H)
  | limitMemory
deriving DecidableEq, Repr

/-- What a call returns. -/
inductive Result (H : Type) where
  | containsKey (found : Bool)
  | get (view : Option (HeaderIndexView H))
  | insert (replaced : Option Unit)
  | remove
  | limitMemory
deriving DecidableEq, Repr

/-- A call in progress, before its next atomic step. -/
inductive Task (H : Type) where
  | call (call : Call H)
  /-- `contains_key` after a memory miss, before `backend.is_empty()`. -/
  | containsKeyBackend (hash : H)
  /-- `contains_key` before `backend.contains_key`. -/
  | containsKeyLookup (hash : H)
  /-- `get` after a memory miss, before `backend.is_empty()`. -/
  | getBackend (hash : H)
  /-- `get` before `backend.remove`. -/
  | getRemove (hash : H)
  /-- `get` holding the view it took from the backend, before `memory.insert`. -/
  | getInsert (view : HeaderIndexView H)
  /-- `remove` after `memory.remove`, before `backend.is_empty()`. -/
  | removeBackend (hash : H)
  /-- `remove` before `backend.remove_no_return`. -/
  | removeNoReturn (hash : H)
  /-- `limit_memory` with the views of `front_n`, before `insert_batch`. -/
  | limitInsert (values : List (HeaderIndexView H))
  /-- `limit_memory` before `remove_batch`. -/
  | limitRemove (values : List (HeaderIndexView H))
deriving DecidableEq, Repr

namespace Task

/-- The next atomic step of a task: the kernel after it, and the task's rest or its result. -/
def step (memoryLimit : Nat) (kernel : Kernel H) : Task H → Kernel H × (Task H ⊕ Result H)
  | .call (.containsKey hash) =>
    if kernel.memory.containsKey hash then (kernel, .inr (.containsKey true))
    else (kernel, .inl (.containsKeyBackend hash))
  | .containsKeyBackend hash =>
    if kernel.backend.isEmpty then (kernel, .inr (.containsKey false))
    else (kernel, .inl (.containsKeyLookup hash))
  | .containsKeyLookup hash => (kernel, .inr (.containsKey (kernel.backend.containsKey hash)))
  | .call (.get hash) =>
    match kernel.memory.getRefresh hash with
    | (memory, some view) => ({ kernel with memory }, .inr (.get (some view)))
    | (memory, none) => ({ kernel with memory }, .inl (.getBackend hash))
  | .getBackend hash =>
    if kernel.backend.isEmpty then (kernel, .inr (.get none)) else (kernel, .inl (.getRemove hash))
  | .getRemove hash =>
    match kernel.backend.remove hash with
    | (backend, some view) => ({ kernel with backend }, .inl (.getInsert view))
    | (backend, none) => ({ kernel with backend }, .inr (.get none))
  | .getInsert view => ({ kernel with memory := (kernel.memory.insert view).1 }, .inr (.get (some view)))
  | .call (.insert view) =>
    let (memory, replaced) := kernel.memory.insert view
    ({ kernel with memory }, .inr (.insert replaced))
  | .call (.remove hash) => ({ kernel with memory := (kernel.memory.remove hash).1 }, .inl (.removeBackend hash))
  | .removeBackend hash =>
    if kernel.backend.isEmpty then (kernel, .inr .remove) else (kernel, .inl (.removeNoReturn hash))
  | .removeNoReturn hash => ({ kernel with backend := kernel.backend.removeNoReturn hash }, .inr .remove)
  | .call .limitMemory =>
    match kernel.memory.frontN memoryLimit with
    | none => (kernel, .inr .limitMemory)
    | some values => (kernel, .inl (.limitInsert values))
  | .limitInsert values => ({ kernel with backend := kernel.backend.insertBatch values }, .inl (.limitRemove values))
  | .limitRemove values =>
    ({ kernel with memory := kernel.memory.removeBatch (values.map (·.hash)) }, .inr .limitMemory)

/-- A task run to its result with no other call in between, on fuel of one turn a step. -/
def runAlone (memoryLimit : Nat) : Nat → Kernel H → Task H → Option (Kernel H × Result H)
  | 0, _, _ => none
  | fuel + 1, kernel, task =>
    match task.step memoryLimit kernel with
    | (kernel, .inl next) => runAlone memoryLimit fuel kernel next
    | (kernel, .inr result) => some (kernel, result)

end Task

/-- The history of the calls: an invocation or a response, each with the call's number. -/
inductive Event (H : Type) where
  | invoke (id : Nat) (call : Call H)
  | respond (id : Nat) (result : Result H)
deriving DecidableEq, Repr

/-- The kernel with the calls in progress, numbered, and the history so far. -/
structure System (H : Type) [DecidableEq H] where
  kernel : Kernel H
  tasks : List (Nat × Task H)
  history : List (Event H)
  nextId : Nat

namespace System

variable (memoryLimit : Nat)

def initial : System H := ⟨⟨.empty, .empty⟩, [], [], 0⟩

/-- A new call starts. -/
def start (sys : System H) (call : Call H) : System H :=
  ⟨sys.kernel, sys.tasks ++ [(sys.nextId, .call call)], sys.history ++ [.invoke sys.nextId call], sys.nextId + 1⟩

/-- The call numbered `id`, between `before` and `after` in the calls in progress, takes its next
step; a finished call leaves with its response. -/
def advance (sys : System H) (before after : List (Nat × Task H)) (id : Nat) (task : Task H) : System H :=
  match task.step memoryLimit sys.kernel with
  | (kernel, .inl next) => ⟨kernel, before ++ (id, next) :: after, sys.history, sys.nextId⟩
  | (kernel, .inr result) => ⟨kernel, before ++ after, sys.history ++ [.respond id result], sys.nextId⟩

inductive Step : System H → System H → Prop
  | call (sys : System H) (call : Call H) : Step sys (sys.start call)
  | run (sys : System H) (before after : List (Nat × Task H)) (id : Nat) (task : Task H)
      (split : sys.tasks = before ++ (id, task) :: after) : Step sys (sys.advance memoryLimit before after id task)

def Reachable (sys : System H) : Prop := Relation.ReflTransGen (Step memoryLimit) initial sys

/-- A schedule entry: start a call, or run the call in progress at an index. -/
inductive Action (H : Type) where
  | call (call : Call H)
  | run (index : Nat)

def perform (sys : System H) : Action H → Option (System H)
  | .call call => some (sys.start call)
  | .run index =>
    match sys.tasks[index]? with
    | none => none
    | some (id, task) => some (sys.advance memoryLimit (sys.tasks.take index) (sys.tasks.drop (index + 1)) id task)

def performAll (sys : System H) (actions : List (Action H)) : Option (System H) :=
  actions.foldlM (perform memoryLimit) sys

end System

end Ckb.HeaderMap
