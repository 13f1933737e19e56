import Mathlib.Data.List.Induction
import Mathlib.Data.List.Infix

/-!
A Merkle mountain range kept by position in a store, seen through its library's two operations:
`push` appends the nodes a new leaf brings, at the current size and after, reading only positions
below that size; `sizeAfter n` is the size after `n` leaves. A session (`MMR::new(size, store)`)
keeps its pushes in a batch that its later pushes read and that `commit` writes back. The range
built from nothing by pushing leaves is `nodes`.
-/

structure MountainRange (D : Type) where
  /-- The nodes a push of `leaf` appends at `size`, `size + 1`, …, given a reader of positions. -/
  push : (Nat → Option D) → Nat → D → List D
  sizeAfter : Nat → Nat

namespace MountainRange

variable {D : Type} (mmr : MountainRange D)

/-- What the library is taken to do: a push reads only below the size it is given, and moves the
size from one leaf count to the next. -/
structure Lawful : Prop where
  local_push : ∀ (read read' : Nat → Option D) size leaf, (∀ position < size, read position = read' position) →
    mmr.push read size leaf = mmr.push read' size leaf
  sizeAfter_zero : mmr.sizeAfter 0 = 0
  sizeAfter_succ : ∀ read n leaf,
    mmr.sizeAfter n + (mmr.push read (mmr.sizeAfter n) leaf).length = mmr.sizeAfter (n + 1)

/-- The nodes of the range built from nothing by pushing `leaves` in order. -/
def nodes (leaves : List D) : List D :=
  leaves.foldl (fun nodes leaf => nodes ++ mmr.push (fun position => nodes[position]?) nodes.length leaf) []

/-- A session opened at size `start` over a store, with the nodes it has pushed. -/
structure Session (D : Type) where
  start : Nat
  batch : List D

namespace Session

def size (session : Session D) : Nat := session.start + session.batch.length

/-- Positions below the start are read from the store, the rest from the batch. -/
def read (stored : Nat → Option D) (session : Session D) (position : Nat) : Option D :=
  if position < session.start then stored position else session.batch[position - session.start]?

def push (stored : Nat → Option D) (session : Session D) (leaf : D) : Session D :=
  { session with batch := session.batch ++ mmr.push (session.read stored) session.size leaf }

end Session

variable {mmr}

theorem Session.start_foldl_push (stored : Nat → Option D) (leaves : List D) (session : Session D) :
    (leaves.foldl (Session.push mmr stored) session).start = session.start := by
  induction leaves generalizing session with
  | nil => rfl
  | cons leaf rest ih => exact ih _

theorem nodes_append (leaves : List D) (leaf : D) :
    mmr.nodes (leaves ++ [leaf]) =
      mmr.nodes leaves ++ mmr.push (fun position => (mmr.nodes leaves)[position]?) (mmr.nodes leaves).length leaf := by
  simp [nodes, List.foldl_append]

theorem length_nodes (lawful : mmr.Lawful) (leaves : List D) : (mmr.nodes leaves).length = mmr.sizeAfter leaves.length := by
  induction leaves using List.reverseRecOn with
  | nil => simp [nodes, lawful.sizeAfter_zero]
  | append_singleton leaves leaf ih =>
    rw [nodes_append, List.length_append, List.length_append, List.length_singleton, ← lawful.sizeAfter_succ, ih]

theorem nodes_prefix (leaves more : List D) : mmr.nodes leaves <+: mmr.nodes (leaves ++ more) := by
  induction more using List.reverseRecOn with
  | nil => simp
  | append_singleton more leaf ih =>
    rw [← List.append_assoc, nodes_append]
    exact ih.trans (List.prefix_append _ _)

/-- Pushing leaves in a session opened over the nodes of a range appends what building the longer
range from nothing appends. -/
theorem session_pushes (lawful : mmr.Lawful) (stored : Nat → Option D) (leaves : List D)
    (agree : ∀ position < (mmr.nodes leaves).length, stored position = (mmr.nodes leaves)[position]?)
    (more : List D) :
    mmr.nodes leaves ++ (more.foldl (Session.push mmr stored) ⟨(mmr.nodes leaves).length, []⟩).batch =
      mmr.nodes (leaves ++ more) := by
  induction more using List.reverseRecOn with
  | nil => simp
  | append_singleton more leaf ih =>
    rw [List.foldl_append, List.foldl_cons, List.foldl_nil, ← List.append_assoc, nodes_append, ← ih]
    set session := more.foldl (Session.push mmr stored) ⟨(mmr.nodes leaves).length, []⟩
    have start : session.start = (mmr.nodes leaves).length := Session.start_foldl_push stored more _
    -- the session reads what the longer range holds, below its size
    have reads : ∀ position < session.size,
        session.read stored position = (mmr.nodes leaves ++ session.batch)[position]? := by
      intro position below
      unfold Session.read
      split_ifs with old
      · rw [agree position (start ▸ old), List.getElem?_append_left (start ▸ old)]
      · rw [List.getElem?_append_right (by omega), start]
    have size : session.size = (mmr.nodes leaves ++ session.batch).length := by
      simp [Session.size, start]
    have pushed : mmr.push (session.read stored) session.size leaf =
        mmr.push (fun position => (mmr.nodes leaves ++ session.batch)[position]?)
          (mmr.nodes leaves ++ session.batch).length leaf := by
      rw [← size]
      exact lawful.local_push _ _ _ leaf reads
    simp only [Session.push, pushed, List.append_assoc]

end MountainRange
