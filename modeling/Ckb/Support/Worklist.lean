import Ckb.Support.FiniteMap
import Mathlib.Logic.Relation
import Mathlib.Order.Disjoint
import Mathlib.Data.Finset.Card

/-!
A worklist traversal: from a staged set, repeatedly visit the least staged element, stage its
successors that were not visited yet, and stop when nothing is staged. With enough fuel the
traversal stops by itself and visits exactly what is reachable from the start.
-/

namespace Worklist

variable {α : Type*} [LinearOrder α] (succ : α → Finset α)

/-- Stage each listed successor that has not been visited. -/
def stageAll (visited stage : Finset α) (successors : List α) : Finset α :=
  successors.foldl (fun staged next => if next ∈ visited then staged else insert next staged) stage

/-- One round: `x` leaves the stage and is visited, its unvisited successors are staged. -/
def visit (x : α) (stage visited : Finset α) : Finset α × Finset α :=
  ((stageAll visited stage (sortedElems (succ x))).erase x, insert x visited)

/-- The traversal loop, bounded by `fuel` rounds; it returns the stage and the visited set. -/
def walk : Nat → Finset α → Finset α → Finset α × Finset α
  | 0, stage, visited => (stage, visited)
  | fuel + 1, stage, visited =>
    match (sortedElems stage).head? with
    | none => (stage, visited)
    | some x => walk fuel (visit succ x stage visited).1 (visit succ x stage visited).2

/-- `y` is reachable from a member of `start` in zero or more steps. -/
def Reach (start : Finset α) (y : α) : Prop :=
  ∃ x ∈ start, Relation.ReflTransGen (fun a b => b ∈ succ a) x y

/-- What holds of the stage and the visited set between rounds. -/
structure Invariant (start stage visited : Finset α) : Prop where
  disjoint : Disjoint stage visited
  sound : ∀ y ∈ stage ∪ visited, Reach succ start y
  closed : ∀ v ∈ visited, succ v ⊆ stage ∪ visited
  covers : start ⊆ stage ∪ visited

variable {succ}

theorem stageAll_eq (visited stage : Finset α) (successors : List α) :
    stageAll visited stage successors = stage ∪ successors.toFinset.filter (· ∉ visited) := by
  induction successors generalizing stage with
  | nil => simp [stageAll]
  | cons next rest ih =>
    simp only [stageAll, List.foldl_cons] at ih ⊢
    by_cases seen : next ∈ visited
    · rw [if_pos seen, ih]
      ext y
      by_cases same : y = next
      · subst same
        simp [seen]
      · simp [same]
    · rw [if_neg seen, ih]
      ext y
      by_cases same : y = next
      · subst same
        simp [seen]
      · simp [same]

theorem mem_visit_stage {x y : α} {stage visited : Finset α} :
    y ∈ (visit succ x stage visited).1 ↔ y ≠ x ∧ (y ∈ stage ∨ (y ∈ succ x ∧ y ∉ visited)) := by
  simp [visit, stageAll_eq]

theorem mem_visit_visited {x y : α} {stage visited : Finset α} :
    y ∈ (visit succ x stage visited).2 ↔ y = x ∨ y ∈ visited := by
  simp [visit]

theorem invariant_start (start : Finset α) : Invariant succ start start ∅ where
  disjoint := Finset.disjoint_empty_right _
  sound := fun y member => ⟨y, by simpa using member, .refl⟩
  closed := fun v member => by simp at member
  covers := fun y member => by simp [member]

theorem Invariant.visit {start stage visited : Finset α} {x : α}
    (inv : Invariant succ start stage visited) (staged : x ∈ stage) :
    Invariant succ start (visit succ x stage visited).1 (visit succ x stage visited).2 := by
  have fresh : x ∉ visited := Finset.disjoint_left.mp inv.disjoint staged
  refine ⟨?_, ?_, ?_, ?_⟩
  · rw [Finset.disjoint_left]
    intro y member visitedNow
    rw [mem_visit_stage] at member
    rw [mem_visit_visited] at visitedNow
    rcases visitedNow with rfl | old
    · exact member.1 rfl
    · rcases member.2 with inStage | ⟨-, notVisited⟩
      · exact Finset.disjoint_left.mp inv.disjoint inStage old
      · exact notVisited old
  · intro y member
    simp only [Finset.mem_union, mem_visit_stage, mem_visit_visited] at member
    rcases member with ⟨-, inStage | ⟨next, -⟩⟩ | rfl | old
    · exact inv.sound y (Finset.mem_union_left _ inStage)
    · obtain ⟨root, start_mem, path⟩ := inv.sound x (Finset.mem_union_left _ staged)
      exact ⟨root, start_mem, path.tail next⟩
    · exact inv.sound y (Finset.mem_union_left _ staged)
    · exact inv.sound y (Finset.mem_union_right _ old)
  · intro v member next isNext
    rw [mem_visit_visited] at member
    simp only [Finset.mem_union, mem_visit_stage, mem_visit_visited]
    by_cases same : next = x
    · exact Or.inr (Or.inl same)
    by_cases seen : next ∈ visited
    · exact Or.inr (Or.inr seen)
    rcases member with rfl | old
    · exact Or.inl ⟨same, Or.inr ⟨isNext, seen⟩⟩
    · have before := inv.closed v old isNext
      rcases Finset.mem_union.mp before with inStage | inVisited
      · exact Or.inl ⟨same, Or.inl inStage⟩
      · exact absurd inVisited seen
  · intro y member
    have before := inv.covers member
    simp only [Finset.mem_union, mem_visit_stage, mem_visit_visited]
    rcases Finset.mem_union.mp before with inStage | inVisited
    · by_cases same : y = x
      · exact Or.inr (Or.inl same)
      · exact Or.inl ⟨same, Or.inl inStage⟩
    · exact Or.inr (Or.inr inVisited)

theorem card_visit {start stage visited : Finset α} {x : α}
    (inv : Invariant succ start stage visited) (staged : x ∈ stage) :
    (visit succ x stage visited).2.card = visited.card + 1 :=
  Finset.card_insert_of_notMem (Finset.disjoint_left.mp inv.disjoint staged)

theorem visit_within {univ stage visited : Finset α} {x : α}
    (bound : ∀ y, succ y ⊆ univ) (within : stage ∪ visited ⊆ univ) (staged : x ∈ stage) :
    (visit succ x stage visited).1 ∪ (visit succ x stage visited).2 ⊆ univ := by
  intro y member
  simp only [Finset.mem_union, mem_visit_stage, mem_visit_visited] at member
  rcases member with ⟨-, inStage | ⟨next, -⟩⟩ | rfl | old
  · exact within (Finset.mem_union_left _ inStage)
  · exact bound x next
  · exact within (Finset.mem_union_left _ staged)
  · exact within (Finset.mem_union_right _ old)

theorem head_sortedElems {stage : Finset α} {x : α} (first : (sortedElems stage).head? = some x) :
    x ∈ stage :=
  mem_sortedElems.mp (List.mem_of_head? first)

theorem Invariant.reach_iff {start visited : Finset α} (inv : Invariant succ start ∅ visited)
    (y : α) : y ∈ visited ↔ Reach succ start y := by
  constructor
  · intro member
    exact inv.sound y (by simp [member])
  · rintro ⟨x, start_mem, path⟩
    induction path with
    | refl => simpa using inv.covers start_mem
    | tail _ next ih => simpa using inv.closed _ ih next

theorem walk_spec {univ start : Finset α} (bound : ∀ y, succ y ⊆ univ) :
    ∀ (fuel : Nat) (stage visited : Finset α), Invariant succ start stage visited →
      stage ∪ visited ⊆ univ → univ.card + 1 ≤ fuel + visited.card →
      (walk succ fuel stage visited).1 = ∅ ∧
        ∀ y, y ∈ (walk succ fuel stage visited).2 ↔ Reach succ start y := by
  intro fuel
  induction fuel with
  | zero =>
    intro stage visited _ within enough
    have small : visited.card ≤ univ.card :=
      Finset.card_le_card (fun y member => within (Finset.mem_union_right _ member))
    omega
  | succ fuel ih =>
    intro stage visited inv within enough
    cases first : (sortedElems stage).head? with
    | none =>
      have empty : stage = ∅ := sortedElems_eq_nil.mp (List.head?_eq_none_iff.mp first)
      subst empty
      simp only [walk, first, true_and]
      exact inv.reach_iff
    | some x =>
      have staged := head_sortedElems first
      simp only [walk, first]
      apply ih
      · exact inv.visit staged
      · exact visit_within bound within staged
      · rw [card_visit inv staged]
        omega

theorem walk_add_of_exhausted :
    ∀ (fuel : Nat) (stage visited : Finset α), (walk succ fuel stage visited).1 = ∅ →
      ∀ extra, walk succ (fuel + extra) stage visited = walk succ fuel stage visited := by
  intro fuel
  induction fuel with
  | zero =>
    intro stage visited empty extra
    simp only [walk] at empty
    subst empty
    cases extra with
    | zero => rfl
    | succ extra => simp [walk]
  | succ fuel ih =>
    intro stage visited empty extra
    rw [Nat.add_right_comm]
    cases first : (sortedElems stage).head? with
    | none => simp only [walk, first]
    | some x =>
      simp only [walk, first] at empty ⊢
      exact ih _ _ empty extra

variable (succ) in
/-- Everything reachable from `start`, computed with one round per element of `univ` and one more. -/
def closure (univ start : Finset α) : Finset α :=
  (walk succ (univ.card + 1) start ∅).2

theorem walk_exhausts {univ start : Finset α} (bound : ∀ y, succ y ⊆ univ) (within : start ⊆ univ) :
    (walk succ (univ.card + 1) start ∅).1 = ∅ :=
  (walk_spec bound _ start ∅ (invariant_start start) (by simpa using within) (by simp)).1

theorem mem_closure {univ start : Finset α} (bound : ∀ y, succ y ⊆ univ) (within : start ⊆ univ)
    (y : α) : y ∈ closure succ univ start ↔ Reach succ start y :=
  (walk_spec bound _ start ∅ (invariant_start start) (by simpa using within) (by simp)).2 y

end Worklist
