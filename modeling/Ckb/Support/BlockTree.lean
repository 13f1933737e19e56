import Mathlib

/-!
Blocks that name themselves and their parent by hash and carry a height, seen through the list of
those a node has received. The chain of a block runs from the root to it along parent hashes; the
weight of a block sums a per-block weight along its chain; the heaviest block of a list is the
first one received of maximal weight.
-/

class Linked (B : Type) (H : outParam Type) where
  hash : B → H
  parentHash : B → H
  number : B → Nat

namespace Linked

variable {B H : Type} [Linked B H] [DecidableEq H]

def lookup (blocks : List B) (h : H) : Option B := blocks.find? (hash · = h)

/-- The blocks from the root to `block`, following parent hashes through `blocks` for at most
`fuel` steps. -/
def ancestry (blocks : List B) : Nat → B → List B
  | 0, block => [block]
  | fuel + 1, block =>
    match lookup blocks (parentHash block) with
    | some parent => ancestry blocks fuel parent ++ [block]
    | none => [block]

def chain (blocks : List B) (block : B) : List B := ancestry blocks (number block) block

def weight (w : B → Nat) (blocks : List B) (block : B) : Nat := ((chain blocks block).map w).sum

/-- A list of blocks with one root, each other block one above a parent in the list, and no two
blocks with the same hash. -/
structure WellLinked (blocks : List B) : Prop where
  hash_injective : ∀ a ∈ blocks, ∀ b ∈ blocks, hash a = hash b → a = b
  parent : ∀ b ∈ blocks, number b ≠ 0 → ∃ p ∈ blocks, hash p = parentHash b ∧ number b = number p + 1
  root : ∀ a ∈ blocks, ∀ b ∈ blocks, number a = 0 → number b = 0 → a = b

theorem lookup_eq_some {blocks : List B} {h : H} {b : B} (found : lookup blocks h = some b) :
    b ∈ blocks ∧ hash b = h :=
  ⟨List.mem_of_find?_eq_some found, by simpa using List.find?_some found⟩

theorem chain_root (blocks : List B) {b : B} (zero : number b = 0) : chain blocks b = [b] := by
  rw [chain, zero, ancestry]

namespace WellLinked

variable {blocks : List B} (linked : WellLinked blocks)
include linked

theorem lookup_hash {b : B} (mem : b ∈ blocks) : lookup blocks (hash b) = some b := by
  obtain ⟨found, foundEq⟩ : ∃ found, lookup blocks (hash b) = some found :=
    Option.isSome_iff_exists.mp (List.find?_isSome.mpr ⟨b, mem, by simp⟩)
  obtain ⟨foundMem, sameHash⟩ := lookup_eq_some foundEq
  rw [foundEq, linked.hash_injective _ foundMem _ mem sameHash]

theorem chain_parent {b p : B} (mem : p ∈ blocks) (linkedTo : hash p = parentHash b)
    (above : number b = number p + 1) : chain blocks b = chain blocks p ++ [b] := by
  rw [chain, above, ancestry, ← linkedTo, linked.lookup_hash mem]
  rfl

omit [DecidableEq H] in
theorem induction {motive : B → Prop} (root : ∀ b ∈ blocks, number b = 0 → motive b)
    (step : ∀ b ∈ blocks, ∀ p ∈ blocks, hash p = parentHash b → number b = number p + 1 → motive p → motive b) :
    ∀ b ∈ blocks, motive b := by
  suffices all : ∀ n, ∀ b ∈ blocks, number b = n → motive b from fun b mem => all _ b mem rfl
  intro n
  induction n with
  | zero => exact root
  | succ n ih =>
    intro b mem above
    obtain ⟨p, pMem, linkedTo, pAbove⟩ := linked.parent b mem (by omega)
    exact step b mem p pMem linkedTo pAbove (ih p pMem (by omega))

theorem mem_chain {b : B} (mem : b ∈ blocks) : ∀ a ∈ chain blocks b, a ∈ blocks := by
  refine linked.induction (motive := fun b => ∀ a ∈ chain blocks b, a ∈ blocks)
    (fun b mem zero => ?_) (fun b mem p pMem linkedTo above ih => ?_) b mem
  · simpa [chain_root blocks zero] using mem
  · rw [linked.chain_parent pMem linkedTo above]
    intro a member
    rcases List.mem_append.mp member with old | new
    · exact ih a old
    · rw [List.mem_singleton.mp new]
      exact mem

theorem length_chain {b : B} (mem : b ∈ blocks) : (chain blocks b).length = number b + 1 := by
  refine linked.induction (motive := fun b => (chain blocks b).length = number b + 1)
    (fun b mem zero => ?_) (fun b mem p pMem linkedTo above ih => ?_) b mem
  · simp [chain_root blocks zero, zero]
  · rw [linked.chain_parent pMem linkedTo above, List.length_append, ih, above, List.length_singleton]

theorem getLast_chain {b : B} (mem : b ∈ blocks) : (chain blocks b).getLast? = some b := by
  refine linked.induction (motive := fun b => (chain blocks b).getLast? = some b)
    (fun b mem zero => ?_) (fun b mem p pMem linkedTo above ih => ?_) b mem
  · simp [chain_root blocks zero]
  · simp [linked.chain_parent pMem linkedTo above]

theorem chain_getElem {b : B} (mem : b ∈ blocks) (i : Nat) (lt : i < (chain blocks b).length) :
    chain blocks (chain blocks b)[i] = (chain blocks b).take (i + 1) ∧ number (chain blocks b)[i] = i := by
  revert lt
  refine linked.induction (motive := fun b => ∀ lt : i < (chain blocks b).length,
      chain blocks (chain blocks b)[i] = (chain blocks b).take (i + 1) ∧ number (chain blocks b)[i] = i)
    (fun b mem zero => ?_) (fun b mem p pMem linkedTo above ih => ?_) b mem
  · intro lt
    simp only [chain_root blocks zero, List.length_singleton, Nat.lt_one_iff] at lt ⊢
    subst lt
    simp [chain_root blocks zero, zero]
  · intro lt
    have parentLength := linked.length_chain pMem
    simp only [linked.chain_parent pMem linkedTo above, List.length_append, List.length_singleton] at lt ⊢
    rcases Nat.lt_succ_iff_lt_or_eq.mp lt with below | top
    · rw [List.getElem_append_left below, List.take_append_of_le_length (by omega)]
      exact ih below
    · subst top
      simp only [List.getElem_append_right (Nat.le_refl _), Nat.sub_self, List.getElem_singleton,
        List.take_of_length_le (by simp : (chain blocks p ++ [b]).length ≤ (chain blocks p).length + 1)]
      exact ⟨linked.chain_parent pMem linkedTo above, by omega⟩

theorem take_chain_eq {a b : B} (aMem : a ∈ blocks) (bMem : b ∈ blocks) {i : Nat}
    (aLt : i < (chain blocks a).length) (bLt : i < (chain blocks b).length)
    (meet : (chain blocks a)[i] = (chain blocks b)[i]) :
    (chain blocks a).take (i + 1) = (chain blocks b).take (i + 1) := by
  rw [← (linked.chain_getElem aMem i aLt).1, ← (linked.chain_getElem bMem i bLt).1, meet]

theorem head_chain_eq {a b : B} (aMem : a ∈ blocks) (bMem : b ∈ blocks) :
    (chain blocks a)[0]? = (chain blocks b)[0]? := by
  have aLt : 0 < (chain blocks a).length := by rw [linked.length_chain aMem]; omega
  have bLt : 0 < (chain blocks b).length := by rw [linked.length_chain bMem]; omega
  rw [List.getElem?_eq_getElem aLt, List.getElem?_eq_getElem bLt]
  exact congrArg some (linked.root _ (linked.mem_chain aMem _ (List.getElem_mem aLt)) _
    (linked.mem_chain bMem _ (List.getElem_mem bLt)) (linked.chain_getElem aMem 0 aLt).2 (linked.chain_getElem bMem 0 bLt).2)

theorem parentHash_getElem_chain {b : B} (mem : b ∈ blocks) (j : Nat) (lt : j + 1 < (chain blocks b).length) :
    parentHash (chain blocks b)[j + 1] = hash (chain blocks b)[j] := by
  have upperMem := linked.mem_chain mem _ (List.getElem_mem lt)
  obtain ⟨upperChain, upperNumber⟩ := linked.chain_getElem mem (j + 1) lt
  obtain ⟨p, pMem, linkedTo, above⟩ := linked.parent _ upperMem (by omega)
  have split := linked.chain_parent pMem linkedTo above
  rw [upperChain] at split
  have pLength : (chain blocks p).length = j + 1 := by rw [linked.length_chain pMem]; omega
  have atParent : (chain blocks p)[j]? = some p := by
    rw [← linked.getLast_chain pMem, List.getLast?_eq_getElem?, pLength, Nat.add_sub_cancel]
  have lower : (chain blocks b)[j]? = some p := by
    rw [← List.getElem?_take_of_lt (show j < j + 1 + 1 by omega), split,
      List.getElem?_append_left (by omega), atParent]
  rw [List.getElem?_eq_getElem (by omega)] at lower
  rw [Option.some.inj lower, linkedTo]

theorem chain_of_sublist {blocks' : List B} (linked' : WellLinked blocks') (sub : ∀ a ∈ blocks, a ∈ blocks') :
    ∀ b ∈ blocks, chain blocks' b = chain blocks b := by
  refine linked.induction (fun b mem zero => ?_) (fun b mem p pMem linkedTo above ih => ?_)
  · rw [chain_root blocks zero, chain_root blocks' zero]
  · rw [linked.chain_parent pMem linkedTo above, linked'.chain_parent (sub p pMem) linkedTo above, ih]

theorem map_number_chain {b : B} (mem : b ∈ blocks) : (chain blocks b).map number = List.range (number b + 1) := by
  apply List.ext_getElem (by rw [List.length_map, linked.length_chain mem, List.length_range])
  intro i inMap inRange
  rw [List.getElem_map, List.getElem_range]
  exact (linked.chain_getElem mem i (by simpa using inMap)).2

theorem getElem?_number_chain {a b : B} (mem : b ∈ blocks) (inChain : a ∈ chain blocks b) :
    (chain blocks b)[number a]? = some a := by
  obtain ⟨i, found⟩ := List.mem_iff_getElem?.mp inChain
  obtain ⟨lt, same⟩ := List.getElem?_eq_some_iff.mp found
  have numbered := (linked.chain_getElem mem i lt).2
  rw [same] at numbered
  rwa [numbered]

theorem getElem?_chain_of_le {b : B} (mem : b ∈ blocks) {n : Nat} (le : n ≤ number b) :
    ∃ x, (chain blocks b)[n]? = some x ∧ number x = n := by
  have lt : n < (chain blocks b).length := by
    rw [linked.length_chain mem]
    omega
  exact ⟨_, List.getElem?_eq_getElem lt, (linked.chain_getElem mem n lt).2⟩

theorem number_of_getElem?_chain {b x : B} (mem : b ∈ blocks) {i : Nat} (found : (chain blocks b)[i]? = some x) :
    number x = i := by
  obtain ⟨lt, same⟩ := List.getElem?_eq_some_iff.mp found
  have numbered := (linked.chain_getElem mem i lt).2
  rwa [same] at numbered

theorem chain_of_mem_chain {a b : B} (mem : b ∈ blocks) (inChain : a ∈ chain blocks b) :
    chain blocks a = (chain blocks b).take (number a + 1) := by
  have found := linked.getElem?_number_chain mem inChain
  obtain ⟨lt, same⟩ := List.getElem?_eq_some_iff.mp found
  have upTo := (linked.chain_getElem mem (number a) lt).1
  rwa [same] at upTo

theorem mem_chain_of_mem_chain {a b c : B} (mem : c ∈ blocks) (inChain : b ∈ chain blocks c)
    (below : a ∈ chain blocks b) : a ∈ chain blocks c := by
  rw [linked.chain_of_mem_chain mem inChain] at below
  exact List.mem_of_mem_take below

theorem chain_of_getElem? {b x : B} (mem : b ∈ blocks) {i : Nat} (found : (chain blocks b)[i]? = some x) :
    chain blocks x = (chain blocks b).take (i + 1) := by
  obtain ⟨lt, same⟩ := List.getElem?_eq_some_iff.mp found
  have upTo := (linked.chain_getElem mem i lt).1
  rwa [same] at upTo

theorem mem_map_number_drop_chain {b : B} (mem : b ∈ blocks) (j n : Nat) :
    n ∈ ((chain blocks b).drop j).map number ↔ j ≤ n ∧ n ≤ number b := by
  rw [List.map_drop, linked.map_number_chain mem]
  simp only [List.mem_drop_iff_getElem, List.getElem_range, List.length_range]
  constructor
  · intro found
    obtain ⟨i, bound, same⟩ := found
    omega
  · intro bounds
    exact ⟨n - j, by omega, by omega⟩

theorem nodup_map_hash_chain {b : B} (mem : b ∈ blocks) : ((chain blocks b).map hash).Nodup := by
  have numbers : ((chain blocks b).map number).Nodup := by
    rw [linked.map_number_chain mem]
    exact List.nodup_range
  exact List.Nodup.map_on (fun x xMem y yMem same =>
    linked.hash_injective x (linked.mem_chain mem x xMem) y (linked.mem_chain mem y yMem) same)
    (List.Nodup.of_map number numbers)

omit [DecidableEq H] in
theorem append {b p : B} (mem : p ∈ blocks) (linkedTo : hash p = parentHash b) (above : number b = number p + 1)
    (fresh : ∀ a ∈ blocks, hash a = hash b → a = b) : WellLinked (blocks ++ [b]) := by
  have cases : ∀ a ∈ blocks ++ [b], a ∈ blocks ∨ a = b := fun a member => by simpa using member
  refine ⟨fun x xMem y yMem same => ?_, fun x xMem nonzero => ?_, fun x xMem y yMem xZero yZero => ?_⟩
  · rcases cases x xMem with x' | rfl <;> rcases cases y yMem with y' | rfl
    · exact linked.hash_injective x x' y y' same
    · exact fresh x x' same
    · exact (fresh y y' same.symm).symm
    · rfl
  · rcases cases x xMem with x' | rfl
    · obtain ⟨q, qMem, qLinked, qAbove⟩ := linked.parent x x' nonzero
      exact ⟨q, List.mem_append_left _ qMem, qLinked, qAbove⟩
    · exact ⟨p, List.mem_append_left _ mem, linkedTo, above⟩
  · rcases cases x xMem with x' | rfl <;> rcases cases y yMem with y' | rfl
    · exact linked.root x x' y y' xZero yZero
    all_goals omega

end WellLinked

section Heaviest

variable [DecidableEq B] (w : B → Nat)

/-- `tip` is the first block of `blocks` of maximal weight. -/
def EarliestHeaviest (blocks : List B) (tip : B) : Prop :=
  tip ∈ blocks ∧ ∀ b ∈ blocks, w b ≤ w tip ∧ (w b = w tip → blocks.idxOf tip ≤ blocks.idxOf b)

variable {w}

theorem idxOf_append_of_mem {blocks : List B} {a : B} (mem : a ∈ blocks) (b : B) :
    (blocks ++ [b]).idxOf a = blocks.idxOf a := by
  simp [List.idxOf_append, mem]

namespace EarliestHeaviest

variable {blocks : List B} {tip : B} (best : EarliestHeaviest w blocks tip)
include best

theorem congr {w' : B → Nat} (same : ∀ b ∈ blocks, w b = w' b) : EarliestHeaviest w' blocks tip :=
  ⟨best.1, fun b mem => by rw [← same b mem, ← same tip best.1]; exact best.2 b mem⟩

theorem append_of_le {b : B} (lighter : w b ≤ w tip) : EarliestHeaviest w (blocks ++ [b]) tip := by
  refine ⟨List.mem_append_left _ best.1, fun a mem => ?_⟩
  rw [idxOf_append_of_mem best.1]
  rcases List.mem_append.mp mem with old | new
  · rw [idxOf_append_of_mem old]
    exact best.2 a old
  · rw [List.mem_singleton.mp new]
    refine ⟨lighter, fun equal => ?_⟩
    by_cases seen : b ∈ blocks
    · rw [idxOf_append_of_mem seen]
      exact (best.2 b seen).2 equal
    · rw [List.idxOf_append_of_notMem seen, List.idxOf_cons_self]
      exact (List.idxOf_lt_length_of_mem best.1).le.trans (Nat.le_add_right _ _)

theorem append_of_lt {b : B} (heavier : w tip < w b) : EarliestHeaviest w (blocks ++ [b]) b := by
  refine ⟨List.mem_append_right _ (List.mem_singleton_self b), fun a mem => ?_⟩
  rcases List.mem_append.mp mem with old | new
  · have := (best.2 a old).1
    exact ⟨by omega, fun equal => by omega⟩
  · rw [List.mem_singleton.mp new]
    exact ⟨le_refl _, fun _ => le_refl _⟩

end EarliestHeaviest

end Heaviest

end Linked
