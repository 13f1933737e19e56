import Ckb.Chain.OrphanBlockPool
import Ckb.Support.Forest

namespace Ckb.Chain

namespace InnerPool

open Forest

variable {H : Type} [LinearOrder H]

/-- `c` is filed in the group of `p`. -/
def ChildOf (pool : InnerPool H) (c p : H) : Prop := c ∈ (pool.blocks.lookup p).getD ∅

/-- `b` is filed under its hash in the group of its parent. -/
def Filed (pool : InnerPool H) (b : LonelyBlockHash H) : Prop :=
  ((pool.blocks.lookup b.parentHash).getD ∅).lookup b.hash = some b

/-- The subtree below `root` as `get_block` shows the pool. -/
abbrev Descends (pool : InnerPool H) (h root : H) : Prop :=
  Forest.Descends LonelyBlockHash.parentHash pool.getBlock h root

variable (parentOf : H → H)

/-- What the three indexes keep between calls. -/
structure Consistent (pool : InnerPool H) : Prop where
  /-- A block is filed under its hash in the group of its parent, the parent its hash commits to. -/
  filed : ∀ p children h b, pool.blocks.lookup p = some children → children.lookup h = some b →
    b.hash = h ∧ b.parentHash = p ∧ p = parentOf h
  /-- "The block is in the orphan pool if and only if the block hash exists as a key in this map." -/
  parents : ∀ h p, pool.parents.lookup h = some p ↔ pool.ChildOf h p
  nonempty : ∀ p children, pool.blocks.lookup p = some children → children ≠ ∅
  /-- "Leaders are blocks not in the orphan pool but having at least a child in the pool." -/
  leaders : ∀ p, p ∈ pool.leaders ↔ p ∉ pool.parents ∧ ∃ c, pool.ChildOf c p

variable {parentOf} {pool : InnerPool H} {b : LonelyBlockHash H} {c h p q root : H}

theorem childOf_iff : pool.ChildOf c p ↔ ∃ children, pool.blocks.lookup p = some children ∧ c ∈ children := by
  unfold ChildOf
  cases pool.blocks.lookup p <;> simp [Finmap.notMem_empty]

theorem filed_iff : pool.Filed b ↔
    ∃ children, pool.blocks.lookup b.parentHash = some children ∧ children.lookup b.hash = some b := by
  unfold Filed
  cases pool.blocks.lookup b.parentHash <;> simp

theorem isSome_of_childOf (child : pool.ChildOf c p) : (pool.blocks.lookup p).isSome := by
  obtain ⟨children, found, -⟩ := childOf_iff.mp child
  simp [found]

theorem isSome_of_filed (filed : pool.Filed b) : (pool.blocks.lookup b.parentHash).isSome := by
  obtain ⟨children, found, -⟩ := filed_iff.mp filed
  simp [found]

theorem childOf_of_filed (filed : pool.Filed b) : pool.ChildOf b.hash b.parentHash := by
  obtain ⟨children, found, member⟩ := filed_iff.mp filed
  exact childOf_iff.mpr ⟨children, found, Finmap.mem_of_lookup_eq_some member⟩

theorem Consistent.parent_eq (consistent : Consistent parentOf pool) (child : pool.ChildOf c p) :
    p = parentOf c := by
  obtain ⟨children, found, member⟩ := childOf_iff.mp child
  obtain ⟨b, filed⟩ := Finmap.mem_iff.mp member
  exact (consistent.filed p children c b found filed).2.2

theorem Consistent.childOf_unique (consistent : Consistent parentOf pool) (first : pool.ChildOf c p)
    (second : pool.ChildOf c q) : p = q :=
  (consistent.parent_eq first).trans (consistent.parent_eq second).symm

theorem Consistent.filed_of_childOf (consistent : Consistent parentOf pool) (child : pool.ChildOf c p) :
    ∃ b, pool.Filed b ∧ b.hash = c ∧ b.parentHash = p := by
  obtain ⟨children, found, member⟩ := childOf_iff.mp child
  obtain ⟨b, stored⟩ := Finmap.mem_iff.mp member
  obtain ⟨hash, parentHash, -⟩ := consistent.filed p children c b found stored
  refine ⟨b, filed_iff.mpr ⟨children, ?_, ?_⟩, hash, parentHash⟩
  · rw [parentHash, found]
  · rw [hash, stored]

theorem Consistent.getBlock_eq_some (consistent : Consistent parentOf pool) :
    pool.getBlock h = some b ↔ b.hash = h ∧ pool.Filed b := by
  simp only [getBlock, Option.bind_eq_some_iff]
  constructor
  · rintro ⟨p, -, children, found, stored⟩
    obtain ⟨hash, parentHash, -⟩ := consistent.filed p children h b found stored
    subst hash
    exact ⟨rfl, filed_iff.mpr ⟨children, parentHash ▸ found, stored⟩⟩
  · rintro ⟨rfl, filed⟩
    obtain ⟨children, found, stored⟩ := filed_iff.mp filed
    exact ⟨b.parentHash, (consistent.parents _ _).mpr (childOf_of_filed filed), children, found, stored⟩

theorem Consistent.childOf_iff_edge (consistent : Consistent parentOf pool) :
    pool.ChildOf c p ↔ Edge LonelyBlockHash.parentHash pool.getBlock c p := by
  constructor
  · intro child
    obtain ⟨b, filed, hash, parentHash⟩ := consistent.filed_of_childOf child
    exact ⟨b, consistent.getBlock_eq_some.mpr ⟨hash, filed⟩, parentHash⟩
  · rintro ⟨b, found, rfl⟩
    obtain ⟨rfl, filed⟩ := consistent.getBlock_eq_some.mp found
    exact childOf_of_filed filed

theorem Consistent.childOf_eq (consistent : Consistent parentOf pool) :
    pool.ChildOf = Edge LonelyBlockHash.parentHash pool.getBlock := by
  funext c p
  exact propext consistent.childOf_iff_edge

theorem Consistent.descends_iff (consistent : Consistent parentOf pool) (found : pool.getBlock h = some b) :
    pool.Descends h root ↔ Relation.ReflTransGen pool.ChildOf b.parentHash root := by
  obtain ⟨rfl, filed⟩ := consistent.getBlock_eq_some.mp found
  change Relation.TransGen (Edge _ pool.getBlock) b.hash root ↔ _
  rw [← consistent.childOf_eq, Relation.TransGen.head'_iff]
  constructor
  · rintro ⟨p, child, reaches⟩
    rwa [consistent.childOf_unique (childOf_of_filed filed) child]
  · intro reaches
    exact ⟨b.parentHash, childOf_of_filed filed, reaches⟩

theorem Consistent.mem_parents_iff (consistent : Consistent parentOf pool) :
    h ∈ pool.parents ↔ (pool.getBlock h).isSome := by
  rw [Finmap.mem_iff, Option.isSome_iff_exists]
  constructor
  · rintro ⟨p, found⟩
    obtain ⟨b, filed, hash, -⟩ := consistent.filed_of_childOf ((consistent.parents h p).mp found)
    exact ⟨b, consistent.getBlock_eq_some.mpr ⟨hash, filed⟩⟩
  · rintro ⟨b, found⟩
    obtain ⟨rfl, filed⟩ := consistent.getBlock_eq_some.mp found
    exact ⟨b.parentHash, (consistent.parents _ _).mpr (childOf_of_filed filed)⟩

theorem Consistent.getBlock_eq_none (consistent : Consistent parentOf pool) :
    pool.getBlock h = none ↔ h ∉ pool.parents := by
  rw [consistent.mem_parents_iff, Option.not_isSome_iff_eq_none]

theorem Consistent.mem_leaders_iff (consistent : Consistent parentOf pool) :
    p ∈ pool.leaders ↔ Leader LonelyBlockHash.parentHash pool.getBlock p := by
  rw [consistent.leaders, Leader, consistent.getBlock_eq_none, consistent.childOf_eq]

theorem consistent_empty : Consistent parentOf (empty : InnerPool H) where
  filed := by simp [empty]
  parents := by simp [empty, ChildOf, Finmap.notMem_empty]
  nonempty := by simp [empty]
  leaders := by simp [empty, ChildOf, Finmap.notMem_empty]

/-! `insert` -/

@[simp] theorem parents_insert (pool : InnerPool H) (b : LonelyBlockHash H) :
    (pool.insert b).parents = pool.parents.insert b.hash b.parentHash := rfl

@[simp] theorem leaders_insert (pool : InnerPool H) (b : LonelyBlockHash H) :
    (pool.insert b).leaders = if b.parentHash ∈ pool.parents then pool.leaders.erase b.hash
      else Insert.insert b.parentHash (pool.leaders.erase b.hash) := rfl

theorem lookup_blocks_insert (pool : InnerPool H) (b : LonelyBlockHash H) (p : H) :
    (pool.insert b).blocks.lookup p =
      if p = b.parentHash then some (((pool.blocks.lookup b.parentHash).getD ∅).insert b.hash b)
      else pool.blocks.lookup p := by
  by_cases same : p = b.parentHash
  · subst same
    simp [InnerPool.insert]
  · simp [InnerPool.insert, same, Finmap.lookup_insert_of_ne _ same]

theorem childOf_insert : (pool.insert b).ChildOf c p ↔ pool.ChildOf c p ∨ c = b.hash ∧ p = b.parentHash := by
  unfold ChildOf
  rw [lookup_blocks_insert]
  by_cases same : p = b.parentHash
  · subst same
    simp [Finmap.mem_insert, or_comm]
  · simp [same]

theorem getBlock_insert (pool : InnerPool H) (b : LonelyBlockHash H) :
    (pool.insert b).getBlock = Function.update pool.getBlock b.hash (some b) := by
  funext h
  by_cases same : h = b.hash
  · subst same
    simp [getBlock, InnerPool.insert]
  · rw [Function.update_of_ne same]
    simp only [getBlock, parents_insert, Finmap.lookup_insert_of_ne _ same]
    cases pool.parents.lookup h with
    | none => rfl
    | some q =>
      simp only [Option.bind_some, lookup_blocks_insert]
      by_cases group : q = b.parentHash
      · subst group
        cases pool.blocks.lookup b.parentHash <;> simp [Finmap.lookup_insert_of_ne _ same]
      · simp [group]

theorem Consistent.insert (consistent : Consistent parentOf pool) (linked : b.parentHash = parentOf b.hash)
    (notOwnParent : b.parentHash ≠ b.hash) : Consistent parentOf (pool.insert b) where
  filed := by
    intro p children h b' found stored
    rw [lookup_blocks_insert] at found
    split_ifs at found with same
    · subst same
      cases found
      by_cases new : h = b.hash
      · subst new
        simp only [Finmap.lookup_insert, Option.some_inj] at stored
        subst stored
        exact ⟨rfl, rfl, linked⟩
      · rw [Finmap.lookup_insert_of_ne _ new] at stored
        cases group : pool.blocks.lookup b.parentHash with
        | none => simp [group] at stored
        | some old =>
          rw [group, Option.getD_some] at stored
          exact consistent.filed _ old h b' group stored
    · exact consistent.filed p children h b' found stored
  parents := by
    intro h p
    rw [childOf_insert]
    by_cases new : h = b.hash
    · subst new
      -- a block inserted again was filed under the same parent
      have again : pool.ChildOf b.hash p → p = b.parentHash := fun child =>
        (consistent.parent_eq child).trans linked.symm
      simp only [parents_insert, Finmap.lookup_insert, Option.some_inj, true_and]
      constructor
      · rintro rfl
        exact Or.inr rfl
      · rintro (child | rfl)
        · exact (again child).symm
        · rfl
    · simp only [parents_insert, Finmap.lookup_insert_of_ne _ new, new, false_and, or_false]
      exact consistent.parents h p
  nonempty := by
    intro p children found
    rw [lookup_blocks_insert] at found
    split_ifs at found with same
    · cases found
      intro empty
      have member : b.hash ∈ ((pool.blocks.lookup b.parentHash).getD ∅).insert b.hash b :=
        Finmap.mem_insert.mpr (Or.inl rfl)
      rw [empty] at member
      exact Finmap.notMem_empty member
    · exact consistent.nonempty p children found
  leaders := by
    intro x
    have children : (∃ c, (pool.insert b).ChildOf c x) ↔ (∃ c, pool.ChildOf c x) ∨ x = b.parentHash := by
      simp only [childOf_insert]
      constructor
      · rintro ⟨c, child | ⟨-, rfl⟩⟩
        · exact Or.inl ⟨c, child⟩
        · exact Or.inr rfl
      · rintro (⟨c, child⟩ | rfl)
        · exact ⟨c, Or.inl child⟩
        · exact ⟨b.hash, Or.inr ⟨rfl, rfl⟩⟩
    rw [children, parents_insert, Finmap.mem_insert, leaders_insert]
    -- the inserted block, its parent, and every other hash
    by_cases new : x = b.hash
    · subst new
      split_ifs <;> simp [Ne.symm notOwnParent]
    · by_cases parent : x = b.parentHash
      · subst parent
        by_cases known : b.parentHash ∈ pool.parents
        · simp [known, consistent.leaders]
        · simp [known, new]
      · split_ifs <;> simp [new, parent, consistent.leaders]

/-! The loop of `remove_blocks_by_parent` -/

theorem childOf_iff_of_sub {start : InnerPool H}
    (sub : pool.blocks.lookup p = none ∨ pool.blocks.lookup p = start.blocks.lookup p) :
    pool.ChildOf c p ↔ start.ChildOf c p ∧ (pool.blocks.lookup p).isSome := by
  unfold ChildOf
  rcases sub with gone | same
  · simp [gone, Finmap.notMem_empty]
  · rw [same]
    cases start.blocks.lookup p <;> simp [Finmap.notMem_empty]

/-- What the loop of `remove_blocks_by_parent` keeps, against the pool `start` it started from,
whose leader is `root`. -/
structure LoopInvariant (start : InnerPool H) (root : H) (queue : List H) (pool : InnerPool H)
    (removed : List (LonelyBlockHash H)) : Prop where
  /-- Groups are only taken out, -/
  blocks_sub : ∀ p, pool.blocks.lookup p = none ∨ pool.blocks.lookup p = start.blocks.lookup p
  /-- and only in the subtree. -/
  blocks_outside : ∀ p, ¬ Relation.ReflTransGen start.ChildOf p root → pool.blocks.lookup p = start.blocks.lookup p
  /-- A block leaves `parents` with its group. -/
  parents : ∀ h p, pool.parents.lookup h = some p ↔ start.parents.lookup h = some p ∧ (pool.blocks.lookup p).isSome
  /-- The removed blocks are those of the groups taken out, -/
  taken : ∀ b, b ∈ removed ↔ start.Filed b ∧ pool.blocks.lookup b.parentHash = none
  /-- each once. -/
  nodup : removed.Nodup
  queued : ∀ q ∈ queue, Relation.ReflTransGen start.ChildOf q root
  /-- A group of the subtree still in the pool is queued, or its own block is still filed. -/
  frontier : ∀ x, Relation.ReflTransGen start.ChildOf x root → (pool.blocks.lookup x).isSome →
    x ∈ queue ∨ ∃ p, pool.ChildOf x p
  leaders : pool.leaders = start.leaders.erase root

variable {start : InnerPool H} {queue : List H} {removed : List (LonelyBlockHash H)}

theorem loopInvariant_start (consistent : Consistent parentOf start) :
    LoopInvariant start root [root] { start with leaders := start.leaders.erase root } [] where
  blocks_sub _ := Or.inr rfl
  blocks_outside _ _ := rfl
  parents h p := by
    constructor
    · intro found
      exact ⟨found, isSome_of_childOf ((consistent.parents h p).mp found)⟩
    · exact fun both => both.1
  taken b := by
    have stored : start.Filed b → (start.blocks.lookup b.parentHash).isSome := isSome_of_filed
    simp only [List.not_mem_nil, false_iff, not_and]
    intro filed gone
    simp [gone] at stored
    exact stored filed
  nodup := List.nodup_nil
  queued q member := by
    rw [List.mem_singleton.mp member]
  frontier x below _ := by
    rcases below.cases_head with rfl | ⟨p, child, -⟩
    · exact Or.inl (List.mem_singleton_self x)
    · exact Or.inr ⟨p, child⟩
  leaders := rfl

theorem LoopInvariant.skip {y : H} (inv : LoopInvariant start root (y :: queue) pool removed)
    (absent : pool.blocks.lookup y = none) : LoopInvariant start root queue pool removed where
  blocks_sub := inv.blocks_sub
  blocks_outside := inv.blocks_outside
  parents := inv.parents
  taken := inv.taken
  nodup := inv.nodup
  queued q member := inv.queued q (List.mem_cons_of_mem y member)
  frontier x below present := by
    rcases inv.frontier x below present with member | filed
    · rcases List.mem_cons.mp member with rfl | member
      · simp [absent] at present
      · exact Or.inl member
    · exact Or.inr filed
  leaders := inv.leaders

theorem mem_filterMap_group (consistent : Consistent parentOf start) {y : H} {orphaned : FiniteMap H (LonelyBlockHash H)}
    (found : start.blocks.lookup y = some orphaned) :
    b ∈ (sortedElems orphaned.keys).filterMap orphaned.lookup ↔ start.Filed b ∧ b.parentHash = y := by
  rw [List.mem_filterMap]
  constructor
  · rintro ⟨h, -, stored⟩
    obtain ⟨rfl, parentHash, -⟩ := consistent.filed y orphaned h b found stored
    exact ⟨filed_iff.mpr ⟨orphaned, parentHash ▸ found, stored⟩, parentHash⟩
  · rintro ⟨filed, rfl⟩
    obtain ⟨children, found', stored⟩ := filed_iff.mp filed
    rw [found] at found'
    cases found'
    exact ⟨b.hash, mem_sortedElems.mpr (Finmap.mem_keys.mpr (Finmap.mem_of_lookup_eq_some stored)), stored⟩

/-- A popped hash with a group: the group is taken out, its hashes leave `parents` and join the
queue, and its blocks are removed. -/
theorem LoopInvariant.take (consistent : Consistent parentOf start) {y : H} {orphaned : FiniteMap H (LonelyBlockHash H)}
    (inv : LoopInvariant start root (y :: queue) pool removed) (found : pool.blocks.lookup y = some orphaned) :
    LoopInvariant start root (queue ++ sortedElems orphaned.keys)
      { pool with
        blocks := pool.blocks.erase y
        parents := (sortedElems orphaned.keys).foldl (fun parents hash => parents.erase hash) pool.parents }
      (removed ++ (sortedElems orphaned.keys).filterMap orphaned.lookup) := by
  have startFound : start.blocks.lookup y = some orphaned := by
    rcases inv.blocks_sub y with gone | same
    · simp [gone] at found
    · rwa [← same]
  have inSubtree := inv.queued y List.mem_cons_self
  have children : ∀ h, h ∈ orphaned ↔ start.ChildOf h y := fun h => by
    rw [childOf_iff]
    simp [startFound]
  have lookupErase : ∀ p, (pool.blocks.erase y).lookup p = if p = y then none else pool.blocks.lookup p := by
    intro p
    by_cases same : p = y
    · subst same
      simp
    · simp [same, Finmap.lookup_erase_ne same]
  refine ⟨?_, ?_, ?_, ?_, ?_, ?_, ?_, inv.leaders⟩
  · -- blocks_sub
    intro p
    rw [lookupErase]
    split_ifs
    · exact Or.inl rfl
    · exact inv.blocks_sub p
  · -- blocks_outside
    intro p outside
    have other : p ≠ y := fun same => outside (same ▸ inSubtree)
    rw [lookupErase, if_neg other]
    exact inv.blocks_outside p outside
  · -- parents
    intro h p
    simp only [FiniteMap.lookup_foldl_erase, mem_sortedElems, Finmap.mem_keys, lookupErase]
    by_cases member : h ∈ orphaned
    · -- the hash's group is the one taken out
      simp only [member, if_true, reduceCtorEq, false_iff, not_and]
      intro known
      rw [consistent.childOf_unique ((consistent.parents h p).mp known) ((children h).mp member)]
      simp
    · rw [if_neg member, inv.parents]
      constructor
      · rintro ⟨known, present⟩
        have other : p ≠ y := fun same => member ((children h).mpr (same ▸ (consistent.parents h p).mp known))
        exact ⟨known, by rwa [if_neg other]⟩
      · rintro ⟨known, present⟩
        split_ifs at present
        · simp at present
        · exact ⟨known, present⟩
  · -- removed
    intro b
    rw [List.mem_append, inv.taken, mem_filterMap_group consistent startFound, lookupErase]
    by_cases same : b.parentHash = y
    · simp only [same, if_true, and_true]
      tauto
    · simp [same]
  · -- nodup
    refine List.nodup_append.mpr ⟨inv.nodup, ?_, ?_⟩
    · refine List.Nodup.filterMap ?_ (nodup_sortedElems _)
      intro h h' b' first second
      have hash := (consistent.filed y orphaned h b' startFound first).1
      have hash' := (consistent.filed y orphaned h' b' startFound second).1
      exact hash.symm.trans hash'
    · intro a old a' new same
      subst same
      have gone := ((inv.taken a).mp old).2
      rw [((mem_filterMap_group consistent startFound).mp new).2, found] at gone
      cases gone
  · -- queued
    intro q member
    rcases List.mem_append.mp member with member | member
    · exact inv.queued q (List.mem_cons_of_mem y member)
    · have child := (children q).mp (Finmap.mem_keys.mp (mem_sortedElems.mp member))
      exact Relation.ReflTransGen.head child inSubtree
  · -- frontier
    intro x below present
    rw [lookupErase] at present
    have other : x ≠ y := by
      intro same
      simp [same] at present
    rw [if_neg other] at present
    rcases inv.frontier x below present with member | ⟨p, child⟩
    · rcases List.mem_cons.mp member with same | member
      · exact absurd same other
      · exact Or.inl (List.mem_append_left _ member)
    · by_cases group : p = y
      · subst group
        have member : x ∈ orphaned := by
          obtain ⟨children, found', member⟩ := childOf_iff.mp child
          rw [found] at found'
          cases found'
          exact member
        exact Or.inl (List.mem_append_right _ (mem_sortedElems.mpr (Finmap.mem_keys.mpr member)))
      · refine Or.inr ⟨p, ?_⟩
        unfold ChildOf at child ⊢
        rw [lookupErase, if_neg group]
        exact child

/-- The loop runs until its queue is empty: every turn takes one hash off the queue, and a group
taken out puts back as many hashes as it takes out of the groups. -/
theorem LoopInvariant.removeLoop (consistent : Consistent parentOf start) :
    ∀ (fuel : Nat) (queue : List H) (pool : InnerPool H) (removed : List (LonelyBlockHash H)),
      LoopInvariant start root queue pool removed → queue.length + pool.filedCount ≤ fuel →
      LoopInvariant start root [] (InnerPool.removeLoop fuel queue pool removed).1
        (InnerPool.removeLoop fuel queue pool removed).2
  | 0, queue, pool, removed, inv, enough => by
    have empty : queue = [] := List.eq_nil_of_length_eq_zero (by omega)
    subst empty
    exact inv
  | _ + 1, [], pool, removed, inv, _ => inv
  | fuel + 1, y :: queue, pool, removed, inv, enough => by
    cases found : pool.blocks.lookup y with
    | none =>
      simp only [InnerPool.removeLoop, found]
      exact LoopInvariant.removeLoop consistent fuel queue pool removed (inv.skip found)
        (by simp only [List.length_cons] at enough; omega)
    | some orphaned =>
      simp only [InnerPool.removeLoop, found]
      refine LoopInvariant.removeLoop consistent fuel _ _ _ (inv.take consistent found) ?_
      have counted := FiniteMap.sumBy_erase found fun children => children.keys.card
      simp only [filedCount, List.length_cons] at enough counted ⊢
      simp only [List.length_append, length_sortedElems]
      omega

theorem LoopInvariant.subtree_taken (consistent : Consistent parentOf start) (leader : root ∈ start.leaders)
    (inv : LoopInvariant start root [] pool removed) {x : H} (below : Relation.ReflTransGen start.ChildOf x root) :
    pool.blocks.lookup x = none := by
  -- down from the root: a group left below a taken group would have its block still filed there
  induction below using Relation.ReflTransGen.head_induction_on with
  | refl =>
    apply Option.not_isSome_iff_eq_none.mp
    intro present
    rcases inv.frontier root .refl present with member | ⟨p, child⟩
    · cases member
    · have known := (consistent.parents root p).mpr ((childOf_iff_of_sub (inv.blocks_sub p)).mp child).1
      exact ((consistent.leaders root).mp leader).1 (Finmap.mem_of_lookup_eq_some known)
  | head edge rest taken =>
    rename_i x c
    apply Option.not_isSome_iff_eq_none.mp
    intro present
    rcases inv.frontier x (.head edge rest) present with member | ⟨p, child⟩
    · cases member
    · have both := (childOf_iff_of_sub (inv.blocks_sub p)).mp child
      rw [consistent.childOf_unique both.1 edge, taken] at both
      simp at both

section Done

variable (consistent : Consistent parentOf start) (leader : root ∈ start.leaders)
  (inv : LoopInvariant start root [] pool removed)
include consistent leader inv

theorem LoopInvariant.childOf_iff_done :
    pool.ChildOf c p ↔ start.ChildOf c p ∧ ¬ Relation.ReflTransGen start.ChildOf p root := by
  rw [childOf_iff_of_sub (inv.blocks_sub p)]
  constructor
  · rintro ⟨child, present⟩
    refine ⟨child, fun below => ?_⟩
    rw [inv.subtree_taken consistent leader below] at present
    cases present
  · rintro ⟨child, outside⟩
    rw [inv.blocks_outside p outside]
    exact ⟨child, isSome_of_childOf child⟩

theorem LoopInvariant.filed_iff_done :
    pool.Filed b ↔ start.Filed b ∧ ¬ Relation.ReflTransGen start.ChildOf b.parentHash root := by
  by_cases below : Relation.ReflTransGen start.ChildOf b.parentHash root
  · simp [Filed, inv.subtree_taken consistent leader below, below]
  · simp only [Filed, inv.blocks_outside _ below, below, not_false_eq_true, and_true]

theorem LoopInvariant.consistent_done : Consistent parentOf pool where
  filed p children h b found stored := by
    rcases inv.blocks_sub p with gone | same
    · rw [gone] at found
      cases found
    · rw [same] at found
      exact consistent.filed p children h b found stored
  parents h p := by
    rw [inv.parents, childOf_iff_of_sub (inv.blocks_sub p), consistent.parents]
  nonempty p children found := by
    rcases inv.blocks_sub p with gone | same
    · rw [gone] at found
      cases found
    · rw [same] at found
      exact consistent.nonempty p children found
  leaders x := by
    rw [inv.leaders, Finset.mem_erase, consistent.leaders]
    have shrunk : x ∈ pool.parents → x ∈ start.parents := fun known => by
      obtain ⟨p, found⟩ := Finmap.mem_iff.mp known
      exact Finmap.mem_of_lookup_eq_some ((inv.parents x p).mp found).1
    constructor
    · rintro ⟨other, outside, c, child⟩
      -- a leader other than the root has no parent, so it is outside the subtree
      have notBelow : ¬ Relation.ReflTransGen start.ChildOf x root := by
        intro reaches
        rcases reaches.cases_head with same | ⟨p, up, -⟩
        · exact other same
        · exact outside (Finmap.mem_of_lookup_eq_some ((consistent.parents x p).mpr up))
      exact ⟨fun known => outside (shrunk known), c,
        (inv.childOf_iff_done consistent leader).mpr ⟨child, notBelow⟩⟩
    · rintro ⟨outside, c, child⟩
      obtain ⟨child, notBelow⟩ := (inv.childOf_iff_done consistent leader).mp child
      refine ⟨fun same => notBelow (same ▸ .refl), fun known => ?_, c, child⟩
      obtain ⟨p, found⟩ := Finmap.mem_iff.mp known
      have up := (consistent.parents x p).mp found
      -- the group `x` was filed in is gone, so it was in the subtree, and then so is `x`
      have gone : ¬ (pool.blocks.lookup p).isSome := fun present =>
        outside (Finmap.mem_of_lookup_eq_some ((inv.parents x p).mpr ⟨found, present⟩))
      have parentBelow : Relation.ReflTransGen start.ChildOf p root := by
        by_contra outsideP
        rw [inv.blocks_outside p outsideP] at gone
        exact gone (isSome_of_childOf up)
      exact notBelow (.head up parentBelow)

theorem LoopInvariant.getBlock_done : pool.getBlock = cut LonelyBlockHash.parentHash start.getBlock root := by
  have final := inv.consistent_done consistent leader
  funext h
  apply Option.ext
  intro b
  rw [cut_eq_some, final.getBlock_eq_some, inv.filed_iff_done consistent leader]
  constructor
  · rintro ⟨hash, filed, outside⟩
    have found := consistent.getBlock_eq_some.mpr ⟨hash, filed⟩
    exact ⟨found, fun below => outside ((consistent.descends_iff found).mp below)⟩
  · rintro ⟨found, outside⟩
    obtain ⟨hash, filed⟩ := consistent.getBlock_eq_some.mp found
    exact ⟨hash, filed, fun below => outside ((consistent.descends_iff found).mpr below)⟩

theorem LoopInvariant.mem_removed_done :
    b ∈ removed ↔ start.getBlock b.hash = some b ∧ start.Descends b.hash root := by
  rw [inv.taken]
  constructor
  · rintro ⟨filed, gone⟩
    have found := consistent.getBlock_eq_some.mpr ⟨rfl, filed⟩
    refine ⟨found, (consistent.descends_iff found).mpr ?_⟩
    by_contra outside
    rw [inv.blocks_outside _ outside] at gone
    have present := isSome_of_filed filed
    simp [gone] at present
  · rintro ⟨found, below⟩
    obtain ⟨-, filed⟩ := consistent.getBlock_eq_some.mp found
    exact ⟨filed, inv.subtree_taken consistent leader ((consistent.descends_iff found).mp below)⟩

theorem LoopInvariant.removed_ne_nil_done : removed ≠ [] := by
  obtain ⟨-, c, child⟩ := (consistent.leaders root).mp leader
  obtain ⟨b, filed, -, parentHash⟩ := consistent.filed_of_childOf child
  have taken : b ∈ removed :=
    (inv.taken b).mpr ⟨filed, by rw [parentHash]; exact inv.subtree_taken consistent leader .refl⟩
  exact List.ne_nil_of_mem taken

end Done

/-! `remove_blocks_by_parent` -/

theorem removeBlocksByParent_of_mem (leader : root ∈ pool.leaders) :
    pool.removeBlocksByParent root =
      InnerPool.removeLoop (pool.filedCount + 1) [root] { pool with leaders := pool.leaders.erase root } [] :=
  if_pos leader

theorem removeBlocksByParent_of_not_mem (notLeader : root ∉ pool.leaders) :
    pool.removeBlocksByParent root = (pool, []) :=
  if_neg notLeader

/-- The walk from a leader ends with its invariant and an empty queue: the fuel is the number of
blocks in the pool and one for the leader. -/
theorem removeBlocksByParent_invariant (consistent : Consistent parentOf pool) (leader : root ∈ pool.leaders) :
    LoopInvariant pool root [] (pool.removeBlocksByParent root).1 (pool.removeBlocksByParent root).2 := by
  rw [removeBlocksByParent_of_mem leader]
  refine LoopInvariant.removeLoop consistent _ _ _ _ (loopInvariant_start consistent) ?_
  rw [List.length_singleton, Nat.add_comm]
  exact Nat.le_refl _

theorem Consistent.removeBlocksByParent (consistent : Consistent parentOf pool) (root : H) :
    Consistent parentOf (pool.removeBlocksByParent root).1 := by
  by_cases leader : root ∈ pool.leaders
  · exact (removeBlocksByParent_invariant consistent leader).consistent_done consistent leader
  · rw [removeBlocksByParent_of_not_mem leader]
    exact consistent

theorem leaders_removeBlocksByParent (consistent : Consistent parentOf pool) (root : H) :
    (pool.removeBlocksByParent root).1.leaders = pool.leaders.erase root := by
  by_cases leader : root ∈ pool.leaders
  · exact (removeBlocksByParent_invariant consistent leader).leaders
  · rw [removeBlocksByParent_of_not_mem leader, Finset.erase_eq_of_notMem leader]

theorem nodup_removeBlocksByParent (consistent : Consistent parentOf pool) (root : H) :
    (pool.removeBlocksByParent root).2.Nodup := by
  by_cases leader : root ∈ pool.leaders
  · exact (removeBlocksByParent_invariant consistent leader).nodup
  · rw [removeBlocksByParent_of_not_mem leader]
    exact List.nodup_nil

theorem lookup_blocks_removeBlocksByParent (consistent : Consistent parentOf pool) (leader : root ∈ pool.leaders)
    (outside : ¬ Relation.ReflTransGen pool.ChildOf p root) :
    (pool.removeBlocksByParent root).1.blocks.lookup p = pool.blocks.lookup p :=
  (removeBlocksByParent_invariant consistent leader).blocks_outside p outside

theorem len_removeBlocksByParent (consistent : Consistent parentOf pool) (root : H) :
    (pool.removeBlocksByParent root).1.len + (pool.removeBlocksByParent root).2.length = pool.len := by
  by_cases leader : root ∈ pool.leaders
  · have inv := removeBlocksByParent_invariant consistent leader
    have final := inv.consistent_done consistent leader
    have view := inv.getBlock_done consistent leader
    have removedIff := fun b => inv.mem_removed_done consistent leader (b := b)
    set result := pool.removeBlocksByParent root
    -- the hashes of the removed blocks are distinct, since `get_block` finds one block a hash
    have distinct : (result.2.map LonelyBlockHash.hash).Nodup := by
      refine List.Nodup.map_on ?_ inv.nodup
      intro x xRemoved y yRemoved same
      have foundX := ((removedIff x).mp xRemoved).1
      rw [same, ((removedIff y).mp yRemoved).1] at foundX
      exact (Option.some_inj.mp foundX).symm
    have split : pool.parents.keys = result.1.parents.keys ∪ (result.2.map LonelyBlockHash.hash).toFinset := by
      ext h
      simp only [Finset.mem_union, List.mem_toFinset, List.mem_map, Finmap.mem_keys,
        consistent.mem_parents_iff, final.mem_parents_iff, view, Option.isSome_iff_exists, cut_eq_some]
      constructor
      · rintro ⟨b, found⟩
        by_cases below : pool.Descends h root
        · obtain ⟨rfl, -⟩ := consistent.getBlock_eq_some.mp found
          exact Or.inr ⟨b, (removedIff b).mpr ⟨found, below⟩, rfl⟩
        · exact Or.inl ⟨b, found, below⟩
      · rintro (⟨b, found, -⟩ | ⟨b, removed, rfl⟩)
        · exact ⟨b, found⟩
        · exact ⟨b, ((removedIff b).mp removed).1⟩
    have disjoint : Disjoint result.1.parents.keys (result.2.map LonelyBlockHash.hash).toFinset := by
      rw [Finset.disjoint_left]
      intro h kept taken
      obtain ⟨b, removed, rfl⟩ := List.mem_map.mp (List.mem_toFinset.mp taken)
      rw [Finmap.mem_keys, final.mem_parents_iff, view, Option.isSome_iff_exists] at kept
      obtain ⟨b', found⟩ := kept
      exact (cut_eq_some.mp found).2 ((removedIff b).mp removed).2
    simp only [len]
    rw [split, Finset.card_union_of_disjoint disjoint, List.toFinset_card_of_nodup distinct, List.length_map]
  · rw [removeBlocksByParent_of_not_mem leader]
    rfl

/-- `remove_blocks_by_parent` from a leader, against the forest: the pool after is the forest cut
below the leader, and the blocks returned are those cut off, each once, never none. -/
theorem removeBlocksByParent_spec (consistent : Consistent parentOf pool) (leader : root ∈ pool.leaders) :
    (pool.removeBlocksByParent root).1.getBlock = cut LonelyBlockHash.parentHash pool.getBlock root ∧
    (∀ b, b ∈ (pool.removeBlocksByParent root).2 ↔ pool.getBlock b.hash = some b ∧ pool.Descends b.hash root) ∧
    (pool.removeBlocksByParent root).2 ≠ [] := by
  have inv := removeBlocksByParent_invariant consistent leader
  exact ⟨inv.getBlock_done consistent leader, fun b => inv.mem_removed_done consistent leader,
    inv.removed_ne_nil_done consistent leader⟩

/-! `clean_expired_blocks` -/

theorem needClean_congr {pool' : InnerPool H} {x : H} (same : pool'.blocks.lookup x = pool.blocks.lookup x)
    (tipEpoch : Nat) : pool'.needClean x tipEpoch = pool.needClean x tipEpoch := by
  simp only [needClean, same]

theorem Consistent.not_reaches_of_leader (consistent : Consistent parentOf pool) {x y : H} (leader : x ∈ pool.leaders)
    (other : x ≠ y) : ¬ Relation.ReflTransGen pool.ChildOf x y := by
  intro reaches
  rcases reaches.cases_head with same | ⟨p, up, -⟩
  · exact other same
  · exact ((consistent.leaders x).mp leader).1 (Finmap.mem_of_lookup_eq_some ((consistent.parents x p).mpr up))

theorem Consistent.getBlock_leader (consistent : Consistent parentOf pool) {x : H} (leader : x ∈ pool.leaders) :
    pool.getBlock x = none :=
  ((consistent.mem_leaders_iff).mp leader).1

theorem forall_notMem_cons_iff {l : List H} {y : H} {P : H → Prop} (fresh : y ∉ l) :
    (∀ x, x ∉ l → P x) ↔ (∀ x, x ∉ y :: l → P x) ∧ P y := by
  constructor
  · intro all
    exact ⟨fun x notIn => all x fun member => notIn (List.mem_cons_of_mem y member), all y fresh⟩
  · rintro ⟨all, atY⟩ x notIn
    by_cases same : x = y
    · exact same ▸ atY
    · exact all x (by simp [same, notIn])

variable (parentOf) in
/-- What the loop of `clean_expired_blocks` keeps, with `todo` the leaders of `start` not yet looked
at: the subtrees of the expired leaders looked at are cut, and the other leaders are untouched. -/
structure CleanInvariant (start : InnerPool H) (tipEpoch : Nat) (todo : List H) (pool : InnerPool H)
    (result : List (LonelyBlockHash H)) : Prop where
  consistent : Consistent parentOf pool
  view : ∀ h b, pool.getBlock h = some b ↔ start.getBlock h = some b ∧
    ∀ x, x ∉ todo → x ∈ start.leaders → start.needClean x tipEpoch = true → ¬ start.Descends h x
  taken : ∀ b, b ∈ result ↔ start.getBlock b.hash = some b ∧
    ∃ x, x ∉ todo ∧ x ∈ start.leaders ∧ start.needClean x tipEpoch = true ∧ start.Descends b.hash x
  nodup : result.Nodup
  leaders : ∀ x, x ∈ pool.leaders ↔ x ∈ start.leaders ∧ (x ∈ todo ∨ start.needClean x tipEpoch = false)
  blocks : ∀ x ∈ pool.leaders, pool.blocks.lookup x = start.blocks.lookup x
  descends : ∀ x ∈ todo, ∀ h, pool.Descends h x ↔ start.Descends h x

variable {tipEpoch : Nat}

theorem cleanInvariant_start (consistent : Consistent parentOf start) (tipEpoch : Nat) :
    CleanInvariant parentOf start tipEpoch (sortedElems start.leaders) start [] where
  consistent := consistent
  view h b := by
    simp only [mem_sortedElems]
    exact ⟨fun found => ⟨found, fun x notLeader leader => absurd leader notLeader⟩, fun both => both.1⟩
  taken b := by
    simp only [List.not_mem_nil, false_iff, not_and, not_exists, mem_sortedElems]
    exact fun _ x notLeader leader => absurd leader notLeader
  nodup := List.nodup_nil
  leaders x := ⟨fun leader => ⟨leader, Or.inl (mem_sortedElems.mpr leader)⟩, fun both => both.1⟩
  blocks _ _ := rfl
  descends _ _ _ := Iff.rfl

theorem exists_notMem_cons_iff {l : List H} {y : H} {P : H → Prop} (fresh : y ∉ l) :
    (∃ x, x ∉ l ∧ P x) ↔ (∃ x, x ∉ y :: l ∧ P x) ∨ P y := by
  constructor
  · rintro ⟨x, notIn, holds⟩
    by_cases same : x = y
    · exact Or.inr (same ▸ holds)
    · exact Or.inl ⟨x, by simp [same, notIn], holds⟩
  · rintro (⟨x, notIn, holds⟩ | holds)
    · exact ⟨x, fun member => notIn (List.mem_cons_of_mem y member), holds⟩
    · exact ⟨y, fresh, holds⟩

theorem CleanInvariant.cleanLeader (startConsistent : Consistent parentOf start) {y : H} {todo : List H}
    {state : InnerPool H × List (LonelyBlockHash H)}
    (inv : CleanInvariant parentOf start tipEpoch (y :: todo) state.1 state.2) (fresh : y ∉ todo)
    (within : ∀ x ∈ y :: todo, x ∈ start.leaders) :
    CleanInvariant parentOf start tipEpoch todo (InnerPool.cleanLeader tipEpoch state y).1 (InnerPool.cleanLeader tipEpoch state y).2 := by
  obtain ⟨pool, result⟩ := state
  change CleanInvariant parentOf start tipEpoch (y :: todo) pool result at inv
  have leader := within y List.mem_cons_self
  have current : y ∈ pool.leaders := (inv.leaders y).mpr ⟨leader, Or.inl List.mem_cons_self⟩
  have sameClean := needClean_congr (inv.blocks y current) tipEpoch
  cases expired : start.needClean y tipEpoch with
  | false =>
    have unchanged : InnerPool.cleanLeader tipEpoch (pool, result) y = (pool, result) := by
      simp [InnerPool.cleanLeader, sameClean, expired]
    rw [unchanged]
    refine ⟨inv.consistent, ?_, ?_, inv.nodup, ?_, inv.blocks, ?_⟩
    · intro h b
      rw [inv.view, forall_notMem_cons_iff fresh]
      simp [expired]
    · intro b
      rw [inv.taken, exists_notMem_cons_iff fresh]
      simp [expired]
    · intro x
      rw [inv.leaders]
      by_cases same : x = y
      · subst same
        simp [expired]
      · simp [same]
    · intro x member h
      exact inv.descends x (List.mem_cons_of_mem y member) h
  | true =>
    have cut := removeBlocksByParent_spec inv.consistent current
    have unfolded : InnerPool.cleanLeader tipEpoch (pool, result) y =
        ((pool.removeBlocksByParent y).1, result ++ (pool.removeBlocksByParent y).2) := by
      simp [InnerPool.cleanLeader, sameClean, expired]
    rw [unfolded]
    have descendsY := inv.descends y List.mem_cons_self
    -- a block below `y` is below no other leader of `start`
    have onlyY : ∀ h x, start.Descends h y → x ∈ start.leaders → x ≠ y → ¬ start.Descends h x :=
      fun h x below xLeader other => Forest.not_descends_of_reaches (startConsistent.getBlock_leader xLeader)
        (startConsistent.getBlock_leader leader) other below.to_reflTransGen
    have viewAfter : ∀ h b, (pool.removeBlocksByParent y).1.getBlock h = some b ↔
        pool.getBlock h = some b ∧ ¬ start.Descends h y := by
      intro h b
      rw [cut.1, cut_eq_some]
      exact and_congr_right fun _ => not_congr (descendsY h)
    refine ⟨inv.consistent.removeBlocksByParent y, ?_, ?_, ?_, ?_, ?_, ?_⟩
    · -- view
      intro h b
      rw [viewAfter, inv.view, forall_notMem_cons_iff fresh]
      simp [leader, expired, and_assoc]
    · -- taken
      intro b
      rw [List.mem_append, inv.taken, cut.2.1, exists_notMem_cons_iff fresh, inv.view, descendsY]
      simp only [leader, expired, true_and]
      constructor
      · rintro (⟨found, earlier⟩ | ⟨⟨found, -⟩, below⟩)
        · exact ⟨found, Or.inl earlier⟩
        · exact ⟨found, Or.inr below⟩
      · rintro ⟨found, earlier | below⟩
        · exact Or.inl ⟨found, earlier⟩
        · refine Or.inr ⟨⟨found, fun x notIn xLeader _ => onlyY _ x below xLeader ?_⟩, below⟩
          rintro rfl
          exact notIn List.mem_cons_self
    · -- nodup
      refine List.nodup_append.mpr ⟨inv.nodup, nodup_removeBlocksByParent inv.consistent y, ?_⟩
      rintro a old a' new rfl
      obtain ⟨-, x, notIn, xLeader, xExpired, below⟩ := (inv.taken a).mp old
      have found := ((cut.2.1 a).mp new).1
      exact ((inv.view _ _).mp found).2 x notIn xLeader xExpired below
    · -- leaders
      intro x
      rw [leaders_removeBlocksByParent inv.consistent, Finset.mem_erase, inv.leaders]
      by_cases same : x = y
      · subst same
        simp [fresh, expired]
      · simp [same]
    · -- blocks
      intro x kept
      rw [leaders_removeBlocksByParent inv.consistent, Finset.mem_erase] at kept
      rw [lookup_blocks_removeBlocksByParent inv.consistent current
        (inv.consistent.not_reaches_of_leader kept.2 kept.1)]
      exact inv.blocks x kept.2
    · -- descends
      intro x member h
      have xCurrent : x ∈ pool.leaders :=
        (inv.leaders x).mpr ⟨within x (List.mem_cons_of_mem y member), Or.inl (List.mem_cons_of_mem y member)⟩
      have other : y ≠ x := fun same => fresh (same ▸ member)
      show Forest.Descends _ (pool.removeBlocksByParent y).1.getBlock h x ↔ _
      rw [cut.1, Forest.descends_cut (inv.consistent.getBlock_leader current)
        (inv.consistent.getBlock_leader xCurrent) other]
      exact inv.descends x (List.mem_cons_of_mem y member) h

theorem CleanInvariant.foldl (startConsistent : Consistent parentOf start) :
    ∀ (todo : List H) (state : InnerPool H × List (LonelyBlockHash H)), todo.Nodup → (∀ x ∈ todo, x ∈ start.leaders) →
      CleanInvariant parentOf start tipEpoch todo state.1 state.2 →
      CleanInvariant parentOf start tipEpoch [] (todo.foldl (InnerPool.cleanLeader tipEpoch) state).1
        (todo.foldl (InnerPool.cleanLeader tipEpoch) state).2
  | [], _, _, _, inv => inv
  | y :: todo, _, distinct, within, inv =>
    CleanInvariant.foldl startConsistent todo _ (List.nodup_cons.mp distinct).2
      (fun x member => within x (List.mem_cons_of_mem y member))
      (inv.cleanLeader startConsistent (List.nodup_cons.mp distinct).1 within)

theorem cleanExpiredBlocks_invariant (consistent : Consistent parentOf pool) (tipEpoch : Nat) :
    CleanInvariant parentOf pool tipEpoch [] (pool.cleanExpiredBlocks tipEpoch).1 (pool.cleanExpiredBlocks tipEpoch).2 :=
  CleanInvariant.foldl consistent _ (pool, []) (nodup_sortedElems _) (fun _ member => mem_sortedElems.mp member)
    (cleanInvariant_start consistent tipEpoch)

/-- `clean_expired_blocks` against the forest: it cuts the subtree of every expired leader and
returns their blocks, each once; the other leaders stay, and none of them is expired. -/
theorem cleanExpiredBlocks_spec (consistent : Consistent parentOf pool) (tipEpoch : Nat) :
    (∀ h b, (pool.cleanExpiredBlocks tipEpoch).1.getBlock h = some b ↔
      pool.getBlock h = some b ∧ ∀ x ∈ pool.leaders, pool.needClean x tipEpoch = true → ¬ pool.Descends h x) ∧
    (∀ b, b ∈ (pool.cleanExpiredBlocks tipEpoch).2 ↔
      pool.getBlock b.hash = some b ∧ ∃ x ∈ pool.leaders, pool.needClean x tipEpoch = true ∧ pool.Descends b.hash x) ∧
    (pool.cleanExpiredBlocks tipEpoch).2.Nodup ∧
    (∀ x, x ∈ (pool.cleanExpiredBlocks tipEpoch).1.leaders ↔ x ∈ pool.leaders ∧ pool.needClean x tipEpoch = false) ∧
    ∀ x ∈ (pool.cleanExpiredBlocks tipEpoch).1.leaders, (pool.cleanExpiredBlocks tipEpoch).1.needClean x tipEpoch = false := by
  have inv := cleanExpiredBlocks_invariant consistent tipEpoch
  refine ⟨?_, ?_, inv.nodup, ?_, ?_⟩
  · intro h b
    rw [inv.view]
    simp only [List.not_mem_nil, not_false_eq_true, true_implies]
  · intro b
    rw [inv.taken]
    simp only [List.not_mem_nil, not_false_eq_true, true_and]
  · intro x
    rw [inv.leaders]
    simp
  · intro x kept
    rw [needClean_congr (inv.blocks x kept)]
    exact (((inv.leaders x).mp kept).2.resolve_left (List.not_mem_nil))

/-! Runs -/

theorem Consistent.step (consistent : Consistent parentOf pool) {pool' : InnerPool H} (step : Step parentOf pool pool') :
    Consistent parentOf pool' := by
  cases step with
  | insert b linked notOwnParent => exact consistent.insert linked notOwnParent
  | removeBlocksByParent root => exact consistent.removeBlocksByParent root
  | cleanExpiredBlocks tipEpoch => exact (cleanExpiredBlocks_invariant consistent tipEpoch).consistent

theorem Reachable.consistent (reachable : Reachable parentOf pool) : Consistent parentOf pool := by
  induction reachable with
  | refl => exact consistent_empty
  | tail _ step ih => exact ih.step step

/-! What every reachable pool does -/

theorem orphan_pool_indexes_agree (reachable : Reachable parentOf pool) :
    (∀ h, h ∈ pool.parents ↔ (pool.getBlock h).isSome) ∧
    (∀ p, p ∈ pool.leaders ↔ Leader LonelyBlockHash.parentHash pool.getBlock p) ∧
    (∀ h b, pool.getBlock h = some b → b.hash = h ∧ b.parentHash = parentOf h) ∧
    ∀ p children, pool.blocks.lookup p = some children → children ≠ ∅ := by
  have consistent := reachable.consistent
  refine ⟨fun h => consistent.mem_parents_iff, fun p => consistent.mem_leaders_iff, ?_, consistent.nonempty⟩
  intro h b found
  obtain ⟨rfl, filed⟩ := consistent.getBlock_eq_some.mp found
  obtain ⟨children, group, stored⟩ := filed_iff.mp filed
  obtain ⟨-, -, linked⟩ := consistent.filed _ children _ b group stored
  exact ⟨rfl, linked⟩

theorem insert_sets_entry (reachable : Reachable parentOf pool) (linked : b.parentHash = parentOf b.hash)
    (notOwnParent : b.parentHash ≠ b.hash) :
    (pool.insert b).getBlock = Function.update pool.getBlock b.hash (some b) ∧
    (pool.insert b).len = (if (pool.getBlock b.hash).isSome then pool.len else pool.len + 1) ∧
    ∀ p, p ∈ (pool.insert b).leaders ↔
      Leader LonelyBlockHash.parentHash (Function.update pool.getBlock b.hash (some b)) p := by
  have consistent := reachable.consistent
  refine ⟨getBlock_insert pool b, ?_, fun p => ?_⟩
  · simp only [len, parents_insert, FiniteMap.keys_insert, ← consistent.mem_parents_iff]
    split_ifs with known
    · rw [Finset.insert_eq_of_mem (Finmap.mem_keys.mpr known)]
    · rw [Finset.card_insert_of_notMem (fun member => known (Finmap.mem_keys.mp member))]
  · rw [(consistent.insert linked notOwnParent).mem_leaders_iff, getBlock_insert]

theorem remove_blocks_by_parent_cuts_subtree (reachable : Reachable parentOf pool) (leader : root ∈ pool.leaders) :
    (pool.removeBlocksByParent root).1.getBlock = cut LonelyBlockHash.parentHash pool.getBlock root ∧
    (∀ b, b ∈ (pool.removeBlocksByParent root).2 ↔ pool.getBlock b.hash = some b ∧ pool.Descends b.hash root) ∧
    (pool.removeBlocksByParent root).2.Nodup ∧ (pool.removeBlocksByParent root).2 ≠ [] ∧
    (pool.removeBlocksByParent root).1.leaders = pool.leaders.erase root ∧
    (pool.removeBlocksByParent root).1.len + (pool.removeBlocksByParent root).2.length = pool.len := by
  have consistent := reachable.consistent
  obtain ⟨view, removed, nonempty⟩ := removeBlocksByParent_spec consistent leader
  exact ⟨view, removed, nodup_removeBlocksByParent consistent root, nonempty,
    leaders_removeBlocksByParent consistent root, len_removeBlocksByParent consistent root⟩

theorem clean_expired_blocks_cuts_expired (reachable : Reachable parentOf pool) (tipEpoch : Nat) :
    (∀ h b, (pool.cleanExpiredBlocks tipEpoch).1.getBlock h = some b ↔
      pool.getBlock h = some b ∧ ∀ x ∈ pool.leaders, pool.needClean x tipEpoch = true → ¬ pool.Descends h x) ∧
    (∀ b, b ∈ (pool.cleanExpiredBlocks tipEpoch).2 ↔
      pool.getBlock b.hash = some b ∧ ∃ x ∈ pool.leaders, pool.needClean x tipEpoch = true ∧ pool.Descends b.hash x) ∧
    (pool.cleanExpiredBlocks tipEpoch).2.Nodup ∧
    (∀ x, x ∈ (pool.cleanExpiredBlocks tipEpoch).1.leaders ↔ x ∈ pool.leaders ∧ pool.needClean x tipEpoch = false) ∧
    (∀ x ∈ (pool.cleanExpiredBlocks tipEpoch).1.leaders, (pool.cleanExpiredBlocks tipEpoch).1.needClean x tipEpoch = false) ∧
    Consistent parentOf (pool.cleanExpiredBlocks tipEpoch).1 :=
  have consistent := reachable.consistent
  ⟨(cleanExpiredBlocks_spec consistent tipEpoch).1, (cleanExpiredBlocks_spec consistent tipEpoch).2.1,
    (cleanExpiredBlocks_spec consistent tipEpoch).2.2.1, (cleanExpiredBlocks_spec consistent tipEpoch).2.2.2.1,
    (cleanExpiredBlocks_spec consistent tipEpoch).2.2.2.2, (cleanExpiredBlocks_invariant consistent tipEpoch).consistent⟩

/-- Two orphans in a chain below the leader `1`, the parent of each hash one less. -/
def samplePool : InnerPool Nat := ((empty : InnerPool Nat).insert ⟨2, 1, 0⟩).insert ⟨3, 2, 0⟩

-- breadth first: the leader's child, then the grandchild
example : (samplePool.removeBlocksByParent 1).2 = [⟨2, 1, 0⟩, ⟨3, 2, 0⟩] := by decide

theorem samplePool_reachable : Reachable (· - 1) samplePool :=
  (Relation.ReflTransGen.single (Step.insert _ _ rfl (by decide))).tail (Step.insert _ _ rfl (by decide))

theorem samplePool_indexes_agree :
    (∀ h, h ∈ samplePool.parents ↔ (samplePool.getBlock h).isSome) ∧
    (∀ p, p ∈ samplePool.leaders ↔ Leader LonelyBlockHash.parentHash samplePool.getBlock p) ∧
    (∀ h b, samplePool.getBlock h = some b → b.hash = h ∧ b.parentHash = h - 1) ∧
    ∀ p children, samplePool.blocks.lookup p = some children → children ≠ ∅ :=
  orphan_pool_indexes_agree samplePool_reachable

theorem samplePool_insert_again :
    (samplePool.insert ⟨3, 2, 0⟩).getBlock = Function.update samplePool.getBlock 3 (some ⟨3, 2, 0⟩) ∧
    (samplePool.insert ⟨3, 2, 0⟩).len = (if (samplePool.getBlock 3).isSome then samplePool.len else samplePool.len + 1) ∧
    ∀ p, p ∈ (samplePool.insert ⟨3, 2, 0⟩).leaders ↔
      Leader LonelyBlockHash.parentHash (Function.update samplePool.getBlock 3 (some ⟨3, 2, 0⟩)) p :=
  insert_sets_entry samplePool_reachable rfl (by decide)

theorem samplePool_remove_leader :
    1 ∈ samplePool.leaders ∧
    (samplePool.removeBlocksByParent 1).1.getBlock = cut LonelyBlockHash.parentHash samplePool.getBlock 1 ∧
    (∀ b, b ∈ (samplePool.removeBlocksByParent 1).2 ↔ samplePool.getBlock b.hash = some b ∧ samplePool.Descends b.hash 1) ∧
    (samplePool.removeBlocksByParent 1).2.Nodup ∧ (samplePool.removeBlocksByParent 1).2 ≠ [] ∧
    (samplePool.removeBlocksByParent 1).1.leaders = samplePool.leaders.erase 1 ∧
    (samplePool.removeBlocksByParent 1).1.len + (samplePool.removeBlocksByParent 1).2.length = samplePool.len :=
  ⟨by decide, remove_blocks_by_parent_cuts_subtree samplePool_reachable (by decide)⟩

theorem samplePool_clean_expired :
    (∀ h b, (samplePool.cleanExpiredBlocks 10).1.getBlock h = some b ↔
      samplePool.getBlock h = some b ∧ ∀ x ∈ samplePool.leaders, samplePool.needClean x 10 = true → ¬ samplePool.Descends h x) ∧
    (∀ b, b ∈ (samplePool.cleanExpiredBlocks 10).2 ↔
      samplePool.getBlock b.hash = some b ∧ ∃ x ∈ samplePool.leaders, samplePool.needClean x 10 = true ∧ samplePool.Descends b.hash x) ∧
    (samplePool.cleanExpiredBlocks 10).2.Nodup ∧
    (∀ x, x ∈ (samplePool.cleanExpiredBlocks 10).1.leaders ↔ x ∈ samplePool.leaders ∧ samplePool.needClean x 10 = false) ∧
    (∀ x ∈ (samplePool.cleanExpiredBlocks 10).1.leaders, (samplePool.cleanExpiredBlocks 10).1.needClean x 10 = false) ∧
    Consistent (· - 1) (samplePool.cleanExpiredBlocks 10).1 :=
  clean_expired_blocks_cuts_expired samplePool_reachable 10

end InnerPool

end Ckb.Chain
