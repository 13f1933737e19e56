import Ckb.TxPool.PoolMap

namespace Ckb.TxPool

variable {I : Type} [LinearOrder I]

namespace TxLinksMap

/-- A child set lists `c` under `p` exactly when the parent set of `c` lists `p`. -/
def Symmetric (m : TxLinksMap I) : Prop :=
  ∀ p c, c ∈ m.directIds .children p ↔ p ∈ m.directIds .parents c

theorem directIds_eq_empty {m : TxLinksMap I} {k : I} (absent : k ∉ m.inner) (r : Relation) :
    m.directIds r k = ∅ := by
  simp [directIds, Finmap.lookup_eq_none.mpr absent]

theorem mem_inner_of_mem_directIds {m : TxLinksMap I} {r : Relation} {k x : I}
    (member : x ∈ m.directIds r k) : k ∈ m.inner := by
  by_contra absent
  simp [directIds_eq_empty absent] at member

section Folds

variable (m : TxLinksMap I) (ids : List I) (x : I)

theorem inner_foldl_removeChild :
    (ids.foldl (fun links p => links.removeChild p x) m).inner =
      ids.foldl (fun inner p => inner.modify p fun l => { l with children := l.children.erase x }) m.inner := by
  induction ids generalizing m with
  | nil => rfl
  | cons p rest ih => exact ih _

theorem inner_foldl_removeParent :
    (ids.foldl (fun links c => links.removeParent c x) m).inner =
      ids.foldl (fun inner c => inner.modify c fun l => { l with parents := l.parents.erase x }) m.inner := by
  induction ids generalizing m with
  | nil => rfl
  | cons c rest ih => exact ih _

theorem inner_foldl_addChild :
    (ids.foldl (fun links p => links.addChild p x) m).inner =
      ids.foldl (fun inner p => inner.modify p fun l => { l with children := insert x l.children }) m.inner := by
  induction ids generalizing m with
  | nil => rfl
  | cons p rest ih => exact ih _

theorem inner_foldl_addParent :
    (ids.foldl (fun links c => links.addParent c x) m).inner =
      ids.foldl (fun inner c => inner.modify c fun l => { l with parents := insert x l.parents }) m.inner := by
  induction ids generalizing m with
  | nil => rfl
  | cons c rest ih => exact ih _

theorem directIds_foldl_removeChild (r : Relation) (k : I) :
    (ids.foldl (fun links p => links.removeChild p x) m).directIds r k =
      if r = .children ∧ k ∈ ids then (m.directIds r k).erase x else m.directIds r k := by
  unfold directIds
  rw [inner_foldl_removeChild, FiniteMap.lookup_foldl_modify _ _ _ (fun l => by simp)]
  by_cases listed : k ∈ ids <;> cases r <;> cases m.inner.lookup k <;> simp [listed, TxLinks.getDirectIds]

theorem directIds_foldl_removeParent (r : Relation) (k : I) :
    (ids.foldl (fun links c => links.removeParent c x) m).directIds r k =
      if r = .parents ∧ k ∈ ids then (m.directIds r k).erase x else m.directIds r k := by
  unfold directIds
  rw [inner_foldl_removeParent, FiniteMap.lookup_foldl_modify _ _ _ (fun l => by simp)]
  by_cases listed : k ∈ ids <;> cases r <;> cases m.inner.lookup k <;> simp [listed, TxLinks.getDirectIds]

theorem directIds_foldl_addChild (r : Relation) (k : I) :
    (ids.foldl (fun links p => links.addChild p x) m).directIds r k =
      if r = .children ∧ k ∈ ids ∧ k ∈ m.inner then insert x (m.directIds r k) else m.directIds r k := by
  unfold directIds
  rw [inner_foldl_addChild, FiniteMap.lookup_foldl_modify _ _ _ (fun l => by simp)]
  by_cases listed : k ∈ ids <;> cases r <;> cases found : m.inner.lookup k <;>
    simp [listed, TxLinks.getDirectIds, ← Finmap.lookup_isSome, found]

theorem directIds_foldl_addParent (r : Relation) (k : I) :
    (ids.foldl (fun links c => links.addParent c x) m).directIds r k =
      if r = .parents ∧ k ∈ ids ∧ k ∈ m.inner then insert x (m.directIds r k) else m.directIds r k := by
  unfold directIds
  rw [inner_foldl_addParent, FiniteMap.lookup_foldl_modify _ _ _ (fun l => by simp)]
  by_cases listed : k ∈ ids <;> cases r <;> cases found : m.inner.lookup k <;>
    simp [listed, TxLinks.getDirectIds, ← Finmap.lookup_isSome, found]

@[simp] theorem mem_foldl_removeChild (k : I) :
    k ∈ (ids.foldl (fun links p => links.removeChild p x) m).inner ↔ k ∈ m.inner := by
  rw [inner_foldl_removeChild, FiniteMap.mem_foldl_modify]

@[simp] theorem mem_foldl_removeParent (k : I) :
    k ∈ (ids.foldl (fun links c => links.removeParent c x) m).inner ↔ k ∈ m.inner := by
  rw [inner_foldl_removeParent, FiniteMap.mem_foldl_modify]

@[simp] theorem mem_foldl_addChild (k : I) :
    k ∈ (ids.foldl (fun links p => links.addChild p x) m).inner ↔ k ∈ m.inner := by
  rw [inner_foldl_addChild, FiniteMap.mem_foldl_modify]

@[simp] theorem mem_foldl_addParent (k : I) :
    k ∈ (ids.foldl (fun links c => links.addParent c x) m).inner ↔ k ∈ m.inner := by
  rw [inner_foldl_addParent, FiniteMap.mem_foldl_modify]

end Folds

theorem directIds_addLink (m : TxLinksMap I) (id : I) (links : TxLinks I) (r : Relation) (k : I) :
    (m.addLink id links).directIds r k = if k = id then links.getDirectIds r else m.directIds r k := by
  by_cases same : k = id
  · subst same
    simp [addLink, directIds]
  · simp [addLink, directIds, Finmap.lookup_insert_of_ne _ same, same]

theorem directIds_remove (m : TxLinksMap I) (id : I) (r : Relation) (k : I) :
    (m.remove id).directIds r k = if k = id then ∅ else m.directIds r k := by
  by_cases same : k = id
  · subst same
    simp [remove, directIds]
  · simp [remove, directIds, Finmap.lookup_erase_ne same, same]

@[simp] theorem mem_addLink (m : TxLinksMap I) (id : I) (links : TxLinks I) (k : I) :
    k ∈ (m.addLink id links).inner ↔ k = id ∨ k ∈ m.inner := by
  simp [addLink, Finmap.mem_insert]

@[simp] theorem mem_remove (m : TxLinksMap I) (id : I) (k : I) :
    k ∈ (m.remove id).inner ↔ k ≠ id ∧ k ∈ m.inner := by
  simp [remove, Finmap.mem_erase]

theorem not_mem_directIds_of_absent {m : TxLinksMap I} (symm : m.Symmetric) {id : I} (absent : id ∉ m.inner)
    (r : Relation) (k : I) : id ∉ m.directIds r k := by
  intro listed
  cases r with
  | parents => exact absent (mem_inner_of_mem_directIds ((symm id k).mpr listed))
  | children => exact absent (mem_inner_of_mem_directIds ((symm k id).mp listed))

/-- `_record_ancestors` on the links: a new id listed as a child of each of its parents, with the
parents as its own parent set. -/
theorem symmetric_addLink_parents {m : TxLinksMap I} (symm : m.Symmetric) {id : I} (absent : id ∉ m.inner)
    {parents : Finset I} (within : ∀ p ∈ parents, p ∈ m.inner) :
    (((sortedElems parents).foldl (fun links parent => links.addChild parent id) m).addLink id
      ⟨parents, ∅⟩).Symmetric := by
  have notListed : id ∉ parents := fun listed => absent (within id listed)
  have clean := not_mem_directIds_of_absent symm absent
  intro p c
  simp only [directIds_addLink, directIds_foldl_addChild, mem_sortedElems, TxLinks.getDirectIds]
  by_cases parentNew : p = id <;> by_cases childNew : c = id
  · simp [parentNew, childNew, notListed]
  · simp [parentNew, childNew, clean]
  · -- the new id is a child of `p` exactly when `p` is one of its parents
    subst childNew
    by_cases listed : p ∈ parents
    · simp [parentNew, listed, within p listed]
    · simp [parentNew, listed, clean]
  · have same := symm p c
    by_cases listed : p ∈ parents ∧ p ∈ m.inner <;> simp [parentNew, childNew, listed, same]

theorem directIds_modifyChildren (m : TxLinksMap I) (id : I) (children : Finset I) (r : Relation) (k : I) :
    (⟨m.inner.modify id fun l => { l with children := l.children ∪ children }⟩ : TxLinksMap I).directIds r k =
      if r = .children ∧ k = id ∧ id ∈ m.inner then m.directIds r k ∪ children else m.directIds r k := by
  unfold directIds
  rw [FiniteMap.lookup_modify]
  by_cases same : k = id
  · subst same
    cases found : m.inner.lookup k <;> cases r <;>
      simp [found, TxLinks.getDirectIds, ← Finmap.lookup_isSome]
  · simp [same]

/-- `record_entry_descendants` on the links: the new id gains the collected children, each of which
gains it as a parent. -/
theorem symmetric_addChildren {m : TxLinksMap I} (symm : m.Symmetric) {id : I} (present : id ∈ m.inner)
    {children : Finset I} (within : ∀ c ∈ children, c ∈ m.inner) :
    (⟨((sortedElems children).foldl (fun links child => links.addParent child id) m).inner.modify id
        fun l => { l with children := l.children ∪ children }⟩ : TxLinksMap I).Symmetric := by
  intro p c
  simp only [directIds_modifyChildren, directIds_foldl_addParent, mem_foldl_addParent, mem_sortedElems]
  have same := symm p c
  by_cases parentNew : p = id
  · subst parentNew
    by_cases listed : c ∈ children
    · simp [present, listed, within c listed]
    · simp [present, listed, same]
  · by_cases listed : c ∈ children ∧ c ∈ m.inner <;> simp [parentNew, listed, same]

/-! The relatives of an id are what one link of the relation or more reaches from it. -/

theorem mem_calcRelativeIds (m : TxLinksMap I) (id other : I) (relation : Relation) :
    other ∈ m.calcRelativeIds id relation ↔
      Relation.TransGen (fun a b => b ∈ m.directIds relation a) id other := by
  rw [calcRelativeIds, mem_calcRelationIds, Worklist.Reach, Relation.TransGen.head'_iff]

/-- `calc_relation_ids` ends within its rounds (more rounds change nothing) with the ids that zero
or more links reach from the stage; ancestors and descendants are what one link or more reaches,
so an id is among its own exactly when it lies on a cycle. -/
theorem calc_relation_ids_reachable (m : TxLinksMap I) (stage : Finset I) (relation : Relation) :
    (∀ extra, Worklist.walk (m.directIds relation) ((stage ∪ m.mentioned relation).card + 1 + extra) stage ∅ =
      Worklist.walk (m.directIds relation) ((stage ∪ m.mentioned relation).card + 1) stage ∅) ∧
    (∀ id, id ∈ m.calcRelationIds stage relation ↔
      ∃ x ∈ stage, Relation.ReflTransGen (fun a b => b ∈ m.directIds relation a) x id) ∧
    ∀ id other,
      (other ∈ m.calcAncestors id ↔ Relation.TransGen (fun a b => b ∈ m.directIds .parents a) id other) ∧
      (other ∈ m.calcDescendants id ↔ Relation.TransGen (fun a b => b ∈ m.directIds .children a) id other) := by
  refine ⟨Worklist.walk_add_of_exhausted _ _ _ (m.calcRelationIds_exhausts stage relation),
    m.mem_calcRelationIds stage relation, fun id other => ⟨?_, ?_⟩⟩
  · rw [calcAncestors, mem_calcRelativeIds]
  · rw [calcDescendants, mem_calcRelativeIds]

theorem calcAncestors_trans (m : TxLinksMap I) {id ancestor other : I} (first : ancestor ∈ m.calcAncestors id)
    (second : other ∈ m.calcAncestors ancestor) : other ∈ m.calcAncestors id := by
  rw [calcAncestors, mem_calcRelativeIds] at *
  exact first.trans second

theorem mem_calcDescendants {m : TxLinksMap I} (symm : m.Symmetric) (id other : I) :
    other ∈ m.calcDescendants id ↔ id ∈ m.calcAncestors other := by
  have children : (fun a b => b ∈ m.directIds .children a) = Function.swap fun a b => b ∈ m.directIds .parents a := by
    funext a b
    exact propext (symm a b)
  rw [calcDescendants, calcAncestors, mem_calcRelativeIds, mem_calcRelativeIds, children, Relation.transGen_swap]

theorem mem_inner_of_mem_calcAncestors {m : TxLinksMap I} (symm : m.Symmetric) {id ancestor : I}
    (member : ancestor ∈ m.calcAncestors id) : ancestor ∈ m.inner := by
  rw [calcAncestors, mem_calcRelativeIds] at member
  obtain ⟨child, -, parent⟩ := Relation.TransGen.tail'_iff.mp member
  exact mem_inner_of_mem_directIds ((symm ancestor child).mpr parent)

theorem calcAncestors_eq_empty {m : TxLinksMap I} {id : I} (absent : id ∉ m.inner) : m.calcAncestors id = ∅ := by
  ext other
  rw [calcAncestors, mem_calcRelativeIds]
  simp only [Finset.notMem_empty, iff_false]
  intro chain
  obtain ⟨parent, first, -⟩ := Relation.TransGen.head'_iff.mp chain
  rw [directIds_eq_empty absent] at first
  exact Finset.notMem_empty _ first

theorem symmetric_of_keys {m : TxLinksMap I}
    (children : ∀ p ∈ m.inner.keys, ∀ c ∈ m.directIds .children p, p ∈ m.directIds .parents c)
    (parents : ∀ c ∈ m.inner.keys, ∀ p ∈ m.directIds .parents c, c ∈ m.directIds .children p) : m.Symmetric := by
  intro p c
  constructor
  · intro child
    exact children p (Finmap.mem_keys.mpr (mem_inner_of_mem_directIds child)) c child
  · intro parent
    exact parents c (Finmap.mem_keys.mpr (mem_inner_of_mem_directIds parent)) p parent

end TxLinksMap

namespace PoolMap

variable {H : Type}

@[simp] theorem removeEntryLinks_entries (s : PoolMap H I) (id : I) :
    (removeEntryLinks s id).entries = s.entries := rfl

@[simp] theorem removeEntryLinks_edges (s : PoolMap H I) (id : I) :
    (removeEntryLinks s id).edges = s.edges := rfl

@[simp] theorem removeEntryLinks_totalTxSize (s : PoolMap H I) (id : I) :
    (removeEntryLinks s id).totalTxSize = s.totalTxSize := rfl

theorem getParents_getD (m : TxLinksMap I) (id : I) :
    (m.getParents id).getD ∅ = m.directIds .parents id := by
  unfold TxLinksMap.getParents TxLinksMap.directIds
  cases m.inner.lookup id <;> rfl

theorem getChildren_getD (m : TxLinksMap I) (id : I) :
    (m.getChildren id).getD ∅ = m.directIds .children id := by
  unfold TxLinksMap.getChildren TxLinksMap.directIds
  cases m.inner.lookup id <;> rfl

/-- Both loops of `remove_entry_links` read the sets through `get_parents` and `get_children`; an
absent id behaves as an empty set. -/
theorem removeEntryLinks_eq (s : PoolMap H I) (id : I) :
    removeEntryLinks s id =
      let links := (sortedElems (s.links.directIds .parents id)).foldl
        (fun links parent => links.removeChild parent id) s.links
      { s with links := ((sortedElems (links.directIds .children id)).foldl
          (fun links child => links.removeParent child id) links).remove id } := by
  simp only [removeEntryLinks, ← getParents_getD, ← getChildren_getD]
  split
  · split <;> simp_all
  · split <;> simp_all

theorem directIds_removeEntryLinks {s : PoolMap H I} (symm : s.links.Symmetric) (id : I)
    (r : Relation) (k : I) :
    (removeEntryLinks s id).links.directIds r k =
      if k = id then ∅ else (s.links.directIds r k).erase id := by
  rw [removeEntryLinks_eq]
  dsimp only
  rw [TxLinksMap.directIds_remove]
  by_cases same : k = id
  · simp [same]
  rw [if_neg same, if_neg same, TxLinksMap.directIds_foldl_removeParent,
    TxLinksMap.directIds_foldl_removeChild, TxLinksMap.directIds_foldl_removeChild]
  cases r with
  | parents =>
    -- `k` loses `id` as a parent when it is a child of `id` after the first loop
    have mirrored := symm id k
    by_cases child : id ∈ s.links.directIds .parents k
    · have listed : k ∈ s.links.directIds .children id := mirrored.mpr child
      have stays : k ∈ (if id ∈ s.links.directIds .parents id then
          (s.links.directIds .children id).erase id else s.links.directIds .children id) := by
        split <;> simp [listed, same]
      simp [mem_sortedElems, stays]
    · simp [mem_sortedElems, child]
  | children =>
    have mirrored := symm k id
    by_cases parent : id ∈ s.links.directIds .children k
    · simp [mem_sortedElems, mirrored.mp parent]
    · simp [mem_sortedElems, ← mirrored, parent]

@[simp] theorem mem_removeEntryLinks (s : PoolMap H I) (id k : I) :
    k ∈ (removeEntryLinks s id).links.inner ↔ k ≠ id ∧ k ∈ s.links.inner := by
  rw [removeEntryLinks_eq]
  simp

theorem symmetric_removeEntryLinks {s : PoolMap H I} (symm : s.links.Symmetric) (id : I) :
    (removeEntryLinks s id).links.Symmetric := by
  intro p c
  rw [directIds_removeEntryLinks symm, directIds_removeEntryLinks symm]
  by_cases parentGone : p = id
  · simp only [parentGone, if_true]
    split <;> simp
  · by_cases childGone : c = id
    · simp only [childGone, if_true]
      split <;> simp
    · simp [parentGone, childGone, symm p c]

end PoolMap

end Ckb.TxPool
