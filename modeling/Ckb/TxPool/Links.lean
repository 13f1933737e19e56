import Ckb.Support.Worklist

/-!
`TxLinksMap` (`tx-pool/src/component/links.rs`): for each in-pool transaction, the sets of its
parents and children. `calc_relation_ids` is the worklist loop of `Worklist.walk`, run with one
round more than there are ids in the map's sets, which the loop never needs.
-/

namespace Ckb.TxPool

variable {I : Type} [LinearOrder I]

structure TxLinks (I : Type) where
  parents : Finset I
  children : Finset I
deriving DecidableEq

inductive Relation where
  | parents
  | children
deriving DecidableEq

def TxLinks.getDirectIds (links : TxLinks I) : Relation → Finset I
  | .parents => links.parents
  | .children => links.children

structure TxLinksMap (I : Type) where
  inner : FiniteMap I (TxLinks I)

namespace TxLinksMap

def new : TxLinksMap I := ⟨∅⟩

/-- The direct ids of `id` under `relation`, or none when `id` has no links. -/
def directIds (m : TxLinksMap I) (relation : Relation) (id : I) : Finset I :=
  ((m.inner.lookup id).map (·.getDirectIds relation)).getD ∅

/-- Every id that some entry of the map lists under `relation`. -/
def mentioned (m : TxLinksMap I) (relation : Relation) : Finset I :=
  m.inner.keys.biUnion (m.directIds relation)

/-- `calc_relation_ids`: the ids reachable from `stage`, the members of `stage` included. -/
def calcRelationIds (m : TxLinksMap I) (stage : Finset I) (relation : Relation) : Finset I :=
  Worklist.closure (m.directIds relation) (stage ∪ m.mentioned relation) stage

/-- `calc_relative_ids`: the ids reachable from the direct ids of `id`. -/
def calcRelativeIds (m : TxLinksMap I) (id : I) (relation : Relation) : Finset I :=
  m.calcRelationIds (m.directIds relation id) relation

def calcAncestors (m : TxLinksMap I) (id : I) : Finset I := m.calcRelativeIds id .parents

def calcDescendants (m : TxLinksMap I) (id : I) : Finset I := m.calcRelativeIds id .children

def getChildren (m : TxLinksMap I) (id : I) : Option (Finset I) := (m.inner.lookup id).map (·.children)

def getParents (m : TxLinksMap I) (id : I) : Option (Finset I) := (m.inner.lookup id).map (·.parents)

/-- `add_link`: insert or replace the links of `id`. -/
def addLink (m : TxLinksMap I) (id : I) (links : TxLinks I) : TxLinksMap I := ⟨m.inner.insert id links⟩

def remove (m : TxLinksMap I) (id : I) : TxLinksMap I := ⟨m.inner.erase id⟩

def removeChild (m : TxLinksMap I) (id child : I) : TxLinksMap I :=
  ⟨m.inner.modify id fun links => { links with children := links.children.erase child }⟩

def removeParent (m : TxLinksMap I) (id parent : I) : TxLinksMap I :=
  ⟨m.inner.modify id fun links => { links with parents := links.parents.erase parent }⟩

def addChild (m : TxLinksMap I) (id child : I) : TxLinksMap I :=
  ⟨m.inner.modify id fun links => { links with children := insert child links.children }⟩

def addParent (m : TxLinksMap I) (id parent : I) : TxLinksMap I :=
  ⟨m.inner.modify id fun links => { links with parents := insert parent links.parents }⟩

theorem directIds_subset_mentioned (m : TxLinksMap I) (relation : Relation) (id : I) :
    m.directIds relation id ⊆ m.mentioned relation := by
  intro other member
  cases found : m.inner.lookup id with
  | none => simp [directIds, found] at member
  | some links =>
    have present : id ∈ m.inner.keys := Finmap.mem_keys.mpr (Finmap.mem_of_lookup_eq_some found)
    exact Finset.mem_biUnion.mpr ⟨id, present, member⟩

theorem calcRelationIds_exhausts (m : TxLinksMap I) (stage : Finset I) (relation : Relation) :
    (Worklist.walk (m.directIds relation) ((stage ∪ m.mentioned relation).card + 1) stage ∅).1 = ∅ :=
  Worklist.walk_exhausts
    (fun id => (m.directIds_subset_mentioned relation id).trans Finset.subset_union_right)
    Finset.subset_union_left

theorem mem_calcRelationIds (m : TxLinksMap I) (stage : Finset I) (relation : Relation) (id : I) :
    id ∈ m.calcRelationIds stage relation ↔ Worklist.Reach (m.directIds relation) stage id :=
  Worklist.mem_closure
    (fun id => (m.directIds_subset_mentioned relation id).trans Finset.subset_union_right)
    Finset.subset_union_left id

theorem subset_calcRelationIds (m : TxLinksMap I) (stage : Finset I) (relation : Relation) :
    stage ⊆ m.calcRelationIds stage relation := by
  intro id member
  rw [mem_calcRelationIds]
  exact ⟨id, member, .refl⟩

end TxLinksMap

end Ckb.TxPool
