import Ckb.TxPool.Frame
import Ckb.TxPool.LinkSpec
import Ckb.TxPool.EdgeSpec

/-!
What it means for the pool map's redundant indexes to agree with its entries. The edge indexes
may be out of date at a set of freed out points: `resolve_conflict` empties an out point's slot
before it removes the entries that use it, and the statement says which slots are allowed to lag.
The link sets may lack entries whose links were stripped ahead of their removal.
-/

namespace Ckb.TxPool

variable {H I : Type} [LinearOrder I] (env : PoolEnv H I)

section Predicates

variable (entries : FiniteMap I (PoolEntry H I))

/-- The entry `id` spends the out point `o`. -/
def Spends (id : I) (o : OutPoint H) : Prop :=
  ∃ e, entries.lookup id = some e ∧ o ∈ e.inner.transaction.inputPts

/-- The entry `id` uses the out point `o` as a cell dep or a dep group. -/
def DependsOn (id : I) (o : OutPoint H) : Prop :=
  ∃ e, entries.lookup id = some e ∧ o ∈ e.inner.relatedDepOutPoints

def HasHeaderDeps (id : I) : Prop :=
  ∃ e, entries.lookup id = some e ∧ e.inner.transaction.headerDeps ≠ []

end Predicates

/-- The second map's entries are entries of the first with the same transactions. -/
def TxsWithin (m₂ m₁ : FiniteMap I (PoolEntry H I)) : Prop :=
  ∀ id e₂, m₂.lookup id = some e₂ → ∃ e₁, m₁.lookup id = some e₁ ∧ e₁.inner.rtx = e₂.inner.rtx

namespace TxsWithin

variable {m₁ m₂ m₃ : FiniteMap I (PoolEntry H I)}

theorem refl (m : FiniteMap I (PoolEntry H I)) : TxsWithin m m := fun _ e found => ⟨e, found, rfl⟩

theorem trans (inner : TxsWithin m₃ m₂) (outer : TxsWithin m₂ m₁) : TxsWithin m₃ m₁ := by
  intro id e₃ found₃
  obtain ⟨e₂, found₂, same₂⟩ := inner id e₃ found₃
  obtain ⟨e₁, found₁, same₁⟩ := outer id e₂ found₂
  exact ⟨e₁, found₁, same₁.trans same₂⟩

theorem of_sameFrames (same : SameFrames m₂ m₁) : TxsWithin m₂ m₁ := by
  intro id e₂ found₂
  obtain ⟨e₁, found₁, frame⟩ := same.exists_of_lookup found₂
  refine ⟨e₁, found₁, ?_⟩
  simp only [PoolEntry.frame, Prod.mk.injEq] at frame
  exact frame.2.2.1

theorem erase (m : FiniteMap I (PoolEntry H I)) (id : I) : TxsWithin (m.erase id) m := by
  intro k e found
  have other : k ≠ id := by
    rintro rfl
    simp at found
  exact ⟨e, by rwa [Finmap.lookup_erase_ne other] at found, rfl⟩

theorem insert_same {m : FiniteMap I (PoolEntry H I)} {id : I} {e e' : PoolEntry H I}
    (found : m.lookup id = some e) (same : e'.inner.rtx = e.inner.rtx) :
    TxsWithin (m.insert id e') m ∧ TxsWithin m (m.insert id e') := by
  constructor
  · intro k e₂ found₂
    by_cases here : k = id
    · subst here
      rw [Finmap.lookup_insert] at found₂
      cases found₂
      exact ⟨e, found, same.symm⟩
    · rw [Finmap.lookup_insert_of_ne _ here] at found₂
      exact ⟨e₂, found₂, rfl⟩
  · intro k e₁ found₁
    by_cases here : k = id
    · subst here
      rw [found] at found₁
      cases found₁
      exact ⟨e', Finmap.lookup_insert _, same⟩
    · exact ⟨e₁, by rwa [Finmap.lookup_insert_of_ne _ here], rfl⟩

theorem mem (within : TxsWithin m₂ m₁) {id : I} (member : id ∈ m₂) : id ∈ m₁ := by
  obtain ⟨e₂, found₂⟩ := Finmap.mem_iff.mp member
  obtain ⟨e₁, found₁, -⟩ := within id e₂ found₂
  exact Finmap.mem_of_lookup_eq_some found₁

theorem spends (within : TxsWithin m₂ m₁) {id : I} {o : OutPoint H} (spends : Spends m₂ id o) :
    Spends m₁ id o := by
  obtain ⟨e₂, found₂, input⟩ := spends
  obtain ⟨e₁, found₁, same⟩ := within id e₂ found₂
  exact ⟨e₁, found₁, by rwa [TxEntry.transaction, same]⟩

theorem dependsOn (within : TxsWithin m₂ m₁) {id : I} {o : OutPoint H} (depends : DependsOn m₂ id o) :
    DependsOn m₁ id o := by
  obtain ⟨e₂, found₂, dep⟩ := depends
  obtain ⟨e₁, found₁, same⟩ := within id e₂ found₂
  exact ⟨e₁, found₁, by rwa [TxEntry.relatedDepOutPoints, same]⟩

end TxsWithin

variable [DecidableEq H]

omit [DecidableEq H] in
theorem exists_congr_of_within {m₁ m₂ : FiniteMap I (PoolEntry H I)} (down : TxsWithin m₁ m₂)
    (up : TxsWithin m₂ m₁) (P : ResolvedTransaction H → Prop) (id : I) :
    (∃ e, m₁.lookup id = some e ∧ P e.inner.rtx) ↔ (∃ e, m₂.lookup id = some e ∧ P e.inner.rtx) := by
  constructor
  · rintro ⟨e₁, found₁, holds⟩
    obtain ⟨e₂, found₂, same⟩ := down id e₁ found₁
    exact ⟨e₂, found₂, same ▸ holds⟩
  · rintro ⟨e₂, found₂, holds⟩
    obtain ⟨e₁, found₁, same⟩ := up id e₂ found₂
    exact ⟨e₁, found₁, same ▸ holds⟩

/-- The edge indexes agree with the entries, except that the input slots in `freedInputs` and the
dep slots in `freedDeps` are already empty. -/
structure EdgesExact (freedInputs freedDeps : Finset (OutPoint H))
    (entries : FiniteMap I (PoolEntry H I)) (edges : Edges H I) : Prop where
  keyed : ∀ id e, entries.lookup id = some e → e.inner.proposalShortId env = id
  single_spender : ∀ o id id', Spends entries id o → Spends entries id' o → id = id'
  inputs_exact : ∀ o id, edges.inputs.lookup o = some id ↔ o ∉ freedInputs ∧ Spends entries id o
  deps_nonempty : ∀ o ids, edges.deps.lookup o = some ids → ids.Nonempty
  deps_exact : ∀ o id, id ∈ (edges.deps.lookup o).getD ∅ ↔ o ∉ freedDeps ∧ DependsOn entries id o
  headerDeps_exact : ∀ id, id ∈ edges.headerDeps ↔ HasHeaderDeps entries id

/-- Every id with links is an entry, and the parent and child sets mirror each other. -/
structure LinksWithin (entries : FiniteMap I (PoolEntry H I)) (links : TxLinksMap I) : Prop where
  linked : ∀ id, id ∈ links.inner → id ∈ entries
  symmetric : links.Symmetric

/-- The status counters count the entries of each status and the total size sums their sizes. -/
structure CountersExact (s : PoolMap H I) : Prop where
  counts : ∀ status, s.counter status = s.countStatus status
  total_size : s.totalTxSize = s.sumSizes

structure Consistent (freedInputs freedDeps : Finset (OutPoint H)) (s : PoolMap H I) : Prop where
  edges : EdgesExact env freedInputs freedDeps s.entries s.edges
  links : LinksWithin s.entries s.links
  counters : CountersExact s

/-- The ids with links are exactly the entries. -/
def KeysAgree (s : PoolMap H I) : Prop := ∀ id, id ∈ s.links.inner ↔ id ∈ s.entries

section EdgesExactLemmas

variable {env} {freedInputs freedDeps : Finset (OutPoint H)}

namespace EdgesExact

theorem congr {m₁ m₂ : FiniteMap I (PoolEntry H I)} {edges : Edges H I} (down : TxsWithin m₁ m₂)
    (up : TxsWithin m₂ m₁) (exact : EdgesExact env freedInputs freedDeps m₂ edges) :
    EdgesExact env freedInputs freedDeps m₁ edges := by
  have spends : ∀ id o, Spends m₁ id o ↔ Spends m₂ id o := fun id o =>
    exists_congr_of_within down up (fun rtx => o ∈ rtx.transaction.inputPts) id
  have depends : ∀ id o, DependsOn m₁ id o ↔ DependsOn m₂ id o := fun id o =>
    exists_congr_of_within down up (fun rtx => o ∈ rtx.relatedDepOutPoints) id
  have headers : ∀ id, HasHeaderDeps m₁ id ↔ HasHeaderDeps m₂ id := fun id =>
    exists_congr_of_within down up (fun rtx => rtx.transaction.headerDeps ≠ []) id
  refine ⟨?_, ?_, ?_, exact.deps_nonempty, ?_, ?_⟩
  · intro id e₁ found₁
    obtain ⟨e₂, found₂, same⟩ := down id e₁ found₁
    have keyed := exact.keyed id e₂ found₂
    rwa [TxEntry.proposalShortId, TxEntry.transaction, same] at keyed
  · intro o id id' first second
    exact exact.single_spender o id id' ((spends id o).mp first) ((spends id' o).mp second)
  · intro o id
    rw [spends]
    exact exact.inputs_exact o id
  · intro o id
    rw [depends]
    exact exact.deps_exact o id
  · intro id
    rw [headers]
    exact exact.headerDeps_exact id

theorem of_sameFrames {m₁ m₂ : FiniteMap I (PoolEntry H I)} {edges : Edges H I}
    (same : SameFrames m₁ m₂) (exact : EdgesExact env freedInputs freedDeps m₂ edges) :
    EdgesExact env freedInputs freedDeps m₁ edges :=
  exact.congr (TxsWithin.of_sameFrames same) (TxsWithin.of_sameFrames same.symm)

theorem free_input {m : FiniteMap I (PoolEntry H I)} {edges : Edges H I}
    (exact : EdgesExact env freedInputs freedDeps m edges) (i : OutPoint H) :
    EdgesExact env (insert i freedInputs) freedDeps m { edges with inputs := edges.inputs.erase i } := by
  refine { exact with inputs_exact := ?_ }
  intro o id
  by_cases same : o = i
  · subst same
    simp
  · simp [Finmap.lookup_erase_ne same, same, exact.inputs_exact o id]

theorem free_deps {m : FiniteMap I (PoolEntry H I)} {edges : Edges H I}
    (exact : EdgesExact env freedInputs freedDeps m edges) (i : OutPoint H) :
    EdgesExact env freedInputs (insert i freedDeps) m { edges with deps := edges.deps.erase i } := by
  refine { exact with deps_nonempty := ?_, deps_exact := ?_ }
  · intro o ids found
    by_cases same : o = i
    · subst same
      simp at found
    · rw [Finmap.lookup_erase_ne same] at found
      exact exact.deps_nonempty o ids found
  · intro o id
    by_cases same : o = i
    · subst same
      simp
    · simp [Finmap.lookup_erase_ne same, same, exact.deps_exact o id]

theorem unfree_input {m : FiniteMap I (PoolEntry H I)} {edges : Edges H I} {i : OutPoint H}
    (exact : EdgesExact env (insert i freedInputs) freedDeps m edges) (unspent : ∀ id, ¬ Spends m id i) :
    EdgesExact env freedInputs freedDeps m edges := by
  refine { exact with inputs_exact := ?_ }
  intro o id
  rw [exact.inputs_exact o id]
  by_cases same : o = i
  · subst same
    simp [unspent id]
  · simp [same]

theorem unfree_deps {m : FiniteMap I (PoolEntry H I)} {edges : Edges H I} {i : OutPoint H}
    (exact : EdgesExact env freedInputs (insert i freedDeps) m edges) (unused : ∀ id, ¬ DependsOn m id i) :
    EdgesExact env freedInputs freedDeps m edges := by
  refine { exact with deps_exact := ?_ }
  intro o id
  rw [exact.deps_exact o id]
  by_cases same : o = i
  · subst same
    simp [unused id]
  · simp [same]

end EdgesExact

end EdgesExactLemmas

end Ckb.TxPool
