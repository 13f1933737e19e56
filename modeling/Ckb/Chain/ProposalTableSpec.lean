import Ckb.Chain.ProposalTable

namespace Ckb

namespace ProposalTable

variable (proposalTable : ProposalTable)

@[simp] theorem lookup_insert (number : Nat) (ids : Finset ProposalShortId) (n : Nat) :
    (proposalTable.insert number ids).table.lookup n = if n = number then some ids else proposalTable.table.lookup n := by
  unfold insert
  split_ifs with same
  · rw [same, Finmap.lookup_insert]
  · exact Finmap.lookup_insert_of_ne _ same

@[simp] theorem lookup_remove (number n : Nat) :
    (proposalTable.remove number).table.lookup n = if n = number then none else proposalTable.table.lookup n := by
  unfold remove
  split_ifs with same
  · rw [same, Finmap.lookup_erase]
  · exact Finmap.lookup_erase_ne same

@[simp] theorem proposalWindow_insert (number : Nat) (ids : Finset ProposalShortId) :
    (proposalTable.insert number ids).proposalWindow = proposalTable.proposalWindow := rfl

@[simp] theorem proposalWindow_remove (number : Nat) :
    (proposalTable.remove number).proposalWindow = proposalTable.proposalWindow := rfl

theorem mem_rangeIds (inRange : Nat → Prop) [DecidablePred inRange] (id : ProposalShortId) :
    id ∈ proposalTable.rangeIds inRange ↔ ∃ n ids, inRange n ∧ proposalTable.table.lookup n = some ids ∧ id ∈ ids := by
  unfold rangeIds
  simp only [Finset.mem_biUnion, Finset.mem_filter, Finmap.mem_keys]
  constructor
  · intro found
    obtain ⟨n, ⟨present, within⟩, member⟩ := found
    obtain ⟨ids, stored⟩ := Option.isSome_iff_exists.mp (Finmap.lookup_isSome.mpr present)
    rw [stored, Option.getD_some] at member
    exact ⟨n, ids, within, stored, member⟩
  · intro found
    obtain ⟨n, ids, within, stored, member⟩ := found
    refine ⟨n, ⟨Finmap.lookup_isSome.mp (by rw [stored]; rfl), within⟩, ?_⟩
    rw [stored, Option.getD_some]
    exact member

theorem rangeIds_congr {other : ProposalTable} (inRange : Nat → Prop) [DecidablePred inRange]
    (same : ∀ n, inRange n → proposalTable.table.lookup n = other.table.lookup n) :
    proposalTable.rangeIds inRange = other.rangeIds inRange := by
  ext id
  simp only [mem_rangeIds]
  constructor
  · intro found
    obtain ⟨n, ids, within, stored, member⟩ := found
    exact ⟨n, ids, within, (same n within).symm.trans stored, member⟩
  · intro found
    obtain ⟨n, ids, within, stored, member⟩ := found
    exact ⟨n, ids, within, (same n within).trans stored, member⟩

theorem proposalWindow_foldl {α : Type} (step : ProposalTable → α → ProposalTable)
    (keeps : ∀ table a, (step table a).proposalWindow = table.proposalWindow) (l : List α) :
    (l.foldl step proposalTable).proposalWindow = proposalTable.proposalWindow := by
  induction l generalizing proposalTable with
  | nil => rfl
  | cons a rest ih => rw [List.foldl_cons, ih, keeps]

theorem table_foldl_insert {α : Type} (key : α → Nat) (ids : α → Finset ProposalShortId) (l : List α) :
    (l.foldl (fun table a => table.insert (key a) (ids a)) proposalTable).table =
      l.foldl (fun m a => m.insert (key a) (ids a)) proposalTable.table := by
  induction l generalizing proposalTable with
  | nil => rfl
  | cons a rest ih => exact ih _

theorem table_foldl_remove {α : Type} (key : α → Nat) (l : List α) :
    (l.foldl (fun table a => table.remove (key a)) proposalTable).table =
      (l.map key).foldl (fun m k => m.erase k) proposalTable.table := by
  induction l generalizing proposalTable with
  | nil => rfl
  | cons a rest ih => exact ih _

variable (origin : ProposalView) (number : Nat)

theorem proposalWindow_finalize : (proposalTable.finalize origin number).1.proposalWindow = proposalTable.proposalWindow := by
  dsimp only [finalize]
  split_ifs <;> rfl

theorem lookup_finalize (n : Nat) :
    (proposalTable.finalize origin number).1.table.lookup n =
      if 1 < number + 1 - proposalTable.proposalWindow.farthest ∧ n < number + 1 - proposalTable.proposalWindow.farthest
      then none else proposalTable.table.lookup n := by
  dsimp only [finalize]
  by_cases pruned : number + 1 - proposalTable.proposalWindow.farthest > 1
  · simp only [if_pos pruned]
    rw [FiniteMap.lookup_filterKeys]
    by_cases kept : number + 1 - proposalTable.proposalWindow.farthest ≤ n
    · rw [if_pos kept, if_neg (by omega)]
    · rw [if_neg kept, if_pos ⟨pruned, by omega⟩]
  · simp only [if_neg pruned]
    rw [if_neg (by omega)]

theorem rangeIds_filterKeys (first : Nat) (inRange : Nat → Prop) [DecidablePred inRange]
    (above : ∀ n, inRange n → first ≤ n) :
    ({ proposalTable with table := proposalTable.table.filterKeys (first ≤ ·) } : ProposalTable).rangeIds inRange =
      proposalTable.rangeIds inRange :=
  rangeIds_congr _ inRange fun n within => by
    change (proposalTable.table.filterKeys (first ≤ ·)).lookup n = _
    rw [FiniteMap.lookup_filterKeys, if_pos (above n within)]

theorem set_finalize :
    (proposalTable.finalize origin number).2.2.set =
      if number + 1 ≤ proposalTable.proposalWindow.closest then ∅
      else proposalTable.rangeIds fun n => number + 1 - proposalTable.proposalWindow.farthest ≤ n ∧
        n ≤ number + 1 - proposalTable.proposalWindow.closest := by
  dsimp only [finalize]
  by_cases pruned : number + 1 - proposalTable.proposalWindow.farthest > 1
  · simp only [if_pos pruned]
    split_ifs
    · rfl
    · exact proposalTable.rangeIds_filterKeys _ _ fun n within => within.1
  · simp only [if_neg pruned]
    split_ifs <;> rfl

theorem gap_finalize (ordered : proposalTable.proposalWindow.closest ≤ proposalTable.proposalWindow.farthest) :
    (proposalTable.finalize origin number).2.2.gap =
      if number + 1 ≤ proposalTable.proposalWindow.closest then proposalTable.rangeIds (· ≤ number)
      else proposalTable.rangeIds fun n => number + 1 - proposalTable.proposalWindow.closest < n ∧ n ≤ number := by
  dsimp only [finalize]
  by_cases pruned : number + 1 - proposalTable.proposalWindow.farthest > 1
  · simp only [if_pos pruned]
    split_ifs with early
    · omega
    · exact proposalTable.rangeIds_filterKeys _ _ fun n within => by omega
  · simp only [if_neg pruned]
    split_ifs <;> rfl

end ProposalTable

end Ckb
