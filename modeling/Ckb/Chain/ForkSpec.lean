import Ckb.Chain.MainChain

namespace Ckb

variable {H : Type} [DecidableEq H]

/-- The ext that `get_block_ext(..).expect(..)` reads for a block. -/
def storedExt (store : Store H) (block : Block H) : BlockExt :=
  (store.getBlockExt block.hash).getD ⟨0, 0, none, []⟩

/-- The attached blocks split into a lower part, up to the first verified block the walk met, and
an upper part whose exts are the dirty exts with the new tip's ext last. -/
structure DirtySplit (store : Store H) (newExt : BlockExt) (lower upper : List (Block H))
    (dirty : List BlockExt) (unseen : Bool) : Prop where
  upper_ne_nil : upper ≠ []
  dirty_eq : dirty = upper.dropLast.map (storedExt store) ++ [newExt]
  unverified : ∀ block ∈ upper.dropLast, (storedExt store block).verified = none
  lower_nil : unseen = true → lower = []
  lower_last : unseen = false → ∃ block, lower.getLast? = some block ∧ (storedExt store block).verified ≠ none

/-- Where `find_fork` stands: at height `i` of the new chain, with the blocks above it attached. -/
structure Walk (store : Store H) (newExt : BlockExt) (newChain : List (Block H)) (i : Nat)
    (fork : ForkChanges H) (index : GlobalIndex H) : Prop where
  number : index.number = i
  hash : newChain[i]?.map Block.hash = some index.hash
  attached : fork.attachedBlocks = newChain.drop (i + 1)
  split : ∃ lower upper, newChain.drop (i + 1) = lower ++ upper ∧
    DirtySplit store newExt lower upper fork.dirtyExts index.unseen

theorem drop_eq_cons_of_getElem? {α : Type} {l : List α} {n : Nat} {a : α} (found : l[n]? = some a) :
    l.drop n = a :: l.drop (n + 1) := by
  obtain ⟨lt, same⟩ := List.getElem?_eq_some_iff.mp found
  rw [List.drop_eq_getElem_cons lt, same]

theorem zip_map_self {α β : Type} (f : α → β) (l : List α) : (l.map f).zip l = l.map fun a => (f a, a) := by
  induction l with
  | nil => rfl
  | cons a rest ih => simp [ih]

namespace DirtySplit

variable {store : Store H} {newExt : BlockExt} {lower upper : List (Block H)} {dirty : List BlockExt} {unseen : Bool}
  (split : DirtySplit store newExt lower upper dirty unseen)
include split

theorem length_dirty : dirty.length = upper.length := by
  have nonempty := List.length_pos_iff.mpr split.upper_ne_nil
  rw [split.dirty_eq, List.length_append, List.length_map, List.length_dropLast, List.length_singleton]
  omega

theorem mem_zip {pair : BlockExt × Block H} :
    pair ∈ dirty.zip upper ↔ (pair.2 ∈ upper.dropLast ∧ pair.1 = storedExt store pair.2) ∨
      (upper.getLast? = some pair.2 ∧ pair.1 = newExt) := by
  obtain ⟨rest, top, split'⟩ : ∃ rest top, upper = rest ++ [top] :=
    ⟨_, _, (List.dropLast_append_getLast split.upper_ne_nil).symm⟩
  rw [split.dirty_eq, split', List.dropLast_concat, List.getLast?_concat,
    List.zip_append (by rw [List.length_map]), zip_map_self]
  simp only [List.zip_cons_cons, List.zip_nil_right, List.mem_append, List.mem_map, List.mem_singleton,
    Option.some.injEq]
  constructor
  · intro member
    rcases member with ⟨block, inRest, rfl⟩ | rfl
    · exact .inl ⟨inRest, rfl⟩
    · exact .inr ⟨rfl, rfl⟩
  · intro member
    rcases member with ⟨inRest, first⟩ | ⟨last, first⟩
    · exact .inl ⟨pair.2, inRest, Prod.ext first.symm rfl⟩
    · exact .inr (Prod.ext first last.symm)

end DirtySplit

section Walk

variable {store : Store H} {newExt : BlockExt}

theorem takeDirtyExt_split {fork : ForkChanges H} {index : GlobalIndex H} {block : Block H}
    (hash : index.hash = block.hash) (ext : store.getBlockExt block.hash = some (storedExt store block))
    {lower upper : List (Block H)} (split : DirtySplit store newExt lower upper fork.dirtyExts index.unseen) :
    ∃ fork' index', takeDirtyExt store fork index = some (fork', index') ∧
      fork'.attachedBlocks = fork.attachedBlocks ∧ fork'.detachedBlocks = fork.detachedBlocks ∧
      index'.number = index.number ∧ index'.hash = index.hash ∧
      ∃ lower' upper', block :: (lower ++ upper) = lower' ++ upper' ∧
        DirtySplit store newExt lower' upper' fork'.dirtyExts index'.unseen := by
  cases unseen : index.unseen
  · -- past a verified block the walk only records the block
    rw [unseen] at split
    obtain ⟨top, last, verified⟩ := split.lower_last rfl
    refine ⟨fork, index, by simp [takeDirtyExt, unseen], rfl, rfl, rfl, rfl, block :: lower, upper, rfl, ?_⟩
    refine ⟨split.upper_ne_nil, split.dirty_eq, split.unverified, by simp [unseen], fun _ => ⟨top, ?_, verified⟩⟩
    rw [List.getLast?_cons, last]
    rfl
  · rw [unseen] at split
    have noLower := split.lower_nil rfl
    subst noLower
    by_cases fresh : (storedExt store block).verified = none
    · refine ⟨{ fork with dirtyExts := storedExt store block :: fork.dirtyExts }, index,
        by simp [takeDirtyExt, unseen, hash, ext, fresh], rfl, rfl, rfl, rfl, [], block :: upper, rfl, ?_⟩
      have dropLast : (block :: upper).dropLast = block :: upper.dropLast := List.dropLast_cons_of_ne_nil split.upper_ne_nil
      refine ⟨List.cons_ne_nil _ _, by rw [dropLast, split.dirty_eq]; rfl, ?_, fun _ => rfl, by simp [unseen]⟩
      rw [dropLast]
      intro member inUpper
      rcases List.mem_cons.mp inUpper with first | rest
      · rw [first]
        exact fresh
      · exact split.unverified member rest
    · refine ⟨fork, { index with unseen := false }, by simp [takeDirtyExt, unseen, hash, ext, fresh], rfl, rfl,
        rfl, rfl, [block], upper, rfl, ?_⟩
      exact ⟨split.upper_ne_nil, split.dirty_eq, split.unverified, by simp, fun _ => ⟨block, rfl, fresh⟩⟩

variable {newChain : List (Block H)}
  (linkedNew : ∀ (j : Nat) (block : Block H), newChain[j + 1]? = some block → newChain[j]?.map Block.hash = some block.parentHash)
  (knownNew : ∀ (j : Nat) (block : Block H), j + 1 < newChain.length → newChain[j]? = some block →
    store.getBlock block.hash = some (some block) ∧ store.getBlockExt block.hash = some (storedExt store block))
include linkedNew knownNew

/-- One step of either loop: the ext of the index's block is taken, the block attached, and the
walk moves to its parent. -/
theorem Walk.step {i : Nat} {fork : ForkChanges H} {index : GlobalIndex H}
    (walk : Walk store newExt newChain (i + 1) fork index) (inner : i + 2 < newChain.length) :
    ∃ block fork' index', newChain[i + 1]? = some block ∧ takeDirtyExt store fork index = some (fork', index') ∧
      index'.hash = block.hash ∧ store.getBlock block.hash = some (some block) ∧
      fork'.detachedBlocks = fork.detachedBlocks ∧
      Walk store newExt newChain i { fork' with attachedBlocks := block :: fork'.attachedBlocks }
        (index'.forward block.parentHash) := by
  obtain ⟨block, found⟩ : ∃ block, newChain[i + 1]? = some block := ⟨_, List.getElem?_eq_getElem (by omega)⟩
  have sameHash : index.hash = block.hash := by
    have hashed := walk.hash
    rw [found] at hashed
    exact (Option.some.inj hashed).symm
  obtain ⟨stored, ext⟩ := knownNew (i + 1) block (by omega) found
  obtain ⟨lower, upper, drop, split⟩ := walk.split
  obtain ⟨fork', index', took, attached, detached, number, hash', lower', upper', cons, split'⟩ :=
    takeDirtyExt_split sameHash ext split
  have dropCons := drop_eq_cons_of_getElem? found
  refine ⟨block, fork', index', found, took, hash'.trans sameHash, stored, detached,
    by simp [GlobalIndex.forward, number, walk.number], linkedNew i block found, ?_, lower', upper', ?_, split'⟩
  · simp [attached, walk.attached, dropCons]
  · rw [dropCons, drop, cons]

theorem alignAttached_walk (currentTipNumber : Nat) :
    ∀ i (fork : ForkChanges H) (index : GlobalIndex H), Walk store newExt newChain i fork index →
      i + 1 < newChain.length →
      ∃ fork' index', alignAttached store currentTipNumber i fork index = some (fork', index') ∧
        Walk store newExt newChain (min i currentTipNumber) fork' index' ∧
        fork'.detachedBlocks = fork.detachedBlocks := by
  intro i
  induction i with
  | zero =>
    intro fork index walk _
    exact ⟨fork, index, rfl, by simpa using walk, rfl⟩
  | succ i ih =>
    intro fork index walk inner
    by_cases above : i + 1 > currentTipNumber
    · obtain ⟨block, fork', index', -, took, hash', stored, detached, walk'⟩ := walk.step linkedNew knownNew inner
      obtain ⟨fork'', index'', ran, walk'', detached''⟩ := ih _ _ walk' (by omega)
      refine ⟨fork'', index'', ?_, by rwa [show min (i + 1) currentTipNumber = min i currentTipNumber by omega],
        detached''.trans detached⟩
      rw [alignAttached, if_pos (by rw [walk.number]; exact above)]
      simp [took, hash', stored, ran]
    · refine ⟨fork, index, ?_, by rwa [show min (i + 1) currentTipNumber = i + 1 by omega], rfl⟩
      rw [alignAttached, if_neg (by rw [walk.number]; exact above)]
      rfl

variable {main : List (Block H)}
  (mainIndex : ∀ n, store.getBlockHash n = main[n]?.map Block.hash)
  (mainStored : ∀ (n : Nat) (block : Block H), main[n]? = some block → store.getBlock block.hash = some (some block))
  (meet : ∀ (j : Nat) (block block' : Block H), j + 1 < newChain.length → newChain[j]? = some block → main[j]? = some block' →
    block.hash = block'.hash → block = block')
  (root : newChain[0]? = main[0]?)
include mainIndex mainStored meet root

/-- The second loop goes down both chains until they meet, detaching the main chain's blocks; at
every height it passes the two chains differ. -/
theorem findForkUntilLatestCommon_highest :
    ∀ i (fork : ForkChanges H) (index : GlobalIndex H), Walk store newExt newChain i fork index →
      i + 1 < newChain.length → i < main.length → fork.detachedBlocks = main.drop (i + 1) →
      ∃ k fork' index', k ≤ i ∧ findForkUntilLatestCommon store i fork index = some (fork', index') ∧
        Walk store newExt newChain k fork' index' ∧ fork'.detachedBlocks = main.drop (k + 1) ∧
        newChain[k]? = main[k]? ∧ ∀ j, k < j → j ≤ i → newChain[j]?.map Block.hash ≠ main[j]?.map Block.hash := by
  intro i
  induction i with
  | zero =>
    intro fork index walk _ _ detached
    exact ⟨0, fork, index, le_refl 0, rfl, walk, detached, root, fun j above below => absurd below (by omega)⟩
  | succ i ih =>
    intro fork index walk inner inMain detached
    obtain ⟨old, oldFound⟩ : ∃ old, main[i + 1]? = some old := ⟨_, List.getElem?_eq_getElem inMain⟩
    have oldHash : store.getBlockHash index.number = some old.hash := by rw [walk.number, mainIndex, oldFound]; rfl
    have notZero : index.number ≠ 0 := by rw [walk.number]; omega
    by_cases same : old.hash = index.hash
    · -- the chains meet at this height
      refine ⟨i + 1, fork, index, le_refl _, ?_, walk, detached, ?_, fun j above below => absurd below (by omega)⟩
      · rw [findForkUntilLatestCommon, if_neg notZero]
        simp [oldHash, same]
      · obtain ⟨block, found⟩ : ∃ block, newChain[i + 1]? = some block := ⟨_, List.getElem?_eq_getElem (by omega)⟩
        have hashed := walk.hash
        rw [found, Option.map_some, Option.some_inj] at hashed
        rw [found, oldFound, meet (i + 1) block old inner found oldFound (hashed.trans same.symm)]
    · have walk' : Walk store newExt newChain (i + 1) { fork with detachedBlocks := old :: fork.detachedBlocks } index :=
        ⟨walk.number, walk.hash, walk.attached, walk.split⟩
      obtain ⟨block, fork', index', -, took, hash', stored, detachedStep, walk''⟩ := walk'.step linkedNew knownNew inner
      have detached' : (({ fork' with attachedBlocks := block :: fork'.attachedBlocks } : ForkChanges H)).detachedBlocks =
          main.drop (i + 1) := by
        rw [drop_eq_cons_of_getElem? oldFound]
        simp [detachedStep, detached]
      obtain ⟨k, fork'', index'', below, ran, walkK, detachedK, meetK, differK⟩ :=
        ih _ _ walk'' (by omega) (by omega) detached'
      refine ⟨k, fork'', index'', by omega, ?_, walkK, detachedK, meetK, fun j above below => ?_⟩
      · rw [findForkUntilLatestCommon, if_neg notZero]
        simp [oldHash, same, mainStored (i + 1) old oldFound, took, hash', stored, ran]
      · by_cases lower : j ≤ i
        · exact differK j above lower
        · -- the height this turn detached
          rw [show j = i + 1 by omega, walk.hash, oldFound, Option.map_some]
          exact fun wrong => same (Option.some_inj.mp wrong).symm

/-- `find_fork` of a new tip at height `block.number` of the new chain: the fork is the two chains
above the highest height below the tip where they meet, with the dirty exts split off the attached
blocks. -/
theorem findFork_eq_highest {currentTipNumber : Nat} {block : Block H}
    (newLength : newChain.length = block.number + 1) (newTop : newChain[block.number]? = some block)
    (notGenesis : block.number ≠ 0) (mainLength : main.length = currentTipNumber + 1) :
    ∃ k fork, findFork store {} currentTipNumber block newExt = some fork ∧ newChain[k]? = main[k]? ∧
      k + 1 < newChain.length ∧ k < main.length ∧
      (∀ j, k < j → j < block.number → newChain[j]?.map Block.hash ≠ main[j]?.map Block.hash) ∧
      fork.attachedBlocks = newChain.drop (k + 1) ∧ fork.detachedBlocks = main.drop (k + 1) ∧
      ∃ lower upper unseen, fork.attachedBlocks = lower ++ upper ∧
        DirtySplit store newExt lower upper fork.dirtyExts unseen := by
  set start : ForkChanges H := { dirtyExts := [newExt], attachedBlocks := [block] }
  set index : GlobalIndex H := ⟨block.number - 1, block.parentHash, true⟩
  have parentAt := linkedNew (block.number - 1) block (by rw [Nat.sub_add_cancel (Nat.pos_of_ne_zero notGenesis)]; exact newTop)
  have walk : Walk store newExt newChain (block.number - 1) start index := by
    have top : newChain.drop (block.number - 1 + 1) = [block] := by
      rw [Nat.sub_add_cancel (Nat.pos_of_ne_zero notGenesis), drop_eq_cons_of_getElem? newTop,
        List.drop_eq_nil_of_le (by omega)]
    refine ⟨rfl, parentAt, top.symm, [], [block], by rw [top]; rfl, ?_⟩
    exact ⟨List.cons_ne_nil _ _, rfl, by simp, fun _ => rfl, by simp [index]⟩
  -- after `alignment_fork` the walk stands at the lower of the two tips' heights; above it the main
  -- chain has no block
  obtain ⟨i, fork, index', aligned, walkI, inner, inMain, detachedI, outside⟩ : ∃ i fork index',
      alignmentFork store start index block.number currentTipNumber = some (fork, index') ∧
      Walk store newExt newChain i fork index' ∧ i + 1 < newChain.length ∧ i < main.length ∧
      fork.detachedBlocks = main.drop (i + 1) ∧ ∀ j, i < j → j < block.number → main[j]? = none := by
    by_cases lower : block.number ≤ currentTipNumber
    · refine ⟨block.number - 1, { start with detachedBlocks := main.drop block.number }, index, ?_,
        ⟨walk.number, walk.hash, walk.attached, walk.split⟩,
        by omega, by omega, by rw [Nat.sub_add_cancel (Nat.pos_of_ne_zero notGenesis)],
        fun j above below => absurd below (by omega)⟩
      have read : ∀ bn ∈ List.range' block.number (currentTipNumber + 1 - block.number),
          ((store.getBlockHash bn).bind fun hash => store.getBlock hash) = some main[bn]? := by
        intro bn member
        obtain ⟨old, found⟩ : ∃ old, main[bn]? = some old :=
          ⟨_, List.getElem?_eq_getElem (by rw [List.mem_range'_1] at member; omega)⟩
        simp [mainIndex, found, mainStored bn old found]
      rw [alignmentFork, if_pos lower]
      simp only [Option.bind_eq_bind]
      rw [mapM_option_eq_some_map read, Option.bind_some, ← mainLength, mapM_range'_getElem?]
      rfl
    · obtain ⟨fork, index', ran, walk', detached⟩ :=
        alignAttached_walk linkedNew knownNew currentTipNumber _ start index walk (by omega)
      refine ⟨currentTipNumber, fork, index', ?_, by rwa [show min (block.number - 1) currentTipNumber = currentTipNumber by omega] at walk',
        by omega, by omega, by rw [detached, List.drop_eq_nil_of_le (by omega)],
        fun j above _ => List.getElem?_eq_none (by omega)⟩
      rw [alignmentFork, if_neg lower]
      exact ran
  obtain ⟨k, fork', index'', below, ran, walkK, detachedK, meetK, differK⟩ :=
    findForkUntilLatestCommon_highest linkedNew knownNew mainIndex mainStored meet root i fork index' walkI inner inMain
      detachedI
  have differ : ∀ j, k < j → j < block.number → newChain[j]?.map Block.hash ≠ main[j]?.map Block.hash := by
    intro j above top
    by_cases within : j ≤ i
    · exact differK j above within
    · obtain ⟨new, found⟩ : ∃ new, newChain[j]? = some new := ⟨_, List.getElem?_eq_getElem (by omega)⟩
      rw [found, outside j (by omega) top]
      exact Option.some_ne_none _
  obtain ⟨lower, upper, drop, split⟩ := walkK.split
  refine ⟨k, fork', ?_, meetK, ?_, ?_, differ, walkK.attached, detachedK, lower, upper, index''.unseen,
    walkK.attached.trans drop, split⟩
  · simp [findFork, start, index, aligned, walkI.number, ran]
  · omega
  · omega

theorem findFork_eq {currentTipNumber : Nat} {block : Block H}
    (newLength : newChain.length = block.number + 1) (newTop : newChain[block.number]? = some block)
    (notGenesis : block.number ≠ 0) (mainLength : main.length = currentTipNumber + 1) :
    ∃ k fork, findFork store {} currentTipNumber block newExt = some fork ∧ newChain[k]? = main[k]? ∧
      k + 1 < newChain.length ∧ k < main.length ∧
      fork.attachedBlocks = newChain.drop (k + 1) ∧ fork.detachedBlocks = main.drop (k + 1) ∧
      ∃ lower upper unseen, fork.attachedBlocks = lower ++ upper ∧
        DirtySplit store newExt lower upper fork.dirtyExts unseen := by
  obtain ⟨k, fork, found, meetK, inner, inMain, -, attached, detached, dirty⟩ :=
    findFork_eq_highest linkedNew knownNew mainIndex mainStored meet root newLength newTop notGenesis mainLength
  exact ⟨k, fork, found, meetK, inner, inMain, attached, detached, dirty⟩

end Walk

/-- With the lower part verified, the dirty exts are those of the unverified attached blocks below
the new tip, in order, then the new tip's. -/
theorem DirtySplit.dirty_eq_unverified {store : Store H} {newExt : BlockExt} {lower upper : List (Block H)}
    {dirty : List BlockExt} {unseen : Bool} (split : DirtySplit store newExt lower upper dirty unseen)
    (lowerVerified : ∀ block ∈ lower, (storedExt store block).verified ≠ none) :
    dirty = ((lower ++ upper).dropLast.filter fun block => (storedExt store block).verified.isNone).map
      (storedExt store) ++ [newExt] := by
  have lowerOut : lower.filter (fun block => (storedExt store block).verified.isNone) = [] := by
    rw [List.filter_eq_nil_iff]
    intro block member
    simpa [Option.isNone_iff_eq_none] using lowerVerified block member
  have upperKept : upper.dropLast.filter (fun block => (storedExt store block).verified.isNone) = upper.dropLast := by
    rw [List.filter_eq_self]
    intro block member
    simpa [Option.isNone_iff_eq_none] using split.unverified block member
  rw [List.dropLast_append_of_ne_nil split.upper_ne_nil, List.filter_append, lowerOut, upperKept, List.nil_append,
    split.dirty_eq]

omit [DecidableEq H] in
theorem map_number_drop {blocks : List (Block H)} (numbered : ∀ (j : Nat) (block : Block H), blocks[j]? = some block → block.number = j)
    (n : Nat) : (blocks.drop n).map Block.number = List.range' n (blocks.length - n) := by
  apply List.ext_getElem
  · simp
  · intro i inMap inRange
    have inDrop : n + i < blocks.length := by simp at inMap; omega
    rw [List.getElem_map, List.getElem_drop, List.getElem_range',
      numbered (n + i) _ (List.getElem?_eq_getElem inDrop)]
    omega

section Fork

variable {store : Store H} {newChain : List (Block H)}
  (knownNew : ∀ (j : Nat) (block : Block H), j + 1 < newChain.length → newChain[j]? = some block →
    store.getBlock block.hash = some (some block) ∧ store.getBlockExt block.hash = some (storedExt store block))

include knownNew in
theorem meet_of_stored {main : List (Block H)}
    (mainStored : ∀ (n : Nat) (block : Block H), main[n]? = some block → store.getBlock block.hash = some (some block)) :
    ∀ (j : Nat) (block block' : Block H), j + 1 < newChain.length → newChain[j]? = some block → main[j]? = some block' →
      block.hash = block'.hash → block = block' := by
  intro j block block' inner found found' sameHash
  have stored := (knownNew j block inner found).1
  rw [sameHash, mainStored j block' found'] at stored
  exact (Option.some_inj.mp (Option.some_inj.mp stored)).symm

variable (linkedNew : ∀ (j : Nat) (block : Block H), newChain[j + 1]? = some block → newChain[j]?.map Block.hash = some block.parentHash)
  (verifiedClosed : ∀ block parent : Block H, store.getBlock block.hash = some (some block) →
    store.getBlock parent.hash = some (some parent) → parent.hash = block.parentHash →
    (storedExt store block).verified ≠ none → (storedExt store parent).verified ≠ none)
include knownNew linkedNew verifiedClosed

theorem verified_below {q : Nat} {top : Block H} (inner : q + 1 < newChain.length) (found : newChain[q]? = some top)
    (verified : (storedExt store top).verified ≠ none) :
    ∀ d (block : Block H), newChain[q - d]? = some block → (storedExt store block).verified ≠ none := by
  intro d
  induction d with
  | zero =>
    intro block found'
    rw [Nat.sub_zero, found] at found'
    cases found'
    exact verified
  | succ d ih =>
    intro parent found'
    by_cases within : d < q
    · obtain ⟨block, above⟩ : ∃ block, newChain[q - d]? = some block := ⟨_, List.getElem?_eq_getElem (by omega)⟩
      have step : q - (d + 1) + 1 = q - d := by omega
      have linked := linkedNew (q - (d + 1)) block (by rw [step]; exact above)
      rw [found', Option.map_some, Option.some_inj] at linked
      apply verifiedClosed block parent (knownNew _ block (by omega) above).1
        (knownNew _ parent (by omega) found').1 linked (ih block above)
    · rw [show q - (d + 1) = q - d by omega] at found'
      exact ih parent found'

end Fork

/-- `find_fork` from a new tip `block` of height at least one, whose chain `newChain` the store
holds, against a main chain `main` the store indexes by number up to the current tip: it returns,
without a failed `expect`, the blocks of the new chain above the highest height `k` below the tip
where the two chains meet, and the main chain's blocks above the same height, both in increasing
number order and linked by parent hash, with the exts of exactly the attached blocks not yet
verified, the new tip's own ext last. -/
theorem find_fork_splits_at_highest_common_ancestor {store : Store H} {main newChain : List (Block H)}
    {currentTipNumber : Nat} {block : Block H} {newExt : BlockExt}
    (mainLength : main.length = currentTipNumber + 1)
    (mainNumbered : ∀ (j : Nat) (block : Block H), main[j]? = some block → block.number = j)
    (mainIndex : ∀ n, store.getBlockHash n = main[n]?.map Block.hash)
    (mainStored : ∀ (n : Nat) (block : Block H), main[n]? = some block → store.getBlock block.hash = some (some block))
    (newLength : newChain.length = block.number + 1) (newTop : newChain[block.number]? = some block)
    (newNumbered : ∀ (j : Nat) (block : Block H), newChain[j]? = some block → block.number = j)
    (linkedNew : ∀ (j : Nat) (block : Block H), newChain[j + 1]? = some block → newChain[j]?.map Block.hash = some block.parentHash)
    (knownNew : ∀ (j : Nat) (block : Block H), j + 1 < newChain.length → newChain[j]? = some block →
      store.getBlock block.hash = some (some block) ∧ store.getBlockExt block.hash = some (storedExt store block))
    (root : newChain[0]? = main[0]?) (notGenesis : 1 ≤ block.number)
    (verifiedClosed : ∀ block parent : Block H, store.getBlock block.hash = some (some block) →
      store.getBlock parent.hash = some (some parent) → parent.hash = block.parentHash →
      (storedExt store block).verified ≠ none → (storedExt store parent).verified ≠ none) :
    ∃ k fork, findFork store {} currentTipNumber block newExt = some fork ∧
      k < block.number ∧ newChain[k]? = main[k]? ∧
      (∀ j, k < j → j < block.number → newChain[j]?.map Block.hash ≠ main[j]?.map Block.hash) ∧
      fork.attachedBlocks = newChain.drop (k + 1) ∧
      fork.attachedBlocks.map Block.number = List.range' (k + 1) (block.number - k) ∧
      (∀ (j : Nat) (child : Block H), (newChain.drop k)[j + 1]? = some child →
        (newChain.drop k)[j]?.map Block.hash = some child.parentHash) ∧
      fork.detachedBlocks = main.drop (k + 1) ∧
      fork.detachedBlocks.map Block.number = List.range' (k + 1) (currentTipNumber - k) ∧
      fork.dirtyExts = (fork.attachedBlocks.dropLast.filter fun block => (storedExt store block).verified.isNone).map
        (storedExt store) ++ [newExt] := by
  obtain ⟨k, fork, found, meetK, inner, inMain, differ, attached, detached, lower, upper, unseen, split, dirty⟩ :=
    @findFork_eq_highest H _ store newExt newChain linkedNew knownNew main mainIndex mainStored
      (meet_of_stored knownNew mainStored) root currentTipNumber block newLength newTop (by omega) mainLength
  -- the lower part ends at a verified block, so all of it is verified
  have lowerVerified : ∀ b ∈ lower, (storedExt store b).verified ≠ none := by
    cases unseen with
    | true =>
      rw [dirty.lower_nil rfl]
      exact fun _ member => absurd member List.not_mem_nil
    | false =>
      obtain ⟨top, last, verified⟩ := dirty.lower_last rfl
      have upperLength := List.length_pos_iff.mpr dirty.upper_ne_nil
      have lengths : lower.length + upper.length + (k + 1) = newChain.length := by
        have := congrArg List.length (attached.symm.trans split)
        simp only [List.length_drop, List.length_append] at this
        omega
      have lowerLength : 0 < lower.length := by
        cases lower with
        | nil => cases last
        | cons _ _ => simp
      have topAt : newChain[k + lower.length]? = some top := by
        have inDrop : (newChain.drop (k + 1))[lower.length - 1]? = some top := by
          rw [← attached, split, List.getElem?_append_left (by omega), ← List.getLast?_eq_getElem?]
          exact last
        rw [List.getElem?_drop] at inDrop
        rwa [show k + 1 + (lower.length - 1) = k + lower.length by omega] at inDrop
      intro b member
      obtain ⟨p, pLt, bAt⟩ := List.getElem_of_mem member
      have bFound : newChain[k + 1 + p]? = some b := by
        have inDrop : (newChain.drop (k + 1))[p]? = some b := by
          rw [← attached, split, List.getElem?_append_left pLt, List.getElem?_eq_getElem pLt, bAt]
        rwa [List.getElem?_drop] at inDrop
      apply verified_below knownNew linkedNew verifiedClosed (by omega) topAt verified
        (k + lower.length - (k + 1 + p))
      rwa [show k + lower.length - (k + lower.length - (k + 1 + p)) = k + 1 + p by omega]
  refine ⟨k, fork, found, by omega, meetK, differ, attached, ?_, ?_, detached, ?_, ?_⟩
  · rw [attached, map_number_drop newNumbered, newLength]
    congr 1
    omega
  · intro j child below
    rw [List.getElem?_drop] at below ⊢
    exact linkedNew (k + j) child (by rwa [Nat.add_assoc])
  · rw [detached, map_number_drop mainNumbered, mainLength]
    congr 1
    omega
  · rw [dirty.dirty_eq_unverified lowerVerified, ← split]

theorem Store.blockHeader_of_getBlock {store : Store H} {hash : H} {block : Block H}
    (stored : store.getBlock hash = some (some block)) : store.blockHeader.lookup hash = some block.header := by
  unfold Store.getBlock Store.getBlockHeader at stored
  split at stored
  · cases stored
  · rename_i header found
    rw [Option.bind_eq_bind] at stored
    obtain ⟨_, -, stored⟩ := Option.bind_eq_some_iff.mp stored
    rw [Option.bind_eq_bind] at stored
    obtain ⟨_, -, stored⟩ := Option.bind_eq_some_iff.mp stored
    cases stored
    exact found

theorem forall_getElem?_of_forall_lt {α : Type} {l : List α} {P : Nat → α → Prop}
    (all : ∀ j (h : j < l.length), P j l[j]) : ∀ (j : Nat) (a : α), l[j]? = some a → P j a := by
  intro j a found
  obtain ⟨h, rfl⟩ := List.getElem?_eq_some_iff.mp found
  exact all j h

section Samples

/-- A block with no transactions. -/
def forkBlock (hash parentHash number : Nat) : Block Nat := ⟨⟨hash, parentHash, number, ⟨0⟩, 0, 0⟩, [], [], []⟩

/-- The main chain: genesis `10`, then `11` and `12`. -/
def forkMain : List (Block Nat) := [forkBlock 10 0 0, forkBlock 11 10 1, forkBlock 12 11 2]

/-- A chain leaving the main chain after genesis: `21`, `22`, then the new tip `23`. -/
def forkNew : List (Block Nat) := [forkBlock 10 0 0, forkBlock 21 10 1, forkBlock 22 21 2, forkBlock 23 22 3]

def verifiedExt : BlockExt := ⟨0, 0, some true, []⟩

def freshExt : BlockExt := ⟨0, 0, none, []⟩

/-- Both chains below the new tip, the main chain indexed by number; `22` is the one block not yet
verified. -/
def forkStore : Store Nat :=
  { (((((({} : Store Nat).insertBlock (forkBlock 10 0 0)).insertBlock (forkBlock 11 10 1)).insertBlock
      (forkBlock 12 11 2)).insertBlock (forkBlock 21 10 1)).insertBlock (forkBlock 22 21 2)) with
    indexByNumber := (((∅ : FiniteMap Nat Nat).insert 0 10).insert 1 11).insert 2 12
    blockExt := (((((∅ : FiniteMap Nat BlockExt).insert 10 verifiedExt).insert 11 verifiedExt).insert 12 verifiedExt).insert 21 verifiedExt).insert
      22 freshExt }

theorem fork_at_genesis_detaches_main :
    ∃ k fork, findFork forkStore {} 2 (forkBlock 23 22 3) freshExt = some fork ∧
      k < (forkBlock 23 22 3).number ∧ forkNew[k]? = forkMain[k]? ∧
      (∀ j, k < j → j < (forkBlock 23 22 3).number → forkNew[j]?.map Block.hash ≠ forkMain[j]?.map Block.hash) ∧
      fork.attachedBlocks = forkNew.drop (k + 1) ∧
      fork.attachedBlocks.map Block.number = List.range' (k + 1) ((forkBlock 23 22 3).number - k) ∧
      (∀ (j : Nat) (child : Block Nat), (forkNew.drop k)[j + 1]? = some child →
        (forkNew.drop k)[j]?.map Block.hash = some child.parentHash) ∧
      fork.detachedBlocks = forkMain.drop (k + 1) ∧
      fork.detachedBlocks.map Block.number = List.range' (k + 1) (2 - k) ∧
      fork.dirtyExts = (fork.attachedBlocks.dropLast.filter fun block => (storedExt forkStore block).verified.isNone).map
        (storedExt forkStore) ++ [freshExt] := by
  have mainIndex : ∀ n, forkStore.getBlockHash n = forkMain[n]?.map Block.hash := by
    intro n
    rcases n with _ | _ | _ | n
    · rfl
    · rfl
    · rfl
    · have missing : n + 3 ∉ forkStore.indexByNumber := by
        rw [← Finmap.mem_keys, show forkStore.indexByNumber.keys = {0, 1, 2} by decide]
        simp
      rw [Store.getBlockHash, Finmap.lookup_eq_none.mpr missing, List.getElem?_eq_none (by simp [forkMain])]
      rfl
  -- a stored block's parent hash and ext are read off the header and ext columns
  have table : ∀ hash ∈ forkStore.blockHeader.keys, ∀ header ∈ forkStore.blockHeader.lookup hash,
      header.parentHash ≠ 22 ∧ (hash = 22 ∨ ((forkStore.getBlockExt hash).getD ⟨0, 0, none, []⟩).verified ≠ none) := by
    decide
  have verifiedClosed : ∀ block parent : Block Nat, forkStore.getBlock block.hash = some (some block) →
      forkStore.getBlock parent.hash = some (some parent) → parent.hash = block.parentHash →
      (storedExt forkStore block).verified ≠ none → (storedExt forkStore parent).verified ≠ none := by
    intro block parent storedBlock storedParent linked _
    have headerBlock := Store.blockHeader_of_getBlock storedBlock
    have headerParent := Store.blockHeader_of_getBlock storedParent
    have notChild := (table block.hash (Finmap.mem_keys.mpr (Finmap.mem_of_lookup_eq_some headerBlock))
      block.header headerBlock).1
    rcases (table parent.hash (Finmap.mem_keys.mpr (Finmap.mem_of_lookup_eq_some headerParent))
      parent.header headerParent).2 with child | verified
    · exact absurd (linked.symm.trans child) notChild
    · exact verified
  exact find_fork_splits_at_highest_common_ancestor rfl
    (forall_getElem?_of_forall_lt (by decide)) mainIndex (forall_getElem?_of_forall_lt (by decide)) rfl rfl
    (forall_getElem?_of_forall_lt (by decide))
    (fun j block found => by
      simpa using forall_getElem?_of_forall_lt (P := fun j block => j ≥ 1 →
        forkNew[j - 1]?.map Block.hash = some block.parentHash) (by decide) (j + 1) block found (by omega))
    (fun j block inner found => forall_getElem?_of_forall_lt (P := fun j block => j + 1 < forkNew.length →
        forkStore.getBlock block.hash = some (some block) ∧
          forkStore.getBlockExt block.hash = some (storedExt forkStore block)) (by decide) j block found inner)
    rfl (by decide) verifiedClosed

end Samples

end Ckb
