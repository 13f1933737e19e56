import Ckb.Verification.Uncles

namespace Ckb

namespace UnclesVerifier

variable {H : Type} [DecidableEq H]

/-- The rule for `uncle` when the uncles `done` come before it: `descends` says a header's parent
is one block below it, outside the block's uncles, and `known` that a hash was included already. -/
structure UncleRule (epoch : Extras.EpochExt H) (consensus : UnclesConsensus H)
    (calcProposalsHash : List ProposalShortId → H) (block : BlockView H) (descends : Header H → Prop)
    (known : H → Prop) (done : List (UncleBlockView H)) (uncle : UncleBlockView H) : Prop where
  sameTarget : uncle.header.compactTarget = epoch.compactTarget
  sameEpoch : epoch.number = uncle.header.epoch.number
  below : uncle.header.number < block.header.number
  descendant : (∃ earlier ∈ done, earlier.header.hash = uncle.header.parentHash ∧
    earlier.header.number + 1 = uncle.header.number) ∨ descends uncle.header
  notRepeated : uncle.header.hash ∉ done.map (·.header.hash)
  notKnown : ¬ known uncle.header.hash
  proposalsWithin : uncle.proposals.length ≤ consensus.maxBlockProposalsLimit
  proposalsCommitted : uncle.proposalsHash = calcProposalsHash uncle.proposals
  proposalsDistinct : uncle.proposals.Nodup
  powValid : consensus.powEngineVerify uncle.header = true

section Rule

variable {epoch : Extras.EpochExt H} {consensus : UnclesConsensus H}
  {calcProposalsHash : List ProposalShortId → H} {block : BlockView H}
  {done : List (UncleBlockView H)} {uncle : UncleBlockView H}

omit [DecidableEq H] in
theorem UncleRule.imp {descends descends' : Header H → Prop} {known known' : H → Prop}
    (widen : ∀ header, descends header → descends' header) (narrow : ∀ hash, known' hash → known hash)
    (rule : UncleRule epoch consensus calcProposalsHash block descends known done uncle) :
    UncleRule epoch consensus calcProposalsHash block descends' known' done uncle :=
  { rule with
    descendant := rule.descendant.imp_right (widen _)
    notKnown := fun known' => rule.notKnown (narrow _ known') }

omit [DecidableEq H] in
theorem UncleRule.congr {descends descends' : Header H → Prop} {known known' : H → Prop}
    (sameDescends : ∀ header, descends header ↔ descends' header) (sameKnown : ∀ hash, known hash ↔ known' hash) :
    UncleRule epoch consensus calcProposalsHash block descends known done uncle ↔
      UncleRule epoch consensus calcProposalsHash block descends' known' done uncle :=
  ⟨UncleRule.imp (fun header => (sameDescends header).mp) (fun hash => (sameKnown hash).mpr),
    UncleRule.imp (fun header => (sameDescends header).mpr) (fun hash => (sameKnown hash).mp)⟩

end Rule

/-- `included` maps the hash of each uncle of `done` to its number. -/
def IncludedExact (done : List (UncleBlockView H)) (included : FiniteMap H Nat) : Prop :=
  ∀ hash number, included.lookup hash = some number ↔
    ∃ earlier ∈ done, earlier.header.hash = hash ∧ earlier.header.number = number

namespace IncludedExact

variable {done : List (UncleBlockView H)} {included : FiniteMap H Nat}

theorem empty : IncludedExact [] (∅ : FiniteMap H Nat) := by
  intro hash number
  simp [Finmap.lookup_empty]

theorem mem_iff (exact : IncludedExact done included) (hash : H) :
    hash ∈ included ↔ hash ∈ done.map (·.header.hash) := by
  rw [Finmap.mem_iff, List.mem_map]
  constructor
  · rintro ⟨number, found⟩
    rcases (exact hash number).mp found with ⟨earlier, member, rfl, -⟩
    exact ⟨earlier, member, rfl⟩
  · rintro ⟨earlier, member, rfl⟩
    exact ⟨earlier.header.number, (exact _ _).mpr ⟨earlier, member, rfl, rfl⟩⟩

theorem embedded_iff (exact : IncludedExact done included) (parentHash : H) (number : Nat) :
    ((included.lookup parentHash).map fun n => n + 1 == number).getD false = true ↔
      ∃ earlier ∈ done, earlier.header.hash = parentHash ∧ earlier.header.number + 1 = number := by
  cases found : included.lookup parentHash with
  | none =>
    simp only [Option.map_none, Option.getD_none, Bool.false_eq_true, false_iff, not_exists, not_and]
    intro earlier member same next
    have present := (exact parentHash earlier.header.number).mpr ⟨earlier, member, same, rfl⟩
    rw [found] at present
    cases present
  | some n =>
    simp only [Option.map_some, Option.getD_some, beq_iff_eq]
    rcases (exact parentHash n).mp found with ⟨first, member, same, rfl⟩
    constructor
    · intro next
      exact ⟨first, member, same, next⟩
    · rintro ⟨earlier, member', same', next⟩
      -- the map holds one number under the parent's hash
      have present := (exact parentHash earlier.header.number).mpr ⟨earlier, member', same', rfl⟩
      rw [found, Option.some_inj] at present
      rw [present]
      exact next

theorem insert (exact : IncludedExact done included) (uncle : UncleBlockView H)
    (fresh : uncle.header.hash ∉ done.map (·.header.hash)) :
    IncludedExact (done ++ [uncle]) (included.insert uncle.header.hash uncle.header.number) := by
  intro hash number
  simp only [List.mem_append, List.mem_singleton]
  by_cases same : hash = uncle.header.hash
  · subst same
    rw [Finmap.lookup_insert, Option.some_inj]
    constructor
    · rintro rfl
      exact ⟨uncle, Or.inr rfl, rfl, rfl⟩
    · rintro ⟨earlier, member | rfl, hashEq, rfl⟩
      · exact absurd (List.mem_map.mpr ⟨earlier, member, hashEq⟩) fresh
      · rfl
  · rw [Finmap.lookup_insert_of_ne _ same, exact]
    constructor
    · rintro ⟨earlier, member, rest⟩
      exact ⟨earlier, Or.inl member, rest⟩
    · rintro ⟨earlier, member | rfl, hashEq, rest⟩
      · exact ⟨earlier, member, hashEq, rest⟩
      · exact absurd hashEq.symm same

end IncludedExact

variable (provider : UncleProvider H) (calcProposalsHash : List ProposalShortId → H) (block : BlockView H)

/-- The rule with the provider's answers. -/
abbrev ProviderRule (done : List (UncleBlockView H)) (uncle : UncleBlockView H) : Prop :=
  UncleRule provider.epoch provider.consensus calcProposalsHash block (provider.descendant · = true)
    (provider.doubleInclusion · = true) done uncle

theorem verifyUncle_eq_ok {done : List (UncleBlockView H)} {included included' : FiniteMap H Nat}
    (exact : IncludedExact done included) (uncle : UncleBlockView H) :
    verifyUncle provider calcProposalsHash block included uncle = .ok included' ↔
      ProviderRule provider calcProposalsHash block done uncle ∧
        included' = included.insert uncle.header.hash uncle.header.number := by
  simp only [verifyUncle, Except.throw_bind, Except.ite_throw_eq_ok, ne_eq, not_not, not_le, Bool.not_eq_true',
    Bool.not_eq_false, Bool.or_eq_true, exact.embedded_iff, exact.mem_iff, allInsert_eq_true,
    Finset.notMem_empty, not_false_eq_true, implies_true, and_true, gt_iff_lt, not_lt, pure,
    Except.pure, Except.ok.injEq]
  constructor
  · rintro ⟨target, epochNumber, below, descendant, fresh, notKnown, within, committed, distinct, pow, rfl⟩
    exact ⟨⟨target, epochNumber, below, descendant, fresh, notKnown, within, committed, distinct, pow⟩, rfl⟩
  · rintro ⟨⟨target, epochNumber, below, descendant, fresh, notKnown, within, committed, distinct, pow⟩, rfl⟩
    exact ⟨target, epochNumber, below, descendant, fresh, notKnown, within, committed, distinct, pow, rfl⟩

theorem foldUncles_ok_iff (uncles : List (UncleBlockView H)) :
    (∃ included, uncles.foldlM (verifyUncle provider calcProposalsHash block) ∅ = .ok included) ↔
      ∀ done uncle rest, uncles = done ++ uncle :: rest → ProviderRule provider calcProposalsHash block done uncle := by
  refine (Except.foldlM_ok_iff_split IncludedExact (ProviderRule provider calcProposalsHash block) uncles
    ?keep ?passes IncludedExact.empty).1
  case keep =>
    intro done uncle included included' _ exact stepped
    obtain ⟨rule, rfl⟩ := (verifyUncle_eq_ok provider calcProposalsHash block exact uncle).mp stepped
    exact exact.insert uncle rule.notRepeated
  case passes =>
    intro done uncle included _ exact
    constructor
    · rintro ⟨included', stepped⟩
      exact ((verifyUncle_eq_ok provider calcProposalsHash block exact uncle).mp stepped).1
    · intro rule
      exact ⟨_, (verifyUncle_eq_ok provider calcProposalsHash block exact uncle).mpr ⟨rule, rfl⟩⟩

theorem verify_eq_ok :
    verify provider calcProposalsHash block = .ok () ↔
      block.uncles = [] ∨
        (0 < block.header.number ∧ block.uncles.length ≤ provider.consensus.maxUnclesNum ∧
          ∀ done uncle rest, block.uncles = done ++ uncle :: rest → ProviderRule provider calcProposalsHash block done uncle) := by
  unfold verify
  by_cases empty : block.uncles.length = 0
  · simp [List.length_eq_zero_iff.mp empty, pure, Except.pure]
  have nonempty : block.uncles ≠ [] := fun nil => empty (by rw [nil, List.length_nil])
  simp only [empty, if_false, nonempty, false_or]
  by_cases genesis : block.isGenesis = true
  · have zero : block.header.number = 0 := by simpa [BlockView.isGenesis] using genesis
    simp [genesis, zero, throw, throwThe, MonadExceptOf.throw]
  have positive : 0 < block.header.number := by
    simp only [BlockView.isGenesis, beq_iff_eq] at genesis
    omega
  simp only [genesis, Bool.false_eq_true, if_false, positive, true_and]
  by_cases tooMany : block.uncles.length > provider.consensus.maxUnclesNum
  · simp [tooMany, throw, throwThe, MonadExceptOf.throw]
  have within : block.uncles.length ≤ provider.consensus.maxUnclesNum := Nat.le_of_not_lt tooMany
  simp only [tooMany, if_false, Except.bind_eq_ok, pure, Except.pure, and_true, within, true_and]
  exact foldUncles_ok_iff provider calcProposalsHash block block.uncles

/-! The provider of contextual verification, on a store whose main chain and uncle index are a
given chain. -/

/-- The store's main chain is `ancestors`, found by hash, and its uncle index holds exactly the
uncles `included`; a main-chain header and an included uncle of one hash are the same header. -/
structure AncestryStore (store : Store H) (ancestors included : List (Header H)) : Prop where
  blockNumber : ∀ hash, (store.getBlockNumber hash).isSome ↔ ∃ a ∈ ancestors, a.hash = hash
  blockHeader : ∀ a ∈ ancestors, store.getBlockHeader a.hash = some a
  uncleHeader : ∀ hash u, store.getUncleHeader hash = some u ↔ u ∈ included ∧ u.hash = hash
  hashesIdentify : ∀ a ∈ ancestors, ∀ u ∈ included, a.hash = u.hash → a = u

/-- The header's parent is one block below it, on the main chain or among its uncles. -/
def ChainDescends (ancestors included : List (Header H)) (header : Header H) : Prop :=
  (∃ a ∈ ancestors, a.hash = header.parentHash ∧ a.number + 1 = header.number) ∨
    ∃ u ∈ included, u.hash = header.parentHash ∧ u.number + 1 = header.number

/-- The hash is a main-chain block or an uncle the main chain includes. -/
def ChainKnown (ancestors included : List (Header H)) (hash : H) : Prop :=
  (∃ a ∈ ancestors, a.hash = hash) ∨ ∃ u ∈ included, u.hash = hash

namespace AncestryStore

variable {context : UncleVerifierContext H} {ancestors included : List (Header H)}

theorem descendant_iff (chain : AncestryStore context.store ancestors included) (header : Header H) :
    context.descendant header = true ↔ ChainDescends ancestors included header := by
  unfold UncleVerifierContext.descendant ChainDescends
  by_cases main : (context.store.getBlockNumber header.parentHash).isSome = true
  · rcases (chain.blockNumber _).mp main with ⟨a, member, hashEq⟩
    have found := chain.blockHeader a member
    rw [hashEq] at found
    simp only [main, if_true, found, Option.map_some, Option.getD_some, beq_iff_eq]
    constructor
    · intro next
      exact Or.inl ⟨a, member, hashEq, next⟩
    · rintro (⟨a', member', hashEq', next⟩ | ⟨u, member', hashEq', next⟩)
      · -- the store holds one header under the hash
        have found' := chain.blockHeader a' member'
        rw [hashEq', found, Option.some_inj] at found'
        rw [found']
        exact next
      · rw [chain.hashesIdentify a member u member' (hashEq.trans hashEq'.symm)]
        exact next
  · have notMain : ∀ a ∈ ancestors, a.hash ≠ header.parentHash :=
      fun a member same => main ((chain.blockNumber _).mpr ⟨a, member, same⟩)
    simp only [main, Bool.false_eq_true, if_false]
    cases found : context.store.getUncleHeader header.parentHash with
    | none =>
      simp only [Bool.false_eq_true, false_iff, not_or, not_exists, not_and]
      refine ⟨fun a member same _ => notMain a member same, fun u member same _ => ?_⟩
      have present := (chain.uncleHeader _ u).mpr ⟨member, same⟩
      rw [found] at present
      cases present
    | some parent =>
      rcases (chain.uncleHeader _ parent).mp found with ⟨member, same⟩
      simp only [beq_iff_eq]
      constructor
      · intro next
        exact Or.inr ⟨parent, member, same, next⟩
      · rintro (⟨a, member', same', -⟩ | ⟨u, member', same', next⟩)
        · exact absurd same' (notMain a member')
        · have present := (chain.uncleHeader _ u).mpr ⟨member', same'⟩
          rw [found, Option.some_inj] at present
          rw [present]
          exact next

theorem doubleInclusion_iff (chain : AncestryStore context.store ancestors included) (hash : H) :
    context.doubleInclusion hash = true ↔ ChainKnown ancestors included hash := by
  unfold UncleVerifierContext.doubleInclusion ChainKnown Store.isUncle
  rw [Bool.or_eq_true, chain.blockNumber, Option.isSome_iff_exists]
  -- the uncle index answers both `is_uncle` and `get_uncle_header`
  have uncle : (∃ u, context.store.uncles.lookup hash = some u) ↔ ∃ u ∈ included, u.hash = hash := by
    constructor
    · rintro ⟨u, found⟩
      exact ⟨u, (chain.uncleHeader hash u).mp found⟩
    · rintro ⟨u, member, same⟩
      exact ⟨u, (chain.uncleHeader hash u).mpr ⟨member, same⟩⟩
  rw [uncle]

end AncestryStore

/-- A store that indexes a chain by hash and has an empty uncle index. -/
def chainStore (ancestors : List (Header H)) : Store H :=
  { blockHeader := ancestors.foldl (fun m a => m.insert a.hash a) ∅
    indexByHash := ancestors.foldl (fun m a => m.insert a.hash a.number) ∅ }

theorem chainStore_ancestry {ancestors : List (Header H)} (distinct : (ancestors.map (·.hash)).Nodup) :
    AncestryStore (chainStore ancestors) ancestors [] where
  blockNumber hash := by
    rw [Store.getBlockNumber, chainStore, Finmap.lookup_isSome, FiniteMap.mem_foldl_insert, List.mem_map]
    simp [Finmap.notMem_empty]
  blockHeader a member := by
    have agree : ∀ a' ∈ ancestors, a'.hash = a.hash → a' = a :=
      fun a' member' same => List.inj_on_of_nodup_map distinct member' member same
    rw [Store.getBlockHeader, chainStore, FiniteMap.lookup_foldl_insert Header.hash (fun a => a) ancestors ∅ agree,
      if_pos (List.mem_map_of_mem member)]
  uncleHeader hash u := by
    simp [Store.getUncleHeader, chainStore, Finmap.lookup_empty]
  hashesIdentify _ _ u member := absurd member List.not_mem_nil

theorem verify_ok_iff_uncle_rule (context : UncleVerifierContext H) (calcProposalsHash : List ProposalShortId → H)
    (block : BlockView H) {ancestors included : List (Header H)} (chain : AncestryStore context.store ancestors included)
    (nonGenesis : 0 < block.header.number) :
    verify context.toProvider calcProposalsHash block = .ok () ↔
      block.uncles.length ≤ context.consensus.maxUnclesNum ∧
        ∀ done uncle rest, block.uncles = done ++ uncle :: rest →
          UncleRule context.epoch context.consensus calcProposalsHash block (ChainDescends ancestors included)
            (ChainKnown ancestors included) done uncle := by
  have sameRule : ∀ done uncle, ProviderRule context.toProvider calcProposalsHash block done uncle ↔
      UncleRule context.epoch context.consensus calcProposalsHash block (ChainDescends ancestors included)
        (ChainKnown ancestors included) done uncle :=
    fun _ _ => UncleRule.congr chain.descendant_iff chain.doubleInclusion_iff
  rw [verify_eq_ok]
  constructor
  · rintro (empty | ⟨-, within, all⟩)
    · refine ⟨by simp [empty], fun done uncle rest split => ?_⟩
      rw [empty] at split
      simp at split
    · exact ⟨within, fun done uncle rest split => (sameRule done uncle).mp (all done uncle rest split)⟩
  · rintro ⟨within, all⟩
    exact Or.inr ⟨nonGenesis, within, fun done uncle rest split => (sameRule done uncle).mpr (all done uncle rest split)⟩

/-! Three main-chain blocks with hashes 0, 1 and 2 below a block at height 3, and two uncles:
one on block 0 and a child of it. -/

def sampleAncestors : List (Header Nat) := (List.range 3).map fun n => ⟨n, n - 1, n, ⟨0⟩, 0, 5⟩

def sampleEpoch : Extras.EpochExt Nat :=
  { number := 0, lastBlockHashInPreviousEpoch := 0, length := 1800, baseBlockReward := 0, remainderReward := 0,
    previousEpochHashRate := 0, startNumber := 0, compactTarget := 5 }

def sampleContext : UncleVerifierContext Nat := ⟨chainStore sampleAncestors, ⟨2, 1500, fun _ => true⟩, sampleEpoch⟩

def parentUncle : UncleBlockView Nat := ⟨⟨⟨10, 0, 1, ⟨0⟩, 0, 5⟩, []⟩, 0⟩

def childUncle : UncleBlockView Nat := ⟨⟨⟨11, 10, 2, ⟨0⟩, 0, 5⟩, []⟩, 0⟩

def unclesBlock (uncles : List (UncleBlockView Nat)) : BlockView Nat := ⟨⟨3, 2, 3, ⟨0⟩, 0, 5⟩, uncles⟩

theorem sampleContext_ancestry : AncestryStore sampleContext.store sampleAncestors [] :=
  chainStore_ancestry (by decide)

/-- The sample store with an uncle of height 1, hash `20`, that the main chain already includes,
and an uncle of the block on top of it. -/
def includedUncle : Header Nat := ⟨20, 0, 1, ⟨0⟩, 0, 5⟩

def unclesContext : UncleVerifierContext Nat :=
  { sampleContext with store := { chainStore sampleAncestors with uncles := (∅ : FiniteMap Nat (Header Nat)).insert 20 includedUncle } }

def cousinUncle : UncleBlockView Nat := ⟨⟨⟨12, 20, 2, ⟨0⟩, 0, 5⟩, []⟩, 0⟩

theorem unclesContext_ancestry : AncestryStore unclesContext.store sampleAncestors [includedUncle] where
  blockNumber := sampleContext_ancestry.blockNumber
  blockHeader := sampleContext_ancestry.blockHeader
  uncleHeader hash u := by
    by_cases same : hash = 20
    · subst same
      simp [Store.getUncleHeader, unclesContext, eq_comm]
      rintro rfl
      rfl
    · simp [Store.getUncleHeader, unclesContext, Finmap.lookup_insert_of_ne _ same, Finmap.lookup_empty]
      rintro rfl
      exact fun named => same named.symm
  hashesIdentify := by decide

theorem sample_uncles_follow_rule :
    AncestryStore unclesContext.store sampleAncestors [includedUncle] ∧
      0 < (unclesBlock [parentUncle, cousinUncle]).header.number ∧
      verify unclesContext.toProvider (fun _ => 0) (unclesBlock [parentUncle, cousinUncle]) = .ok () ∧
      (verify unclesContext.toProvider (fun _ => 0) (unclesBlock [parentUncle, cousinUncle]) = .ok () ↔
        (unclesBlock [parentUncle, cousinUncle]).uncles.length ≤ unclesContext.consensus.maxUnclesNum ∧
          ∀ done uncle rest, (unclesBlock [parentUncle, cousinUncle]).uncles = done ++ uncle :: rest →
            UncleRule unclesContext.epoch unclesContext.consensus (fun _ => 0) (unclesBlock [parentUncle, cousinUncle])
              (ChainDescends sampleAncestors [includedUncle]) (ChainKnown sampleAncestors [includedUncle]) done uncle) :=
  ⟨unclesContext_ancestry, by decide, by decide +kernel,
    verify_ok_iff_uncle_rule unclesContext (fun _ => 0) _ unclesContext_ancestry (by decide)⟩

theorem uncle_verdict_depends_on_order :
    AncestryStore sampleContext.store sampleAncestors [] ∧
      [parentUncle, childUncle].Perm [childUncle, parentUncle] ∧
      verify sampleContext.toProvider (fun _ => 0) (unclesBlock [parentUncle, childUncle]) = .ok () ∧
      verify sampleContext.toProvider (fun _ => 0) (unclesBlock [childUncle, parentUncle]) =
        .error (.uncles .descendantLimit) :=
  ⟨sampleContext_ancestry, List.Perm.swap _ _ _, by decide +kernel, by decide +kernel⟩

end UnclesVerifier

end Ckb
