import Ckb.BlockAssembler.Assembler

namespace Ckb.BlockAssembler

open Cell TxPool Molecule

variable {H I : Type}

section Sizes

theorem calcTotalBy_eq {total size newSize : Nat} (within : size ≤ total)
    (fits : total - size + newSize ≤ u64Max) : calcTotalBy total size newSize = total - size + newSize := by
  unfold calcTotalBy saturatingAdd
  split_ifs <;> omega

theorem calcTotalBy_of_lt {total size newSize bound : Nat} (within : size ≤ total) (bounded : bound ≤ u64Max)
    (below : calcTotalBy total size newSize < bound) : calcTotalBy total size newSize = total - size + newSize := by
  unfold calcTotalBy saturatingAdd at *
  split_ifs at * <;> omega

theorem basicBlockSize_eq (cellbase : TransactionView H) (uncles : List (UncleBlock H))
    (proposals : List ProposalShortId) (extension : Option (List UInt8)) :
    basicBlockSize cellbase uncles proposals extension =
      basicBlockSize cellbase [] [] extension + uncles.length * UncleBlock.serializedSizeInBlock +
        proposals.length * ProposalShortId.serializedSize := by
  simp only [basicBlockSize, serializedSizeWithoutUncleProposals_eq, List.length_nil]
  omega

theorem BlockTemplate.serializedSize_eq (template : BlockTemplate H) :
    template.serializedSize =
      basicBlockSize template.cellbase template.uncles template.proposals template.extension +
        (template.transactions.map (·.transaction.serializedSizeInBlock)).sum := by
  simp only [BlockTemplate.serializedSize, basicBlockSize, serializedSizeWithoutUncleProposals_eq,
    List.map_cons, List.map_nil, List.sum_cons, List.sum_nil, List.map_map, Function.comp_def]
  omega

@[simp] theorem BlockTemplate.toBlock_serializedSize (header : Header H) (template : BlockTemplate H) :
    (template.toBlock header).serializedSizeWithoutUncleProposals template.extension = template.serializedSize := rfl

@[simp] theorem BlockTemplate.toBlock_number (header : Header H) (template : BlockTemplate H) :
    (template.toBlock header).number = header.number := rfl

end Sizes

section Invariant

variable [DecidableEq H] (env : PoolEnv H I) (assembler : AssemblerEnv H)

/-- The sizes the assembler records are those of the template's parts and of its block, and the
template's extension is the one its snapshot builds. -/
structure SizesExact (current : CurrentTemplate H) : Prop where
  txs : current.size.txs = (current.template.transactions.map (·.transaction.serializedSizeInBlock)).sum
  proposals : current.size.proposals = current.template.proposals.length * ProposalShortId.serializedSize
  uncles : current.size.uncles = current.template.uncles.length * UncleBlock.serializedSizeInBlock
  total : current.size.total = current.template.serializedSize
  extension : assembler.buildExtension current.snapshot = some current.template.extension

/-- The template's block is within the snapshot's `max_block_bytes`. -/
def Fits (current : CurrentTemplate H) : Prop := current.template.serializedSize ≤ current.snapshot.maxBlockBytes

instance (current : CurrentTemplate H) : Decidable (Fits current) :=
  inferInstanceAs (Decidable (current.template.serializedSize ≤ current.snapshot.maxBlockBytes))

omit [DecidableEq H] in
theorem Fits.verify {current : CurrentTemplate H} (fits : Fits current) (header : Header H) :
    BlockBytesVerifier.verify current.snapshot.maxBlockBytes (current.template.toBlock header)
      current.template.extension = .ok () := by
  unfold BlockBytesVerifier.verify
  rw [BlockTemplate.toBlock_serializedSize]
  split
  · rfl
  · rw [if_pos (show current.template.serializedSize ≤ current.snapshot.maxBlockBytes from fits)]

theorem checkEntries_sublist (snapshot : Snapshot H) (seenInputs : Finset (OutPoint H))
    (transactionsChecker : TransactionsChecker H) (entries : List (TxEntry H)) :
    (checkEntries env assembler snapshot seenInputs transactionsChecker entries).1.Sublist entries := by
  induction entries generalizing seenInputs transactionsChecker with
  | nil => simp [checkEntries]
  | cons entry entries ih =>
    simp only [checkEntries]
    split
    · exact (ih _ _).cons_cons entry
    · exact (ih _ _).cons entry

theorem calcDao_sublist {snapshot : Snapshot H} {cellbase : TransactionView H} {entries : List (TxEntry H)}
    {calculated : H × List (TxEntry H) × List I} (computed : calcDao env assembler snapshot cellbase entries = some calculated) :
    calculated.2.1.Sublist entries := by
  unfold calcDao at computed
  obtain ⟨dao, -, rfl⟩ := Option.map_eq_some_iff.mp computed
  exact checkEntries_sublist env assembler snapshot _ _ entries

omit [DecidableEq H] in
theorem PoolView.checked_size (pool : PoolView H) {maxBlockCycles txsSizeLimit : Nat} {checked : List (TxEntry H)}
    (sub : checked.Sublist (pool.packageTxs maxBlockCycles txsSizeLimit)) :
    (checked.map (·.size)).sum = (checked.map (·.transaction.serializedSizeInBlock)).sum ∧
      (checked.map (·.size)).sum ≤ txsSizeLimit := by
  constructor
  · apply congrArg List.sum
    apply List.map_congr_left
    intro entry member
    exact pool.size_eq maxBlockCycles txsSizeLimit entry (sub.subset member)
  · calc (checked.map (·.size)).sum
        ≤ ((pool.packageTxs maxBlockCycles txsSizeLimit).map (·.size)).sum :=
          (sub.map _).sum_le_sum fun _ _ => Nat.zero_le _
      _ ≤ txsSizeLimit := pool.packageTxs_size_le maxBlockCycles txsSizeLimit

variable {env assembler}

theorem SizesExact.blank {snapshot : Snapshot H} {uncles : List (UncleBlock H)} {current : CurrentTemplate H}
    (built : blank env assembler snapshot uncles = some current) : SizesExact assembler current := by
  simp only [BlockAssembler.blank, Option.bind_eq_bind, Option.bind_eq_some_iff, pure, Option.some.injEq] at built
  obtain ⟨cellbase, -, extension, builtExtension, calculated, -, rfl⟩ := built
  exact ⟨rfl, rfl, rfl, rfl, builtExtension⟩

theorem SizesExact.updateBlank {snapshot : Snapshot H} {uncles : List (UncleBlock H)} {current : CurrentTemplate H}
    (ran : updateBlank env assembler snapshot uncles = .ok current) : SizesExact assembler current := by
  unfold BlockAssembler.updateBlank at ran
  split at ran
  · cases ran
  · next built =>
    cases ran
    exact SizesExact.blank built

theorem SizesExact.updateFull {pool : PoolView H} {current current' : CurrentTemplate H} {failed : List I}
    (exact : SizesExact assembler current) (ran : updateFull env assembler pool current = .ok (current', failed)) :
    SizesExact assembler current' ∧ (current' = current ∨ Fits current') := by
  simp only [BlockAssembler.updateFull] at ran
  split at ran
  · -- the tx-pool is on another tip
    simp only [Except.ok.injEq, Prod.mk.injEq] at ran
    rw [← ran.1]
    exact ⟨exact, .inl rfl⟩
  split at ran
  · cases ran
  next txsSizeLimit limit =>
  split at ran
  · cases ran
  next calculated computed =>
  simp only [Except.ok.injEq, Prod.mk.injEq] at ran
  obtain ⟨rfl, -⟩ := ran
  obtain ⟨within, room⟩ := checkedSub_eq_some.mp limit
  obtain ⟨sizeEq, sizeLe⟩ := pool.checked_size (calcDao_sublist env assembler computed)
  refine ⟨⟨sizeEq, rfl, exact.uncles, ?_, exact.extension⟩, .inr ?_⟩
  · rw [BlockTemplate.serializedSize_eq]
    simp only [sizeEq]
  · unfold Fits
    rw [BlockTemplate.serializedSize_eq]
    simp only [← sizeEq]
    omega

omit [DecidableEq H] in
theorem SizesExact.updateUncles (uncles : List (UncleBlock H)) {current : CurrentTemplate H}
    (exact : SizesExact assembler current) :
    SizesExact assembler (updateUncles uncles current) ∧
      (updateUncles uncles current = current ∨ Fits (updateUncles uncles current)) := by
  simp only [BlockAssembler.updateUncles]
  split_ifs with room more below
  · -- the total is exact, so it did not saturate below the limit
    have total := exact.total
    rw [BlockTemplate.serializedSize_eq, basicBlockSize_eq] at total
    have within : current.size.uncles ≤ current.size.total := by
      rw [exact.uncles]
      omega
    have exactTotal := calcTotalBy_of_lt within current.snapshot.maxBlockBytes_le below
    simp only [TemplateSize.calcTotalByUncles] at below exactTotal ⊢
    have newSize : calcTotalBy current.size.total current.size.uncles (uncles.length * UncleBlock.serializedSizeInBlock) =
        ({ current.template with uncles } : BlockTemplate H).serializedSize := by
      rw [exactTotal, BlockTemplate.serializedSize_eq, basicBlockSize_eq, exact.uncles]
      dsimp only
      omega
    refine ⟨⟨exact.txs, exact.proposals, rfl, newSize, exact.extension⟩, .inr ?_⟩
    unfold Fits
    rw [← newSize]
    exact Nat.le_of_lt below
  all_goals exact ⟨exact, .inl rfl⟩

theorem SizesExact.updateProposals (pool : PoolView H) {current : CurrentTemplate H}
    (exact : SizesExact assembler current) :
    SizesExact assembler (updateProposals pool current) ∧
      (updateProposals pool current = current ∨ Fits (updateProposals pool current)) := by
  simp only [BlockAssembler.updateProposals]
  split_ifs with otherTip below
  · exact ⟨exact, .inl rfl⟩
  · have total := exact.total
    rw [BlockTemplate.serializedSize_eq, basicBlockSize_eq] at total
    have within : current.size.proposals ≤ current.size.total := by
      rw [exact.proposals]
      omega
    have exactTotal := calcTotalBy_of_lt within current.snapshot.maxBlockBytes_le below
    simp only [TemplateSize.calcTotalByProposals] at below exactTotal ⊢
    generalize pool.packageProposals current.snapshot.maxBlockProposalsLimit current.template.uncles = proposals
      at below exactTotal ⊢
    have newSize : calcTotalBy current.size.total current.size.proposals (proposals.length * ProposalShortId.serializedSize) =
        ({ current.template with proposals } : BlockTemplate H).serializedSize := by
      rw [exactTotal, BlockTemplate.serializedSize_eq, basicBlockSize_eq, exact.proposals]
      dsimp only
      omega
    refine ⟨⟨exact.txs, rfl, exact.uncles, newSize, exact.extension⟩, .inr ?_⟩
    unfold Fits
    rw [← newSize]
    exact Nat.le_of_lt below
  · exact ⟨exact, .inl rfl⟩

/-- `update_transactions` keeps the sizes exact, and a template it rebuilds is within the limit.
The extension it builds is the template's, since the snapshot is the same. -/
theorem SizesExact.updateTransactions {pool : PoolView H} {current current' : CurrentTemplate H}
    (exact : SizesExact assembler current) (ran : updateTransactions env assembler pool current = .ok current') :
    SizesExact assembler current' ∧ (current' = current ∨ Fits current') := by
  simp only [BlockAssembler.updateTransactions] at ran
  split at ran
  · cases ran
  next extension built =>
  have sameExtension : extension = current.template.extension :=
    Option.some.inj (built.symm.trans exact.extension)
  subst sameExtension
  split at ran
  · cases ran
    exact ⟨exact, .inl rfl⟩
  split at ran
  · cases ran
    exact ⟨exact, .inl rfl⟩
  next txsSizeLimit limit =>
  split at ran
  · cases ran
    exact ⟨exact, .inl rfl⟩
  next calculated computed =>
  cases ran
  obtain ⟨within, room⟩ := checkedSub_eq_some.mp limit
  obtain ⟨sizeEq, sizeLe⟩ := pool.checked_size (calcDao_sublist env assembler computed)
  have total := exact.total
  rw [BlockTemplate.serializedSize_eq, ← exact.txs] at total
  have exactTotal : current.size.calcTotalByTxs (calculated.2.1.map (·.size)).sum =
      basicBlockSize current.template.cellbase current.template.uncles current.template.proposals
        current.template.extension + (calculated.2.1.map (·.size)).sum := by
    unfold TemplateSize.calcTotalByTxs
    rw [calcTotalBy_eq (by omega) (by have := current.snapshot.maxBlockBytes_le; omega)]
    omega
  refine ⟨⟨sizeEq, exact.proposals, exact.uncles, ?_, ?_⟩, .inr ?_⟩
  · rw [exactTotal, BlockTemplate.serializedSize_eq]
    simp only [Option.or_self, sizeEq]
  · simpa only [Option.or_self] using exact.extension
  · unfold Fits
    rw [BlockTemplate.serializedSize_eq]
    simp only [Option.or_self, ← sizeEq]
    omega

theorem SizesExact.run {current : CurrentTemplate H} (exact : SizesExact assembler current) (op : AssemblerOp H) :
    SizesExact assembler (op.run env assembler current) := by
  cases op with
  | updateBlank snapshot uncles =>
    simp only [AssemblerOp.run]
    split
    · next blank ran => exact SizesExact.updateBlank ran
    · exact exact
  | updateFull pool =>
    simp only [AssemblerOp.run]
    split
    · next next ran => exact (exact.updateFull ran).1
    · exact exact
  | updateUncles uncles => exact (exact.updateUncles uncles).1
  | updateProposals pool => exact (exact.updateProposals pool).1
  | updateTransactions pool =>
    simp only [AssemblerOp.run]
    split
    · next next ran => exact (exact.updateTransactions ran).1
    · exact exact

/-- A call keeps a template within the limit, unless it is an `update_blank` whose blank template
is not. -/
theorem Fits.run {current : CurrentTemplate H} (exact : SizesExact assembler current) (fits : Fits current)
    (op : AssemblerOp H)
    (blankFits : ∀ snapshot uncles, op = .updateBlank snapshot uncles →
      ∀ blank, updateBlank env assembler snapshot uncles = .ok blank → Fits blank) :
    Fits (op.run env assembler current) := by
  have kept : ∀ {next : CurrentTemplate H}, next = current ∨ Fits next → Fits next := by
    rintro next (rfl | fitsNext)
    · exact fits
    · exact fitsNext
  cases op with
  | updateBlank snapshot uncles =>
    simp only [AssemblerOp.run]
    split
    · next blank ran => exact blankFits snapshot uncles rfl blank ran
    · exact fits
  | updateFull pool =>
    simp only [AssemblerOp.run]
    split
    · next next ran => exact kept (exact.updateFull ran).2
    · exact fits
  | updateUncles uncles => exact kept (exact.updateUncles uncles).2
  | updateProposals pool => exact kept (exact.updateProposals pool).2
  | updateTransactions pool =>
    simp only [AssemblerOp.run]
    split
    · next next ran => exact kept (exact.updateTransactions ran).2
    · exact fits

theorem SizesExact.runAll {current : CurrentTemplate H} (exact : SizesExact assembler current)
    (ops : List (AssemblerOp H)) : SizesExact assembler (AssemblerOp.runAll env assembler current ops) :=
  foldl_invariant (SizesExact assembler) ops (fun _ op _ exact => exact.run op) exact

/-- Over a run whose `update_blank` calls each build a template within the limit, a template within
the limit stays within it. -/
theorem Fits.runAll {current : CurrentTemplate H} (exact : SizesExact assembler current) (fits : Fits current)
    (ops : List (AssemblerOp H))
    (blanksFit : ∀ snapshot uncles, .updateBlank snapshot uncles ∈ ops →
      ∀ blank, updateBlank env assembler snapshot uncles = .ok blank → Fits blank) :
    Fits (AssemblerOp.runAll env assembler current ops) := by
  have both := foldl_invariant (fun next => SizesExact assembler next ∧ Fits next) ops
    (fun next op member ⟨exactNext, fitsNext⟩ =>
      ⟨exactNext.run op, fitsNext.run exactNext op fun snapshot uncles isBlank => by
        subst isBlank
        exact blanksFit snapshot uncles member⟩)
    ⟨exact, fits⟩
  exact both.2

variable (env assembler)

/-- From `new`, the sizes stay exact over every run of calls. When `new` and every `update_blank`
of the run build a template within `max_block_bytes`, the template after the run is within it
too, and passes `BlockBytesVerifier`. -/
theorem block_assembler_run_sizes_exact (snapshot : Snapshot H) (initial : CurrentTemplate H)
    (created : new env assembler snapshot = some initial) (ops : List (AssemblerOp H)) :
    SizesExact assembler (AssemblerOp.runAll env assembler initial ops) ∧
      (Fits initial →
        (∀ snapshot' uncles, .updateBlank snapshot' uncles ∈ ops →
          ∀ blank, updateBlank env assembler snapshot' uncles = .ok blank → Fits blank) →
        Fits (AssemblerOp.runAll env assembler initial ops) ∧
          ∀ header : Header H,
            BlockBytesVerifier.verify (AssemblerOp.runAll env assembler initial ops).snapshot.maxBlockBytes
              ((AssemblerOp.runAll env assembler initial ops).template.toBlock header)
              (AssemblerOp.runAll env assembler initial ops).template.extension = .ok ()) := by
  have exact : SizesExact assembler initial := SizesExact.blank created
  refine ⟨exact.runAll ops, fun fits blanksFit => ?_⟩
  have fitsAfter := fits.runAll exact ops blanksFit
  exact ⟨fitsAfter, fitsAfter.verify⟩

end Invariant

section Samples

def assemblerPoolEnv : PoolEnv ℕ ℕ := ⟨id, id⟩

/-- A cellbase with its cellbase input, an empty witness and no output. -/
def templateCellbase : TransactionView ℕ := ⟨0, [], [], [⟨⟨0, u32Max⟩, 1⟩], [], [], [[]]⟩

def fixedAssembler : AssemblerEnv ℕ :=
  { buildCellbase := fun _ => some templateCellbase, buildExtension := fun _ => some none,
    daoField := fun _ _ => some 0, systemCell := none }

/-- A snapshot of a chain with the given `max_block_bytes`, in which no cell is known. -/
def snapshotWithLimit (maxBlockBytes : Nat) (bounded : maxBlockBytes ≤ u64Max) : Snapshot ℕ :=
  { tipHash := 0, maxBlockBytes, maxBlockBytes_le := bounded, maxBlockCycles := 3500000000,
    maxBlockProposalsLimit := 1500, maxUnclesNum := 2,
    cellChecker := ⟨fun _ => none⟩, headerChecker := ⟨fun _ => .ok ()⟩ }

/-- The `max_block_bytes` of the mainnet consensus. -/
def mainnetSnapshot : Snapshot ℕ := snapshotWithLimit 597000 (by decide)

def tinySnapshot : Snapshot ℕ := snapshotWithLimit 300 (by decide)

theorem new_template_exceeds_max_block_bytes :
    ∃ current, new assemblerPoolEnv fixedAssembler tinySnapshot = some current ∧ current.size.total = 364 ∧
      ¬ Fits current ∧ ∀ header : Header ℕ, header.number ≠ 0 →
        BlockBytesVerifier.verify current.snapshot.maxBlockBytes (current.template.toBlock header)
          current.template.extension = .error .exceededMaximumBlockBytes := by
  refine ⟨_, rfl, rfl, by decide, fun header notGenesis => ?_⟩
  unfold BlockBytesVerifier.verify
  rw [BlockTemplate.toBlock_number, BlockTemplate.toBlock_serializedSize, if_neg notGenesis, if_neg (by decide)]

/-- A pool on the same tip that proposes one transaction and packages one entry, when it fits. -/
def packingPool : PoolView ℕ :=
  let entry := TxEntry.newWithTimestamp ⟨templateCellbase, [], [], []⟩ 1000 1000
    templateCellbase.serializedSizeInBlock 0
  { tipHash := 0
    packageProposals := fun _ _ => [⟨[1, 0, 0, 0, 0, 0, 0, 0, 0, 0]⟩]
    packageTxs := fun _ limit => if entry.size ≤ limit then [entry] else []
    packageTxs_size_le := by
      intro _ limit
      split <;> simp_all
    size_eq := by
      intro _ limit packaged member
      split at member <;> simp at member
      rw [member]
      rfl }

def fillingRun : List (AssemblerOp ℕ) :=
  [.updateProposals packingPool, .updateUncles [], .updateTransactions packingPool, .updateFull packingPool]

theorem filling_run_fits_mainnet :
    ∃ initial, new assemblerPoolEnv fixedAssembler mainnetSnapshot = some initial ∧
      SizesExact fixedAssembler (AssemblerOp.runAll assemblerPoolEnv fixedAssembler initial fillingRun) ∧
      Fits (AssemblerOp.runAll assemblerPoolEnv fixedAssembler initial fillingRun) := by
  obtain ⟨exact, fits⟩ :=
    block_assembler_run_sizes_exact assemblerPoolEnv fixedAssembler mainnetSnapshot _ rfl fillingRun
  refine ⟨_, rfl, exact, (fits (by decide) ?_).1⟩
  intro snapshot uncles member
  simp [fillingRun] at member

end Samples

end Ckb.BlockAssembler
