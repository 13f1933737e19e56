import Ckb.Verification.NonContextual

namespace Ckb

theorem ScriptHashType.tryFrom_isSome_iff (byte : UInt8) :
    (ScriptHashType.tryFrom byte).isSome = true ↔ byte.toNat ∈ [0, 1, 2, 4] := by
  unfold ScriptHashType.tryFrom
  split <;> simp_all

end Ckb

namespace Ckb.Verification

open ExceptT

variable {H : Type} [DecidableEq H] [Inhabited H]

/-! Transactions -/

section Transactions

variable (consensus : NonContextualConsensus) (version : Nat) (transaction : TransactionView H)

/-- What `NonContextualTransactionVerifier` accepts. -/
structure TransactionWellFormed : Prop where
  version : version = consensus.txVersion
  size : transaction.serializedSizeInBlock ≤ consensus.maxBlockBytes
  inputs : transaction.inputs ≠ []
  outputs : transaction.outputs ≠ [] ∨ transaction.isCellbase = true
  cellDeps : transaction.cellDeps.Nodup
  headerDeps : transaction.headerDeps.Nodup
  outputsData : transaction.outputs.length = transaction.outputsData.length

/-- What an error of `NonContextualTransactionVerifier` says of the transaction. -/
def TransactionError.Holds : TransactionError H → Prop
  | .mismatchedVersion expected actual => expected = consensus.txVersion ∧ actual = version ∧ actual ≠ expected
  | .exceededMaximumBlockBytes actual limit =>
    actual = transaction.serializedSizeInBlock ∧ limit = consensus.maxBlockBytes ∧ limit < actual
  | .empty .inputs => transaction.inputs = []
  | .empty .outputs => transaction.outputs = [] ∧ transaction.isCellbase = false
  | .duplicateCellDeps outPoint => ∃ dep, dep.outPoint = outPoint ∧ List.Sublist [dep, dep] transaction.cellDeps
  | .duplicateHeaderDeps hash => List.Sublist [hash, hash] transaction.headerDeps
  | .outputsDataLengthMismatch outputsLen outputsDataLen =>
    outputsLen = transaction.outputs.length ∧ outputsDataLen = transaction.outputsData.length ∧
      outputsLen ≠ outputsDataLen

omit [DecidableEq H] [Inhabited H] in
theorem versionVerifier_eq_ok :
    (VersionVerifier.verify consensus.txVersion version : Except (TransactionError H) Unit) = .ok () ↔
      version = consensus.txVersion := by
  unfold VersionVerifier.verify
  split_ifs with differs <;> simp_all

omit [DecidableEq H] [Inhabited H] in
theorem sizeVerifier_eq_ok :
    SizeVerifier.verify consensus.maxBlockBytes transaction = .ok () ↔
      transaction.serializedSizeInBlock ≤ consensus.maxBlockBytes := by
  unfold SizeVerifier.verify
  dsimp only
  split_ifs with fits <;> simp_all

theorem emptyVerifier_eq_ok :
    EmptyVerifier.verify transaction = .ok () ↔
      transaction.inputs ≠ [] ∧ (transaction.outputs ≠ [] ∨ transaction.isCellbase = true) := by
  unfold EmptyVerifier.verify
  by_cases noInputs : transaction.inputs = []
  · simp [noInputs]
  · by_cases noOutputs : transaction.outputs = [] <;> cases transaction.isCellbase <;> simp [noInputs, noOutputs]

omit [Inhabited H] in
theorem duplicateDepsVerifier_eq_ok :
    DuplicateDepsVerifier.verify transaction = .ok () ↔ transaction.cellDeps.Nodup ∧ transaction.headerDeps.Nodup := by
  have cells := SeenSet.findReplaced_eq_none_iff ∅ transaction.cellDeps
  have headers := SeenSet.findReplaced_eq_none_iff ∅ transaction.headerDeps
  rw [SeenSet.fresh_empty] at cells headers
  unfold DuplicateDepsVerifier.verify
  cases found : SeenSet.findReplaced ∅ transaction.cellDeps with
  | some dep => simp [← cells, found]
  | none =>
    cases foundHeader : SeenSet.findReplaced ∅ transaction.headerDeps with
    | some hash => simp [← headers, foundHeader]
    | none => simp [← cells, ← headers, found, foundHeader]

omit [DecidableEq H] [Inhabited H] in
theorem outputsDataVerifier_eq_ok :
    OutputsDataVerifier.verify transaction = .ok () ↔ transaction.outputs.length = transaction.outputsData.length := by
  unfold OutputsDataVerifier.verify
  dsimp only
  split_ifs with differs <;> simp_all

theorem nonContextualTransactionVerifier_eq_ok :
    NonContextualTransactionVerifier.verify consensus version transaction = .ok () ↔
      TransactionWellFormed consensus version transaction := by
  simp only [NonContextualTransactionVerifier.verify, Except.bind_unit_eq_ok, versionVerifier_eq_ok, sizeVerifier_eq_ok,
    emptyVerifier_eq_ok, duplicateDepsVerifier_eq_ok, outputsDataVerifier_eq_ok]
  constructor
  · rintro ⟨version, size, ⟨inputs, outputs⟩, ⟨cellDeps, headerDeps⟩, outputsData⟩
    exact ⟨version, size, inputs, outputs, cellDeps, headerDeps, outputsData⟩
  · rintro ⟨version, size, inputs, outputs, cellDeps, headerDeps, outputsData⟩
    exact ⟨version, size, ⟨inputs, outputs⟩, ⟨cellDeps, headerDeps⟩, outputsData⟩

/-! Every error is true of the transaction: one lemma for each check. -/

section Errors

variable {e : TransactionError H}

theorem holds_of_versionVerifier (failed : VersionVerifier.verify consensus.txVersion version = .error e) :
    e.Holds consensus version transaction := by
  unfold VersionVerifier.verify at failed
  split_ifs at failed with differs
  cases failed
  exact ⟨rfl, rfl, differs⟩

theorem holds_of_sizeVerifier (failed : SizeVerifier.verify consensus.maxBlockBytes transaction = .error e) :
    e.Holds consensus version transaction := by
  unfold SizeVerifier.verify at failed
  dsimp only at failed
  split_ifs at failed with fits
  cases failed
  exact ⟨rfl, rfl, Nat.lt_of_not_le fits⟩

theorem holds_of_emptyVerifier (failed : EmptyVerifier.verify transaction = .error e) :
    e.Holds consensus version transaction := by
  unfold EmptyVerifier.verify at failed
  split_ifs at failed with noInputs noOutputs
  · cases failed
    exact List.isEmpty_iff.mp noInputs
  · cases failed
    simp only [Bool.and_eq_true, Bool.not_eq_true', List.isEmpty_iff] at noOutputs
    exact noOutputs

theorem holds_of_duplicateDepsVerifier (failed : DuplicateDepsVerifier.verify transaction = .error e) :
    e.Holds consensus version transaction := by
  unfold DuplicateDepsVerifier.verify at failed
  cases found : SeenSet.findReplaced ∅ transaction.cellDeps with
  | some dep =>
    rw [found] at failed
    cases failed
    exact ⟨dep, rfl, SeenSet.sublist_of_findReplaced found⟩
  | none =>
    rw [found] at failed
    cases foundHeader : SeenSet.findReplaced ∅ transaction.headerDeps with
    | some hash =>
      rw [foundHeader] at failed
      cases failed
      exact SeenSet.sublist_of_findReplaced foundHeader
    | none =>
      rw [foundHeader] at failed
      cases failed

theorem holds_of_outputsDataVerifier (failed : OutputsDataVerifier.verify transaction = .error e) :
    e.Holds consensus version transaction := by
  unfold OutputsDataVerifier.verify at failed
  dsimp only at failed
  split_ifs at failed with differs
  cases failed
  exact ⟨rfl, rfl, differs⟩

theorem holds_of_nonContextualTransactionVerifier
    (failed : NonContextualTransactionVerifier.verify consensus version transaction = .error e) :
    e.Holds consensus version transaction := by
  unfold NonContextualTransactionVerifier.verify at failed
  rcases Except.bind_unit_eq_error failed with failed | failed
  · exact holds_of_versionVerifier consensus version transaction failed
  rcases Except.bind_unit_eq_error failed with failed | failed
  · exact holds_of_sizeVerifier consensus version transaction failed
  rcases Except.bind_unit_eq_error failed with failed | failed
  · exact holds_of_emptyVerifier consensus version transaction failed
  rcases Except.bind_unit_eq_error failed with failed | failed
  · exact holds_of_duplicateDepsVerifier consensus version transaction failed
  · exact holds_of_outputsDataVerifier consensus version transaction failed

end Errors

end Transactions

/-! Blocks -/

section Blocks

variable (block : Block H)

/-- What `CellbaseVerifier` accepts of the first transaction of a block that is not the genesis
block. -/
structure CellbaseWellFormed (cellbase : TransactionView H) : Prop where
  first : block.transactions.head? = some cellbase
  isCellbase : cellbase.isCellbase = true
  only : ∀ transaction ∈ block.transactions.tail, transaction.isCellbase = false
  outputs : cellbase.outputs.length = cellbase.outputsData.length
  atMostOne : cellbase.outputs.length ≤ 1
  outputsData : ∀ data ∈ cellbase.outputsData, data = []
  witness : ∃ witness : Molecule.CellbaseWitness, cellbase.witnesses.head? = some witness.pack ∧
    witness.lock.codeHash.length = 32 ∧ witness.pack.length < 2 ^ 32 ∧ witness.lock.hashType.toNat ∈ [0, 1, 2, 4]
  typeScripts : ∀ output ∈ cellbase.outputs, output.type = none
  input : cellbase.inputs.head? = some (CellInput.newCellbaseInput block.number)

theorem count_cellbase_eq_one_iff {transactions : List (TransactionView H)} {cellbase : TransactionView H}
    (first : transactions.head? = some cellbase) (isCellbase : cellbase.isCellbase = true) :
    (transactions.filter (·.isCellbase)).length = 1 ↔ ∀ transaction ∈ transactions.tail, transaction.isCellbase = false := by
  obtain ⟨rest, split⟩ := List.head?_eq_some_iff.mp first
  subst split
  rw [List.filter_cons_of_pos isCellbase, List.length_cons, Nat.add_eq_right, List.length_eq_zero_iff,
    List.filter_eq_nil_iff, List.tail_cons]
  simp

theorem head?_of_count_cellbase {transactions : List (TransactionView H)}
    (count : (transactions.filter (·.isCellbase)).length = 1) : ∃ cellbase, transactions.head? = some cellbase := by
  cases transactions with
  | nil => simp at count
  | cons cellbase rest => exact ⟨cellbase, rfl⟩

theorem outputsData_empty_iff {outputsData : List (List UInt8)} (atMostOne : outputsData.length ≤ 1) :
    ((outputsData.head?.map (·.isEmpty)).getD true) = true ↔ ∀ data ∈ outputsData, data = [] := by
  match outputsData, atMostOne with
  | [], _ => simp
  | [data], _ => simp

/-- The witness check: the first witness is a cellbase witness as molecule writes it, whose lock has
a hash type that `ScriptHashType` knows. -/
theorem cellbaseWitness_isNone_eq_false_iff (witnesses : List (List UInt8)) :
    (witnesses.head?.bind fun witness => (Molecule.CellbaseWitness.fromSlice witness).bind fun cellbaseWitness =>
        ScriptHashType.tryFrom cellbaseWitness.lock.hashType).isNone = false ↔
      ∃ witness : Molecule.CellbaseWitness, witnesses.head? = some witness.pack ∧
        witness.lock.codeHash.length = 32 ∧ witness.pack.length < 2 ^ 32 ∧
        witness.lock.hashType.toNat ∈ [0, 1, 2, 4] := by
  rw [Option.isNone_eq_false_iff, Option.isSome_bind]
  cases witnesses.head? with
  | none => simp
  | some slice =>
    simp only [Option.any_some, Option.isSome_bind, Option.some_inj]
    cases read : Molecule.CellbaseWitness.fromSlice slice with
    | none =>
      simp only [Option.any_none, Bool.false_eq_true, false_iff, not_exists, not_and]
      intro witness built hash small
      rw [Molecule.CellbaseWitness.fromSlice_eq_some_iff.mpr ⟨built.symm, hash, built ▸ small⟩] at read
      cases read
    | some witness =>
      obtain ⟨built, hash, small⟩ := Molecule.CellbaseWitness.fromSlice_eq_some_iff.mp read
      simp only [Option.any_some, ScriptHashType.tryFrom_isSome_iff]
      constructor
      · intro known
        exact ⟨witness, built.symm, hash, built ▸ small, known⟩
      · -- the strict reader reads back the witness it was given
        rintro ⟨other, same, otherHash, otherSmall, known⟩
        have readOther := Molecule.CellbaseWitness.fromSlice_eq_some_iff.mpr ⟨same.symm, otherHash, same ▸ otherSmall⟩
        rw [read, Option.some_inj] at readOther
        exact readOther ▸ known

omit [DecidableEq H] [Inhabited H] in
theorem typeScripts_iff (outputs : List (CellOutput H)) :
    ¬ (outputs.any fun output => output.type.isSome) = true ↔ ∀ output ∈ outputs, output.type = none := by
  simp [List.any_eq_true, Option.isSome_iff_ne_none]

theorem cellbaseInput_eq_ok (cellbase : TransactionView H) :
    (ExceptT.lift cellbase.inputs.head? >>= fun cellbaseInput =>
        if cellbaseInput ≠ CellInput.newCellbaseInput block.number then throw CellbaseError.invalidInput
        else pure () : ExceptT CellbaseError Option Unit).run = some (.ok ()) ↔
      cellbase.inputs.head? = some (CellInput.newCellbaseInput block.number) := by
  rw [run_bind_eq_ok]
  constructor
  · rintro ⟨cellbaseInput, found, checked⟩
    rw [run_lift_eq_ok] at found
    rw [run_ite_throw_eq_ok, not_not] at checked
    rw [found, checked.1]
  · intro found
    exact ⟨_, run_lift_eq_ok.mpr found, run_ite_throw_eq_ok.mpr ⟨not_not.mpr rfl, rfl⟩⟩

theorem cellbaseVerifier_eq_ok :
    (CellbaseVerifier.verify block).run = some (.ok ()) ↔
      block.number = 0 ∨ ∃ cellbase, CellbaseWellFormed block cellbase := by
  unfold CellbaseVerifier.verify
  by_cases genesis : block.number = 0
  · simp [genesis]
  rw [if_neg genesis, run_ite_throw_eq_ok, not_not, or_iff_right genesis]
  constructor
  · rintro ⟨count, checked⟩
    obtain ⟨cellbase, first⟩ := head?_of_count_cellbase count
    rw [first, lift_some, pure_bind] at checked
    simp only [run_ite_throw_eq_ok, Bool.not_eq_true', Bool.not_eq_false, Bool.or_eq_true, decide_eq_true_eq,
      not_or, Nat.not_lt, Decidable.not_not, cellbaseInput_eq_ok, typeScripts_iff] at checked
    obtain ⟨isCellbase, ⟨⟨outputsAtMostOne, dataAtMostOne⟩, outputs⟩, data, witness, typeScripts, input⟩ := checked
    exact ⟨cellbase, first, isCellbase, (count_cellbase_eq_one_iff first isCellbase).mp count, outputs,
      outputsAtMostOne, (outputsData_empty_iff dataAtMostOne).mp data,
      (cellbaseWitness_isNone_eq_false_iff cellbase.witnesses).mp (Bool.eq_false_iff.mpr witness), typeScripts, input⟩
  · rintro ⟨cellbase, wellFormed⟩
    refine ⟨(count_cellbase_eq_one_iff wellFormed.first wellFormed.isCellbase).mpr wellFormed.only, ?_⟩
    rw [wellFormed.first, lift_some, pure_bind]
    have dataAtMostOne : cellbase.outputsData.length ≤ 1 := wellFormed.outputs ▸ wellFormed.atMostOne
    simp only [run_ite_throw_eq_ok, Bool.not_eq_true', Bool.not_eq_false, Bool.or_eq_true, decide_eq_true_eq,
      not_or, Nat.not_lt, Decidable.not_not, cellbaseInput_eq_ok, typeScripts_iff]
    exact ⟨wellFormed.isCellbase, ⟨⟨wellFormed.atMostOne, dataAtMostOne⟩, wellFormed.outputs⟩,
      (outputsData_empty_iff dataAtMostOne).mpr wellFormed.outputsData,
      Bool.eq_false_iff.mp ((cellbaseWitness_isNone_eq_false_iff cellbase.witnesses).mpr wellFormed.witness),
      wellFormed.typeScripts,
      wellFormed.input⟩

theorem inputs_of_isCellbase {transaction : TransactionView H} (isCellbase : transaction.isCellbase = true) :
    ∃ input, transaction.inputs = [input] := by
  unfold TransactionView.isCellbase at isCellbase
  split at isCellbase
  · exact ⟨_, ‹_›⟩
  · cases isCellbase

/-- The cellbase verifier never panics: it indexes the transactions only once it has counted one
cellbase among them, and takes the cellbase's input only once it has checked that the first
transaction is a cellbase, which has exactly one input. -/
theorem cellbaseVerifier_ne_none : (CellbaseVerifier.verify block).run ≠ none := by
  unfold CellbaseVerifier.verify
  split_ifs with genesis count
  · simp
  · simp [run_throw]
  obtain ⟨cellbase, first⟩ := head?_of_count_cellbase (not_not.mp count)
  rw [first, lift_some, pure_bind]
  split_ifs with notCellbase
  all_goals first | (simp [run_throw]; done) | skip
  obtain ⟨input, single⟩ := inputs_of_isCellbase (by simpa using notCellbase)
  rw [single, List.head?_cons, lift_some, pure_bind]
  split_ifs <;> simp [run_throw]

omit [DecidableEq H] [Inhabited H] in
theorem blockProposalsLimitVerifier_eq_ok {blockProposalsLimit : Nat} :
    BlockProposalsLimitVerifier.verify blockProposalsLimit block = .ok () ↔ block.proposals.length ≤ blockProposalsLimit := by
  unfold BlockProposalsLimitVerifier.verify
  split_ifs <;> simp_all

omit [DecidableEq H] [Inhabited H] in
theorem blockBytesVerifier_eq_ok {blockBytesLimit : Nat} {extension : Option (List UInt8)} :
    BlockBytesVerifier.verify blockBytesLimit block extension = .ok () ↔
      block.number = 0 ∨ block.serializedSizeWithoutUncleProposals extension ≤ blockBytesLimit := by
  unfold BlockBytesVerifier.verify
  split_ifs <;> simp_all

omit [Inhabited H] in
theorem duplicateVerifier_eq_ok :
    DuplicateVerifier.verify block = .ok () ↔ (block.transactions.map (·.hash)).Nodup ∧ block.proposals.Nodup := by
  have hashes : allInsert ∅ (block.transactions.map (·.hash)) = true ↔ (block.transactions.map (·.hash)).Nodup := by
    simp [allInsert_eq_true]
  have proposals : allInsert ∅ block.proposals = true ↔ block.proposals.Nodup := by
    simp [allInsert_eq_true]
  unfold DuplicateVerifier.verify
  split_ifs with repeatedHash repeatedProposal <;> simp_all

omit [Inhabited H] in
theorem merkleRootVerifier_eq_ok {roots : BlockRoots H} :
    MerkleRootVerifier.verify roots block = .ok () ↔
      roots.transactionsRoot block = roots.calcTransactionsRoot block ∧ roots.proposalsHash block = roots.calcProposalsHash block := by
  unfold MerkleRootVerifier.verify
  split_ifs <;> simp_all

section Verifier

variable (consensus : NonContextualConsensus) (roots : BlockRoots H) (extension : Option (List UInt8))

/-- What `BlockVerifier` accepts. -/
structure BlockWellFormed : Prop where
  proposalsLimit : block.proposals.length ≤ consensus.maxBlockProposalsLimit
  blockBytes : block.number = 0 ∨ block.serializedSizeWithoutUncleProposals extension ≤ consensus.maxBlockBytes
  cellbase : block.number = 0 ∨ ∃ cellbase, CellbaseWellFormed block cellbase
  transactions : (block.transactions.map (·.hash)).Nodup
  proposals : block.proposals.Nodup
  transactionsRoot : roots.transactionsRoot block = roots.calcTransactionsRoot block
  proposalsHash : roots.proposalsHash block = roots.calcProposalsHash block

theorem run_liftExcept_mapError_eq_ok {ε ε' : Type} (x : Except ε Unit) (g : ε → ε') :
    (liftExcept (x.mapError g) : ExceptT ε' Option Unit).run = some (.ok ()) ↔ x = .ok () := by
  rw [run_liftExcept, Option.some_inj, Except.mapError_eq_ok]

theorem blockVerifier_eq_ok :
    (BlockVerifier.verify consensus roots extension block).run = some (.ok ()) ↔
      BlockWellFormed block consensus roots extension := by
  simp only [BlockVerifier.verify, run_bind_unit_eq_ok, run_liftExcept_mapError_eq_ok, run_adapt_eq_ok,
    blockProposalsLimitVerifier_eq_ok, blockBytesVerifier_eq_ok, cellbaseVerifier_eq_ok, duplicateVerifier_eq_ok,
    merkleRootVerifier_eq_ok]
  constructor
  · rintro ⟨limit, bytes, cellbase, ⟨transactions, proposals⟩, root, hash⟩
    exact ⟨limit, bytes, cellbase, transactions, proposals, root, hash⟩
  · rintro ⟨limit, bytes, cellbase, transactions, proposals, root, hash⟩
    exact ⟨limit, bytes, cellbase, ⟨transactions, proposals⟩, root, hash⟩

theorem blockVerifier_ne_none : (BlockVerifier.verify consensus roots extension block).run ≠ none := by
  unfold BlockVerifier.verify
  refine run_bind_ne_none (run_liftExcept_ne_none _) fun _ _ => ?_
  refine run_bind_ne_none (run_liftExcept_ne_none _) fun _ _ => ?_
  refine run_bind_ne_none (run_adapt_ne_none (cellbaseVerifier_ne_none block)) fun _ _ => ?_
  refine run_bind_ne_none (run_liftExcept_ne_none _) fun _ _ => ?_
  exact run_liftExcept_ne_none _

variable (versionOf : TransactionView H → Nat)

theorem nonContextualBlockTxsVerifier_ok_iff :
    (∃ results, NonContextualBlockTxsVerifier.verify consensus versionOf block = .ok results) ↔
      ∀ transaction ∈ block.transactions, TransactionWellFormed consensus (versionOf transaction) transaction := by
  unfold NonContextualBlockTxsVerifier.verify
  rw [Except.mapM_ok_iff]
  apply forall₂_congr
  intro transaction _
  rw [← nonContextualTransactionVerifier_eq_ok]
  exact ⟨fun ⟨_, ok⟩ => Except.mapError_eq_ok.mp ok, fun ok => ⟨(), Except.mapError_eq_ok.mpr ok⟩⟩

/-- The block's transactions fail at the first transaction that is not well formed, with an error
that is true of it. -/
theorem blockTxsVerifier_first_error_holds {e : Error H}
    (failed : NonContextualBlockTxsVerifier.verify consensus versionOf block = .error e) :
    ∃ before transaction after, block.transactions = before ++ transaction :: after ∧
      (∀ earlier ∈ before, TransactionWellFormed consensus (versionOf earlier) earlier) ∧
      ∃ error, e = .transaction error ∧ error.Holds consensus (versionOf transaction) transaction := by
  unfold NonContextualBlockTxsVerifier.verify at failed
  obtain ⟨before, transaction, after, split, passed, stopped⟩ := (Except.mapM_eq_error_iff _ e).mp failed
  obtain ⟨error, failedTransaction, rfl⟩ := Except.mapError_eq_error.mp stopped
  refine ⟨before, transaction, after, split, fun earlier member => ?_, error, rfl,
    holds_of_nonContextualTransactionVerifier _ _ _ failedTransaction⟩
  obtain ⟨_, ok⟩ := passed earlier member
  exact (nonContextualTransactionVerifier_eq_ok _ _ _).mp (Except.mapError_eq_ok.mp ok)

/-- The chain service accepts a block exactly when the block and each of its transactions are well
formed. -/
theorem non_contextual_verify_accepts_iff :
    (nonContextualVerify consensus roots versionOf extension block).run = some (.ok ()) ↔
      BlockWellFormed block consensus roots extension ∧
        ∀ transaction ∈ block.transactions, TransactionWellFormed consensus (versionOf transaction) transaction := by
  unfold nonContextualVerify
  rw [run_bind_unit_eq_ok, blockVerifier_eq_ok, run_bind_eq_ok, ← nonContextualBlockTxsVerifier_ok_iff]
  simp only [run_liftExcept, Option.some_inj, run_pure_eq_ok, and_true]

/-- Non-contextual verification never panics, whatever the block. -/
theorem non_contextual_verify_never_panics :
    (nonContextualVerify consensus roots versionOf extension block).run ≠ none := by
  unfold nonContextualVerify
  refine run_bind_ne_none (blockVerifier_ne_none block consensus roots extension) fun _ _ => ?_
  refine run_bind_ne_none (run_liftExcept_ne_none _) fun _ _ => ?_
  simp

end Verifier

end Blocks

/-! A block whose second transaction repeats a header dep -/

def sampleConsensus : NonContextualConsensus := ⟨10, 1000, 0⟩

def spendingTx (hash : Nat) (headerDeps : List Nat) : TransactionView Nat :=
  ⟨hash, [], headerDeps, [⟨⟨2, hash⟩, 0⟩], [⟨100, ⟨0, .data, []⟩, none⟩], [[]], []⟩

def repeatedHeaderDepBlock : Block Nat := ⟨⟨0, 0, 1, ⟨0⟩, 0, 0⟩, [], [spendingTx 1 [], spendingTx 3 [5, 5]], []⟩

example :
    NonContextualBlockTxsVerifier.verify sampleConsensus (fun _ => 0) repeatedHeaderDepBlock =
      .error (.transaction (.duplicateHeaderDeps 5)) ∧
    ∃ before transaction after, repeatedHeaderDepBlock.transactions = before ++ transaction :: after ∧
      (∀ earlier ∈ before, TransactionWellFormed sampleConsensus ((fun _ => 0) earlier) earlier) ∧
      ∃ error, (Error.transaction (.duplicateHeaderDeps 5) : Error Nat) = .transaction error ∧
        error.Holds sampleConsensus ((fun _ => 0) transaction) transaction :=
  ⟨by decide, blockTxsVerifier_first_error_holds repeatedHeaderDepBlock sampleConsensus (fun _ => 0) (by decide)⟩

end Ckb.Verification
