import Ckb.Chain.ForkSpec

namespace Ckb

open MountainRange

variable {H : Type} [DecidableEq H]

theorem commitSession_eq (store : Store H) (session : Session (HeaderDigest H)) :
    commitSession store session =
      { store with chainRootMMR := session.batch.zipIdx.foldl (fun nodes entry => nodes.insert (session.start + entry.2) entry.1) store.chainRootMMR } := by
  unfold commitSession
  generalize session.batch.zipIdx = entries
  induction entries generalizing store with
  | nil => rfl
  | cons entry rest ih => exact ih _

variable (ctx : ChainContext H)

theorem getHeaderDigest_attach (store : Store H) (block : Block H) :
    (attach ctx.calcDataHash store block).getHeaderDigest = store.getHeaderDigest := rfl

theorem getHeaderDigest_foldl_attach (blocks : List (Block H)) (store : Store H) :
    (blocks.foldl (attach ctx.calcDataHash) store).getHeaderDigest = store.getHeaderDigest := by
  induction blocks generalizing store with
  | nil => rfl
  | cons block rest ih => exact ih _

theorem blockExt_foldl_attach (blocks : List (Block H)) (store : Store H) :
    (blocks.foldl (attach ctx.calcDataHash) store).blockExt = store.blockExt := by
  induction blocks generalizing store with
  | nil => rfl
  | cons block rest ih => exact ih _

theorem foldl_attachAndPush (blocks : List (Block H)) (store : Store H) (session : Session (HeaderDigest H)) :
    blocks.foldl (attachAndPush ctx) (store, session) =
      (blocks.foldl (attach ctx.calcDataHash) store,
        (blocks.map Block.digest).foldl (Session.push ctx.chainRootMMR store.getHeaderDigest) session) := by
  induction blocks generalizing store session with
  | nil => rfl
  | cons block rest ih =>
    rw [List.foldl_cons, attachAndPush, ih, getHeaderDigest_attach]
    rfl

variable {ctx} {switch : Switch}

/-- A round of the loop over the dirty exts, when the block passes: the block is attached, its
digest pushed and its ext stored verified. -/
theorem reconcileDirty_of_passes (passes : Passes ctx switch) (store : Store H) (session : Session (HeaderDigest H))
    (ext : BlockExt) (block : Block H) :
    ∃ txsFees, reconcileDirty ctx switch (store, session, false) (ext, block) =
      (insertOkExt (attach ctx.calcDataHash store block) block.hash ext txsFees,
        session.push ctx.chainRootMMR store.getHeaderDigest block.digest, false) := by
  by_cases disabled : switch.disableAll = true
  · exact ⟨none, by simp [reconcileDirty, disabled, attachAndPush]⟩
  · have verifies := passes.resolve_left disabled store session block
    obtain ⟨txsFees, verified⟩ := Option.isSome_iff_exists.mp verifies
    exact ⟨some txsFees, by simp [reconcileDirty, disabled, verified, attachAndPush]⟩

variable [LinearOrder H]

theorem foldl_reconcileDirty (passes : Passes ctx switch) :
    ∀ (pairs : List (BlockExt × Block H)) (store : Store H) (blockExt : FiniteMap H BlockExt)
      (session : Session (HeaderDigest H)), (pairs.map (·.2.hash)).Nodup →
      ∃ blockExt', pairs.foldl (reconcileDirty ctx switch) ({ store with blockExt := blockExt }, session, false) =
          ({ (pairs.map (·.2)).foldl (attach ctx.calcDataHash) store with blockExt := blockExt' },
            (pairs.map (·.2.digest)).foldl (Session.push ctx.chainRootMMR store.getHeaderDigest) session, false) ∧
        (∀ hash ∉ pairs.map (·.2.hash), blockExt'.lookup hash = blockExt.lookup hash) ∧
        ∀ pair ∈ pairs, ∃ txsFees, blockExt'.lookup pair.2.hash = some { pair.1 with verified := some true, txsFees := txsFees } := by
  intro pairs
  induction pairs with
  | nil => exact fun store blockExt session _ => ⟨blockExt, rfl, fun _ _ => rfl, by simp⟩
  | cons pair rest ih =>
    intro store blockExt session distinct
    obtain ⟨ext, block⟩ := pair
    rw [List.map_cons, List.nodup_cons] at distinct
    obtain ⟨txsFees, stepped⟩ := reconcileDirty_of_passes passes { store with blockExt := blockExt } session ext block
    set stored : BlockExt := { ext with verified := some true, txsFees := txsFees.getD ext.txsFees }
    obtain ⟨blockExt', ran, others, own⟩ :=
      ih (attach ctx.calcDataHash store block) (blockExt.insert block.hash stored)
        (session.push ctx.chainRootMMR store.getHeaderDigest block.digest) distinct.2
    refine ⟨blockExt', ?_, fun hash absent => ?_, fun pair member => ?_⟩
    · rw [List.foldl_cons, stepped]
      exact ran
    · rw [List.map_cons, List.mem_cons, not_or] at absent
      rw [others hash absent.2, Finmap.lookup_insert_of_ne _ absent.1]
    · rcases List.mem_cons.mp member with first | later
      · subst first
        exact ⟨txsFees.getD ext.txsFees, by rw [others block.hash distinct.1, Finmap.lookup_insert]⟩
      · exact own pair later

/-- `reconcile_main_chain` of a fork whose attached blocks split into a verified lower part and an
upper part with one dirty ext each: everything is attached, the upper part's exts are stored
verified, and the session pushed with every attached block's digest is committed. -/
theorem reconcileMainChain_eq (passes : Passes ctx switch) (store : Store H) {fork : ForkChanges H}
    {lower upper : List (Block H)} {start : Block H} (attached : fork.attachedBlocks = lower ++ upper)
    (startAt : (lower ++ upper).head? = some start) (dirtyLength : fork.dirtyExts.length = upper.length)
    (distinct : (upper.map Block.hash).Nodup) :
    ∃ blockExt, reconcileMainChain ctx switch store fork =
        .ok (commitSession { (lower ++ upper).foldl (attach ctx.calcDataHash) store with blockExt := blockExt }
          (((lower ++ upper).map Block.digest).foldl (Session.push ctx.chainRootMMR store.getHeaderDigest)
            ⟨leafIndexToMmrSize ctx.chainRootMMR (start.number - 1), []⟩)) ∧
      (∀ hash ∉ upper.map Block.hash, blockExt.lookup hash = store.blockExt.lookup hash) ∧
      ∀ pair ∈ fork.dirtyExts.zip upper, ∃ txsFees,
        blockExt.lookup pair.2.hash = some { pair.1 with verified := some true, txsFees := txsFees } := by
  have verifiedLen : fork.verifiedLen = lower.length := by
    simp [ForkChanges.verifiedLen, attached, dirtyLength]
  have snd : (fork.dirtyExts.zip upper).map (·.2) = upper := List.map_snd_zip (by omega)
  have hashes : (fork.dirtyExts.zip upper).map (·.2.hash) = upper.map Block.hash := by
    rw [show (fun pair : BlockExt × Block H => pair.2.hash) = Block.hash ∘ (·.2) from rfl, ← List.map_map, snd]
  have digests : (fork.dirtyExts.zip upper).map (·.2.digest) = upper.map Block.digest := by
    rw [show (fun pair : BlockExt × Block H => pair.2.digest) = Block.digest ∘ (·.2) from rfl, ← List.map_map, snd]
  set verified := lower.foldl (attach ctx.calcDataHash) store
  obtain ⟨blockExt, ran, others, own⟩ := foldl_reconcileDirty passes (fork.dirtyExts.zip upper) verified verified.blockExt
    ((lower.map Block.digest).foldl (Session.push ctx.chainRootMMR store.getHeaderDigest)
      ⟨leafIndexToMmrSize ctx.chainRootMMR (start.number - 1), []⟩) (by rw [hashes]; exact distinct)
  refine ⟨blockExt, ?_, fun hash absent => ?_, own⟩
  · obtain ⟨rest, split⟩ : ∃ rest, lower ++ upper = start :: rest := by
      cases joined : lower ++ upper with
      | nil => simp [joined] at startAt
      | cons first rest => simp_all
    rw [reconcileMainChain, attached, split]
    simp only
    rw [← split, verifiedLen, List.take_left' rfl, List.drop_left' rfl, foldl_attachAndPush, ← attached, ran, snd,
      digests, getHeaderDigest_foldl_attach]
    simp only [Bool.false_eq_true, ↓reduceIte, attached, List.foldl_append, List.map_append]
    rfl
  · rw [others hash (by rwa [hashes]), blockExt_foldl_attach]

end Ckb
