import Ckb.Verification.MedianTime
import Ckb.Verification.Uncles

/-!
`HeaderVerifier` (`ckb-verification::header_verifier`): the checks a header gets against its parent.
In order: the version, unless the 2023 hardfork has removed the reservation rule at the header's
epoch; the proof of work; that the parent is known; that the number follows the parent's; that the
epoch is well formed and follows the parent's, unless the parent's is the genesis value; and the
timestamp, against the median time of the blocks before it and the clock.

The header is read through its `HeaderFields` and its version. The proof of work engine and the
hardfork switch are the predicates of `HeaderConsensus`. `parent + 1` panics on overflow, which is
`none`.
-/

namespace Ckb.Verification.Header

inductive EpochError where
  | malformed (value : EpochNumberWithFraction)
  | nonContinuous (current parent : EpochNumberWithFraction)
deriving DecidableEq, Repr

/-- The `ckb_error::Error`s header verification returns. -/
inductive HeaderError (H : Type) where
  | blockVersion (expected actual : Nat)
  | pow (error : PowError)
  | unknownParent (parentHash : H)
  | number (expected actual : Nat)
  | epoch (error : EpochError)
  | timestamp (error : TimestampError)
deriving DecidableEq, Repr

/-- `HeaderView`: the fields the verifiers read, and the version. -/
structure HeaderView (H : Type) where
  fields : HeaderFields H
  version : Nat
deriving DecidableEq, Repr

/-- What header verification reads of `Consensus`. -/
structure HeaderConsensus (H : Type) where
  blockVersion : Nat
  isRemoveHeaderVersionReservationRuleEnabled : Nat → Bool
  powVerify : HeaderView H → Bool
  medianTimeBlockCount : Nat

variable {H : Type}

def VersionVerifier.verify (consensus : HeaderConsensus H) (header : HeaderView H) : Except (HeaderError H) Unit :=
  if !consensus.isRemoveHeaderVersionReservationRuleEnabled header.fields.epoch.number &&
      header.version ≠ consensus.blockVersion then
    .error (.blockVersion consensus.blockVersion header.version)
  else .ok ()

def PowVerifier.verify (powVerify : HeaderView H → Bool) (header : HeaderView H) : Except (HeaderError H) Unit :=
  if powVerify header then .ok () else .error (.pow .invalidNonce)

def NumberVerifier.verify (parent : Nat) (header : HeaderFields H) : ExceptT (HeaderError H) Option Unit := do
  let expected ← ExceptT.lift (checkedAdd parent 1)
  if header.number ≠ expected then throw (.number expected header.number) else pure ()

def EpochVerifier.verify (parent : EpochNumberWithFraction) (header : HeaderFields H) : Except (HeaderError H) Unit :=
  if !header.epoch.isWellFormed then .error (.epoch (.malformed header.epoch))
  else if !parent.isGenesis && !header.epoch.isSuccessorOf parent then
    .error (.epoch (.nonContinuous header.epoch parent))
  else .ok ()

/-- `HeaderVerifier::verify`, with the clock of the timestamp verifier at `now`. -/
def HeaderVerifier.verify (dataLoader : HeaderFieldsProvider H) (consensus : HeaderConsensus H) (now : Nat)
    (header : HeaderView H) : ExceptT (HeaderError H) Option Unit := do
  liftExcept (VersionVerifier.verify consensus header)
  -- the proof of work is checked first
  liftExcept (PowVerifier.verify consensus.powVerify header)
  let parentFields ← liftExcept (ExceptT.okOr (dataLoader.getHeaderFields header.fields.parentHash)
    (HeaderError.unknownParent header.fields.parentHash))
  NumberVerifier.verify parentFields.number header.fields
  liftExcept (EpochVerifier.verify parentFields.epoch header.fields)
  (TimestampVerifier.verify ⟨dataLoader, header.fields, consensus.medianTimeBlockCount, now⟩).adapt HeaderError.timestamp

end Ckb.Verification.Header
