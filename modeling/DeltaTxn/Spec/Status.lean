import Mathlib.Tactic.Common

/-!
# Errors and statuses

The errors delta-rs reports, the service's own `DeltaTxnError`, and how both become the
`tonic::Status` a client receives. What is only logged is not modelled.
-/

namespace DeltaTxn

inductive Code
  | ok | cancelled | unknown | invalidArgument | deadlineExceeded | notFound | alreadyExists
  | permissionDenied | resourceExhausted | failedPrecondition | aborted | outOfRange
  | unimplemented | internal | unavailable | dataLoss | unauthenticated
  deriving DecidableEq

structure Status where
  code : Code
  message : String
  deriving DecidableEq

namespace Status

def invalidArgument (message : String) : Status := ⟨.invalidArgument, message⟩
def notFound (message : String) : Status := ⟨.notFound, message⟩
def permissionDenied (message : String) : Status := ⟨.permissionDenied, message⟩
def failedPrecondition (message : String) : Status := ⟨.failedPrecondition, message⟩
def aborted (message : String) : Status := ⟨.aborted, message⟩
def internal (message : String) : Status := ⟨.internal, message⟩
def unauthenticated (message : String) : Status := ⟨.unauthenticated, message⟩

end Status

/-- What kind of failure a delta-rs call reports. `commitConflict` and `maxCommitAttempts`
are how `CommitBuilder` gives up because of a concurrent commit; `other` stands for every
kind the service does not tell apart. -/
inductive DeltaTableErrorKind
  | notATable | notInitialized | commitConflict | maxCommitAttempts | other
  deriving DecidableEq

/-- `DeltaTableError`: its kind, and what `to_string` gives. -/
structure DeltaTableError where
  kind : DeltaTableErrorKind
  text : String
  deriving DecidableEq

/-- `CommitBuilder` gave up because another commit landed first. -/
def DeltaTableError.isConflict (e : DeltaTableError) : Bool :=
  match e.kind with
  | .commitConflict | .maxCommitAttempts => true
  | _ => false

inductive DeltaTxnError
  | openFailed (text : String)
  | commitFailed (text : String)
  | versionConflict (expected actual : Int64)
  deriving DecidableEq

/-- `From<DeltaTxnError> for tonic::Status`. -/
def DeltaTxnError.toStatus : DeltaTxnError → Status
  | versionConflict expected actual =>
    .aborted ("version conflict: expected " ++ toString expected ++ ", found " ++ toString actual)
  | openFailed _ | commitFailed _ => .internal "internal error processing delta table"

def mapOpenOrSnapshotError (e : DeltaTableError) : Status :=
  match e.kind with
  | .notInitialized => .failedPrecondition "table not initialized"
  | _ => .internal "internal error loading table snapshot"

end DeltaTxn
