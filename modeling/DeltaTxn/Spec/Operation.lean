import DeltaTxn.Spec.Kernel

/-!
# Choosing the operation of a commit (`delta/commit.rs`, the pure part)

`buildOperation` reads the first `CommitInfo` of the mapped actions; `findProtocol` and
`findMetadata` are the scans that `commit` and `create_table` share.
-/

namespace DeltaTxn

def findProtocol (actions : List Kernel.Action) : Option Kernel.Protocol :=
  actions.findSome? fun
    | .protocol p => some p
    | _ => none

def findMetadata (actions : List Kernel.Action) : Option Kernel.Metadata :=
  actions.findSome? fun
    | .metadata m => some m
    | _ => none

/-- The first `CommitInfo`, as `build_operation` looks for it. -/
def findCommitInfo (actions : List Kernel.Action) : Option Kernel.CommitInfo :=
  actions.findSome? fun
    | .commitInfo ci => some ci
    | _ => none

def defaultWriteOperation : DeltaOperation := .write .append none none

def stringParam (params : Option (HashMap Value)) (key : String) : Option String := do
  (← (← params)[key]?).asStr

def intParam (params : Option (HashMap Value)) (key : String) : Option Int64 := do
  (← (← params)[key]?).asI64

def uintParam (params : Option (HashMap Value)) (key : String) : Option UInt64 := do
  (← (← params)[key]?).asU64

/-- The operation `build_operation` chooses for a `CommitInfo`. -/
def operationOf (operation : Option String) (params : Option (HashMap Value)) : DeltaOperation :=
  match operation with
  | some "MERGE" =>
    .merge (stringParam params "predicate") (stringParam params "merge_predicate") [] [] []
  | some "UPDATE" => .update (stringParam params "predicate")
  | some "DELETE" => .delete (stringParam params "predicate")
  | some "OPTIMIZE" =>
    .optimize (stringParam params "predicate") ((intParam params "target_size").getD 0)
  | some "VACUUM" =>
    .vacuumStart true (intParam params "specified_retention_millis")
      ((intParam params "default_retention_millis").getD 0)
  | some "RESTORE" => .restore (uintParam params "version") (intParam params "datetime")
  | _ => defaultWriteOperation

def buildOperation (actions : List Kernel.Action) : DeltaOperation :=
  match findCommitInfo actions with
  | none => defaultWriteOperation
  | some ci => operationOf ci.operation ci.operationParameters

end DeltaTxn
