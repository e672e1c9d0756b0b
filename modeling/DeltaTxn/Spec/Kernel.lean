import DeltaTxn.Spec.Json
import DeltaTxn.Spec.Status

/-!
# delta-rs types

The kernel actions a commit is made of, the `DeltaOperation` handed to `CommitBuilder`, and
the snapshot of a table. An action of another kind is never built by the service. Of
`kernel::CommitInfo` only the fields that the service sets are kept: the others stay at
their defaults.

`Crates` collects the third-party functions the translation calls: the JSON text of a
value, and delta-rs's own deserializers. They are parameters of the model.
-/

namespace DeltaTxn

/-- A table's location, `url::Url`. -/
structure Url where
  asStr : String
  deriving DecidableEq

/-- A version of a table's log, as delta-rs counts them. -/
abbrev Version : Type := UInt64

namespace Kernel

structure DeletionVectorDescriptor where
  storageType : String
  pathOrInlineDv : String
  offset : Option Int32
  sizeInBytes : Int32
  cardinality : Int64

structure Add where
  path : String
  partitionValues : HashMap (Option String)
  size : Int64
  modificationTime : Int64
  dataChange : Bool
  stats : Option String
  tags : Option (HashMap (Option String))
  deletionVector : Option DeletionVectorDescriptor
  baseRowId : Option Int64
  defaultRowCommitVersion : Option Int64
  clusteringProvider : Option String

structure Remove where
  path : String
  dataChange : Bool
  deletionTimestamp : Option Int64
  extendedFileMetadata : Option Bool
  partitionValues : Option (HashMap (Option String))
  size : Option Int64
  tags : Option (HashMap (Option String))
  deletionVector : Option DeletionVectorDescriptor
  baseRowId : Option Int64
  defaultRowCommitVersion : Option Int64

structure Protocol where
  minReaderVersion : Int32
  minWriterVersion : Int32
  readerFeatures : Option (List String)
  writerFeatures : Option (List String)

structure Format where
  provider : String
  options : HashMap String

structure Metadata where
  id : String
  name : Option String
  description : Option String
  format : Format
  schemaString : String
  partitionColumns : List String
  configuration : HashMap String
  createdTime : Option Int64

structure CommitInfo where
  timestamp : Option Int64
  operation : Option String
  operationParameters : Option (HashMap Value)
  engineInfo : Option String
  userMetadata : Option String

inductive Action
  | add (a : Add)
  | remove (r : Remove)
  | protocol (p : Protocol)
  | metadata (m : Metadata)
  | commitInfo (ci : CommitInfo)

end Kernel

/-- `SaveMode`, the modes the service uses. -/
inductive SaveMode
  | append | errorIfExists
  deriving DecidableEq

/-- `DeltaOperation`, the operations the service uses. -/
inductive DeltaOperation
  | create (mode : SaveMode) (location : Url) (protocol : Kernel.Protocol) (metadata : Kernel.Metadata)
  | write (mode : SaveMode) (partitionBy : Option (List String)) (predicate : Option String)
  | merge (predicate mergePredicate : Option String)
      (matchedPredicates notMatchedPredicates notMatchedBySourcePredicates : List String)
  | update (predicate : Option String)
  | delete (predicate : Option String)
  | optimize (predicate : Option String) (targetSize : Int64)
  | vacuumStart (retentionCheckEnabled : Bool) (specifiedRetentionMillis : Option Int64)
      (defaultRetentionMillis : Int64)
  | restore (version : Option UInt64) (datetime : Option Int64)

/-- A parsed table schema, `StructType`, by its JSON form. -/
structure StructType where
  json : Value

/-- The third-party functions the service calls on plain data. -/
structure Crates where
  /-- `serde_json::to_string` of a value. -/
  jsonToString : Value → String
  /-- `serde_json::from_str` to a value. -/
  jsonFromStr : String → Option Value
  /-- `serde_json::to_string` of a string map. -/
  mapToString : HashMap String → Except String String
  /-- `serde_json::from_value` to a `kernel::Protocol`. -/
  protocolFromValue : Value → Except String Kernel.Protocol
  /-- `serde_json::from_value` to a `kernel::Metadata`. -/
  metadataFromValue : Value → Except String Kernel.Metadata
  /-- `Metadata::parse_schema`, which reads the schema string. -/
  parseSchema : String → Except String StructType
  /-- `serde_json::to_string` of a schema. -/
  schemaToString : StructType → Except String String

/-- The JSON text of `v` is read back as `v`. -/
def Crates.Reparses (cr : Crates) (v : Value) : Prop := cr.jsonFromStr (cr.jsonToString v) = some v

end DeltaTxn
