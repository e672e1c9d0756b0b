import DeltaTxn.Data.HashMap

/-!
# The wire messages

The messages of `proto/delta_txn.proto`, as the generated code represents them: `int64` and
`int32` are machine integers, an enum field holds any `int32`, a `oneof` is an optional
inductive, and a `map` is a finite map. Names are those of the generated code, in camel case.
-/

namespace DeltaTxn.Pb

inductive CommitOperation
  | unspecified | write | merge | update | delete | optimize | vacuum | restore | convert
  deriving DecidableEq

def CommitOperation.tryFrom (i : Int32) : Option CommitOperation :=
  if i = 0 then some unspecified
  else if i = 1 then some write
  else if i = 2 then some merge
  else if i = 3 then some update
  else if i = 4 then some delete
  else if i = 5 then some optimize
  else if i = 6 then some vacuum
  else if i = 7 then some restore
  else if i = 8 then some convert
  else none

/-- `CommitOperation as i32`. -/
def CommitOperation.toI32 : CommitOperation → Int32
  | unspecified => 0
  | write => 1
  | merge => 2
  | update => 3
  | delete => 4
  | optimize => 5
  | vacuum => 6
  | restore => 7
  | convert => 8

@[simp] theorem CommitOperation.tryFrom_toI32 (o : CommitOperation) :
    tryFrom o.toI32 = some o := by
  cases o <;> rfl

inductive DataChange
  | unspecified | isTrue | isFalse
  deriving DecidableEq

def DataChange.tryFrom (i : Int32) : Option DataChange :=
  if i = 0 then some unspecified
  else if i = 1 then some isTrue
  else if i = 2 then some isFalse
  else none

/-- `DataChange as i32`. -/
def DataChange.toI32 : DataChange → Int32
  | unspecified => 0
  | isTrue => 1
  | isFalse => 2

@[simp] theorem DataChange.tryFrom_toI32 (d : DataChange) : tryFrom d.toI32 = some d := by
  cases d <;> rfl

inductive MinValue
  | minInt (v : Int64) | minDouble (v : Float) | minString (v : String) | minBool (v : Bool)
  deriving DecidableEq

inductive MaxValue
  | maxInt (v : Int64) | maxDouble (v : Float) | maxString (v : String) | maxBool (v : Bool)
  deriving DecidableEq

structure ColumnStats where
  minValue : Option MinValue
  maxValue : Option MaxValue
  nullCount : Int64
  deriving DecidableEq

@[ext] structure FileStats where
  numRecords : Int64
  columns : HashMap ColumnStats

structure AddFile where
  path : String
  size : Int64
  modificationTime : Int64
  partitionValues : HashMap String
  dataChange : Int32
  stats : Option FileStats
  tags : HashMap String

structure RemoveFile where
  path : String
  deletionTimestamp : Option Int64
  dataChange : Int32

structure Protocol where
  minReaderVersion : Int32
  minWriterVersion : Int32
  deriving DecidableEq

structure TableMetadata where
  id : String
  name : String
  description : String
  schemaString : String
  partitionColumns : List String
  configuration : HashMap String
  createdTime : Int64

structure CommitInfo where
  engineName : String
  engineVersion : String
  operation : Int32
  operationParameters : HashMap String
  userMetadata : HashMap String
  timestamp : Int64

/-- `action::Action`, the variants of the oneof. -/
inductive ActionKind
  | add (a : AddFile)
  | remove (r : RemoveFile)
  | protocol (p : Protocol)
  | metaData (m : TableMetadata)
  | commitInfo (ci : CommitInfo)

structure Action where
  action : Option ActionKind

/-- `CommitRequest`; `app_metadata` is not read by the service. -/
structure CommitRequest where
  tableUri : String
  expectedVersion : Option Int64
  actions : List Action

structure CommitResponse where
  committedVersion : Int64
  deriving DecidableEq

structure GetTableRequest where
  tableUri : String

structure GetTableResponse where
  version : Int64
  metadata : Option TableMetadata
  protocol : Option Protocol

structure ListActiveFilesRequest where
  tableUri : String

structure ListActiveFilesHeader where
  version : Int64
  metadata : Option TableMetadata
  protocol : Option Protocol

structure ListActiveFilesBatch where
  files : List AddFile

inductive Payload
  | header (h : ListActiveFilesHeader)
  | batch (b : ListActiveFilesBatch)

structure ListActiveFilesResponse where
  payload : Option Payload

end DeltaTxn.Pb
