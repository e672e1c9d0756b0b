import DeltaTxn.Spec.Kernel
import DeltaTxn.Spec.Pb

/-!
# Translation between the wire and delta-rs (`grpc/mapping.rs`)

Each definition has the name of the function it models, in camel case. Write direction:
`mapActions` and what it calls. Read direction: `mapActiveFileToPb` and
`mapStatsJsonToPb`. The two loops over a file's columns are folds that insert into a map,
as in the source; the keys of a hash map are visited in key order.
-/

namespace DeltaTxn

variable (cr : Crates)

/-! ## Statistics, read direction -/

def valueToMin : Value → Option Pb.MinValue
  | .string s => some (.minString s)
  | .bool b => some (.minBool b)
  -- an integer above `i64::MAX` is read as a double
  | .number n => (n.asI64.map .minInt).or (n.asF64.map .minDouble)
  | _ => none

def valueToMax : Value → Option Pb.MaxValue
  | .string s => some (.maxString s)
  | .bool b => some (.maxBool b)
  | .number n => (n.asI64.map .maxInt).or (n.asF64.map .maxDouble)
  | _ => none

/-- The keys of an optional map. -/
def optKeys (m : Option (HashMap Value)) : List String := (m.map fun m => m.keys).getD []

/-- The body of `map_stats_json_to_pb`, once the text is parsed. -/
def statsValueToPb (value : Value) : Pb.FileStats :=
  -- a count that is missing, or no `i64`, is read as zero
  let numRecords := ((value.get "numRecords").bind Value.asI64).getD 0
  let minValues := (value.get "minValues").bind Value.asObject
  let maxValues := (value.get "maxValues").bind Value.asObject
  let nullCounts := (value.get "nullCount").bind Value.asObject
  -- a column counts if any of the three mentions it
  let columnNames := optKeys minValues ++ optKeys maxValues ++ optKeys nullCounts
  let columns := HashMap.collect (fun column =>
    { minValue := (minValues.bind fun m => m[column]?).bind valueToMin
      maxValue := (maxValues.bind fun m => m[column]?).bind valueToMax
      nullCount := ((nullCounts.bind fun m => m[column]?).bind Value.asI64).getD 0 }) columnNames
  { numRecords, columns }

def mapStatsJsonToPb (statsJson : Option String) : Option Pb.FileStats := do
  let statsJson ← statsJson
  let value ← cr.jsonFromStr statsJson
  some (statsValueToPb value)

def mapActiveFileToPb (path : String) (size modificationTime : Int64)
    (partitionValues : HashMap (Option String)) (statsJson : Option String) : Pb.AddFile where
  path := path
  size := size
  modificationTime := modificationTime
  partitionValues := partitionValues.map fun _ v => v.getD ""
  dataChange := Pb.DataChange.isTrue.toI32
  stats := mapStatsJsonToPb cr statsJson
  tags := ∅

/-! ## Statistics, write direction -/

def mapColumnMinValue (value : Option Pb.MinValue) : Option Value := do
  match ← value with
  | .minInt v => some (.ofI64 v)
  -- JSON has no NaN and no infinities: such a value is left out
  | .minDouble v => (Number.fromF64 v).map .number
  | .minString v => some (.string v)
  | .minBool v => some (.bool v)

def mapColumnMaxValue (value : Option Pb.MaxValue) : Option Value := do
  match ← value with
  | .maxInt v => some (.ofI64 v)
  | .maxDouble v => (Number.fromF64 v).map .number
  | .maxString v => some (.string v)
  | .maxBool v => some (.bool v)

/-- The three maps `map_file_stats` fills, column by column. -/
structure StatsMaps where
  minValues : HashMap Value
  maxValues : HashMap Value
  nullCount : HashMap Value

/-- One pass of the loop of `map_file_stats`. -/
def StatsMaps.push (m : StatsMaps) (c : String × Pb.ColumnStats) : StatsMaps where
  minValues := m.minValues.insertSome c.1 (mapColumnMinValue c.2.minValue)
  maxValues := m.maxValues.insertSome c.1 (mapColumnMaxValue c.2.maxValue)
  nullCount := m.nullCount.insertSome c.1 (some (.ofI64 c.2.nullCount))

/-- The JSON value `map_file_stats` builds. -/
def fileStatsJson (stats : Pb.FileStats) : Value :=
  let m := stats.columns.toList.foldl StatsMaps.push ⟨∅, ∅, ∅⟩
  .ofMap (Std.ExtTreeMap.ofList
    [("numRecords", .ofI64 stats.numRecords), ("minValues", .ofMap m.minValues),
      ("maxValues", .ofMap m.maxValues), ("nullCount", .ofMap m.nullCount)] compare)

def mapFileStats (stats : Option Pb.FileStats) : Option String :=
  stats.map fun stats => cr.jsonToString (fileStatsJson stats)

/-! ## Actions -/

def mapStringMap (input : HashMap String) : HashMap (Option String) := input.map fun _ v => some v

def mapOptionalStringMap (input : HashMap String) : Option (HashMap (Option String)) :=
  if input.isEmpty then none else some (mapStringMap input)

def mapDataChange (dc : Int32) : Except String Bool :=
  match Pb.DataChange.tryFrom dc with
  | some .isTrue => .ok true
  | some .isFalse => .ok false
  -- the default of the enum is rejected, not taken for either
  | some .unspecified => .error "data_change is unspecified"
  | none => .error ("invalid data_change value: " ++ toString dc)

def mapProtocol (protocol : Pb.Protocol) : Except String Kernel.Protocol :=
  cr.protocolFromValue (.ofMap (Std.ExtTreeMap.ofList
    [("minReaderVersion", .ofI64 protocol.minReaderVersion.toInt64),
      ("minWriterVersion", .ofI64 protocol.minWriterVersion.toInt64)] compare))

/-- The JSON value of an optional string. -/
def optString : Option String → Value
  | some s => .string s
  | none => .null

/-- The JSON value of an optional `i64`. -/
def optI64 : Option Int64 → Value
  | some i => .ofI64 i
  | none => .null

/-- The JSON object of a string map. -/
def stringMapValue (m : HashMap String) : Value := .ofMap (m.map fun _ v => .string v)

/-- The JSON value `map_metadata` builds. -/
def metadataJson (metadata : Pb.TableMetadata) : Value :=
  let name := if metadata.name.isEmpty then none else some metadata.name
  let description := if metadata.description.isEmpty then none else some metadata.description
  let createdTime := if metadata.createdTime = 0 then none else some metadata.createdTime
  .ofMap (Std.ExtTreeMap.ofList
    [("id", .string metadata.id), ("name", optString name), ("description", optString description),
      ("format", .ofMap (Std.ExtTreeMap.ofList
        [("provider", .string "parquet"), ("options", .ofMap ∅)] compare)),
      ("schemaString", .string metadata.schemaString),
      ("partitionColumns", .array (metadata.partitionColumns.map .string)),
      ("configuration", stringMapValue metadata.configuration),
      ("createdTime", optI64 createdTime)] compare)

def mapMetadata (metadata : Pb.TableMetadata) : Except String Kernel.Metadata :=
  cr.metadataFromValue (metadataJson metadata)

def mapJsonMap (input : HashMap String) : Option (HashMap Value) :=
  -- every value stays a JSON string
  if input.isEmpty then none else some (input.map fun _ v => .string v)

def mapUserMetadata (input : HashMap String) : Except String (Option String) :=
  if input.isEmpty then .ok none else (cr.mapToString input).map some

def mapEngineInfo (name version : String) : Option String :=
  match name.isEmpty, version.isEmpty with
  | true, true => none
  | false, true => some name
  | true, false => some version
  | false, false => some (name ++ "/" ++ version)

def mapCommitOperation (operation : Int32) : Option String := do
  match ← Pb.CommitOperation.tryFrom operation with
  | .write => some "WRITE"
  | .merge => some "MERGE"
  | .update => some "UPDATE"
  | .delete => some "DELETE"
  | .optimize => some "OPTIMIZE"
  | .vacuum => some "VACUUM"
  | .restore => some "RESTORE"
  | .convert => some "CONVERT"
  | .unspecified => none

def mapCommitInfo (commitInfo : Pb.CommitInfo) : Except String Kernel.CommitInfo := do
  let operation := mapCommitOperation commitInfo.operation
  let operationParameters := mapJsonMap commitInfo.operationParameters
  let userMetadata ← mapUserMetadata cr commitInfo.userMetadata
  let engineInfo := mapEngineInfo commitInfo.engineName commitInfo.engineVersion
  let timestamp := if commitInfo.timestamp = 0 then none else some commitInfo.timestamp
  return { timestamp, operation, operationParameters, engineInfo, userMetadata }

/-- The `Add` arm of `map_action`. -/
def mapAdd (a : Pb.AddFile) : Except String Kernel.Add := do
  let dataChange ← mapDataChange a.dataChange
  return {
    path := a.path
    partitionValues := mapStringMap a.partitionValues
    size := a.size
    modificationTime := a.modificationTime
    dataChange
    stats := mapFileStats cr a.stats
    tags := mapOptionalStringMap a.tags
    deletionVector := none
    baseRowId := none
    defaultRowCommitVersion := none
    clusteringProvider := none }

/-- The `Remove` arm of `map_action`. -/
def mapRemove (r : Pb.RemoveFile) : Except String Kernel.Remove := do
  let dataChange ← mapDataChange r.dataChange
  return {
    path := r.path
    dataChange
    deletionTimestamp := r.deletionTimestamp
    extendedFileMetadata := none
    partitionValues := none
    size := none
    tags := none
    deletionVector := none
    baseRowId := none
    defaultRowCommitVersion := none }

def mapAction (action : Pb.Action) : Except String Kernel.Action :=
  match action.action with
  | none => .error "missing action"
  | some (.add a) => .add <$> mapAdd cr a
  | some (.remove r) => .remove <$> mapRemove r
  | some (.protocol p) => .protocol <$> mapProtocol cr p
  | some (.metaData m) => .metadata <$> mapMetadata cr m
  | some (.commitInfo ci) => .commitInfo <$> mapCommitInfo cr ci

/-- `map_actions`: collecting stops at the first error. -/
def mapActions (pbActions : List Pb.Action) : Except String (List Kernel.Action) :=
  pbActions.mapM (mapAction cr)

end DeltaTxn
