import DeltaTxn.Spec.Server

/-!
# A table's definition, through the log and back

A Commit writes a TableMetadata and a Protocol as JSON objects that delta-rs deserializes;
GetTable and the header of ListActiveFiles read them off the snapshot. Three members are null
where the wire has a default, and a default again where the snapshot has none.

* `MetadataMembers`, `ProtocolMembers`: fields that are the members of an object.
* `metadata_fields`, `protocol_fields`: what becomes of a definition that is accepted.
* `definition_round_trip`: a definition read back, and committed and read back again.
-/

namespace DeltaTxn

variable {cr : Crates}

/-! ## What is assumed of delta-rs -/

/-- Each field of `k` is the member of `v` of its name, if there is one. -/
structure MetadataMembers (v : Value) (k : Kernel.Metadata) : Prop where
  id : ∀ x, v.get "id" = some x → x = .string k.id
  name : ∀ x, v.get "name" = some x → x = optString k.name
  description : ∀ x, v.get "description" = some x → x = optString k.description
  schemaString : ∀ x, v.get "schemaString" = some x → x = .string k.schemaString
  partitionColumns : ∀ x, v.get "partitionColumns" = some x →
    x = .array (k.partitionColumns.map .string)
  configuration : ∀ x, v.get "configuration" = some x →
    x.asObject = some (k.configuration.map fun _ s => .string s)
  createdTime : ∀ x, v.get "createdTime" = some x → x = optI64 k.createdTime

/-- Each field of `k` is the member of `v` of its name, if there is one. -/
structure ProtocolMembers (v : Value) (k : Kernel.Protocol) : Prop where
  minReaderVersion : ∀ x, v.get "minReaderVersion" = some x → x = .ofI64 k.minReaderVersion.toInt64
  minWriterVersion : ∀ x, v.get "minWriterVersion" = some x → x = .ofI64 k.minWriterVersion.toInt64

/-- **Deserialization fills the fields from the members**, and takes any schema string. -/
structure Crates.FillsFields (cr : Crates) : Prop where
  metadata : ∀ v k, cr.metadataFromValue v = .ok k → MetadataMembers v k
  protocol : ∀ v k, cr.protocolFromValue v = .ok k → ProtocolMembers v k
  anySchema : ∀ v v' k s s', cr.metadataFromValue v = .ok k → v.get "schemaString" = some (.string s) →
    v'.get "schemaString" = some (.string s') →
    (∀ key, key ≠ "schemaString" → v'.get key = v.get key) →
    ∃ k', cr.metadataFromValue v' = .ok k'

/-- **A schema that was parsed is serialized**, to a text that parses to the same schema. -/
def Crates.SchemaReparses (cr : Crates) : Prop :=
  ∀ s schema, cr.parseSchema s = .ok schema →
    ∃ t, cr.schemaToString schema = .ok t ∧ cr.parseSchema t = .ok schema

/-! ## The members that are written -/

/-- The members of the object of a TableMetadata. -/
def metadataEntries (m : Pb.TableMetadata) : List (String × Value) :=
  [("id", .string m.id), ("name", optString (if m.name.isEmpty then none else some m.name)),
    ("description", optString (if m.description.isEmpty then none else some m.description)),
    ("format", .ofMap (Std.ExtTreeMap.ofList
      [("provider", .string "parquet"), ("options", .ofMap ∅)] compare)),
    ("schemaString", .string m.schemaString),
    ("partitionColumns", .array (m.partitionColumns.map .string)),
    ("configuration", stringMapValue m.configuration),
    ("createdTime", optI64 (if m.createdTime = 0 then none else some m.createdTime))]

theorem get_metadataJson (m : Pb.TableMetadata) (key : String) :
    (metadataJson m).get key = (metadataEntries m).lookup key := by
  have hd : ((metadataEntries m).map Prod.fst).Nodup := by
    change ["id", "name", "description", "format", "schemaString", "partitionColumns",
      "configuration", "createdTime"].Nodup
    decide
  rw [← HashMap.getElem?_ofList hd key]
  change (Value.ofMap (Std.ExtTreeMap.ofList (metadataEntries m) compare)).get key = _
  rw [Value.get, Value.asObject_ofMap, Option.bind_some]

/-- Two definitions that differ in their schema only have all other members in common. -/
theorem get_metadataJson_schema (m : Pb.TableMetadata) (t : String) {key : String}
    (h : key ≠ "schemaString") :
    (metadataJson { m with schemaString := t }).get key = (metadataJson m).get key := by
  have hkey : (key == "schemaString") = false := beq_eq_false_iff_ne.2 h
  rw [get_metadataJson, get_metadataJson]
  simp only [metadataEntries, List.lookup_cons, hkey]

/-! ## The fields that are read -/

theorem ofI64_injective {i j : Int64} (h : Value.ofI64 i = .ofI64 j) : i = j := by
  have hi := congrArg Value.asI64 h
  rw [Value.asI64_ofI64, Value.asI64_ofI64] at hi
  exact Option.some.inj hi

theorem toInt64_injective {i j : Int32} (h : i.toInt64 = j.toInt64) : i = j := by
  have hi := congrArg Int64.toInt h
  rw [Int32.toInt_toInt64, Int32.toInt_toInt64] at hi
  exact Int32.toInt_inj.1 hi

/-- An empty string is written as null, and null is read as an empty string. -/
theorem optString_getD {s : String} {o : Option String}
    (h : optString (if s.isEmpty then none else some s) = optString o) : o.getD "" = s := by
  split at h
  · rename_i hs
    rw [String.isEmpty_iff] at hs
    cases o with
    | none => exact hs.symm
    | some s' => cases h
  · cases o with
    | none => cases h
    | some s' =>
      cases h
      rfl

/-- So with zero. -/
theorem optI64_getD {i : Int64} {o : Option Int64}
    (h : optI64 (if i = 0 then none else some i) = optI64 o) : o.getD 0 = i := by
  split at h
  · rename_i hi
    cases o with
    | none => exact hi.symm
    | some j => cases h
  · cases o with
    | none => cases h
    | some j => exact (ofI64_injective h).symm

theorem map_string_injective {l l' : List String} (h : l.map Value.string = l'.map .string) :
    l = l' :=
  List.map_injective_iff.2 (fun _ _ => Value.string.inj) h

theorem stringMapValue_injective {m m' : HashMap String}
    (h : (stringMapValue m).asObject = some (m'.map fun _ s => .string s)) : m = m' := by
  rw [stringMapValue, Value.asObject_ofMap, Option.some.injEq] at h
  refine Std.ExtTreeMap.ext_getElem? fun k => ?_
  have hk := congrArg (·[k]?) h
  simp only [Std.ExtTreeMap.getElem?_map] at hk
  exact Option.map_injective (fun _ _ => Value.string.inj) hk

/-- Reading `k` gives the fields of `m`, its schema string apart. -/
structure ReadAs (k : Kernel.Metadata) (m : Pb.TableMetadata) : Prop where
  id : k.id = m.id
  name : k.name.getD "" = m.name
  description : k.description.getD "" = m.description
  schemaString : k.schemaString = m.schemaString
  partitionColumns : k.partitionColumns = m.partitionColumns
  configuration : k.configuration = m.configuration
  createdTime : k.createdTime.getD 0 = m.createdTime

/-- **A TableMetadata that is accepted** is read as it was sent. -/
theorem metadata_fields (hcr : cr.FillsFields) {m : Pb.TableMetadata} {k : Kernel.Metadata}
    (h : mapMetadata cr m = .ok k) : ReadAs k m := by
  have hk := hcr.metadata _ _ h
  have hget := get_metadataJson m
  exact {
    id := (Value.string.inj (hk.id _ (hget "id"))).symm
    name := optString_getD (hk.name _ (hget "name"))
    description := optString_getD (hk.description _ (hget "description"))
    schemaString := (Value.string.inj (hk.schemaString _ (hget "schemaString"))).symm
    partitionColumns := (map_string_injective
      (Value.array.inj (hk.partitionColumns _ (hget "partitionColumns")))).symm
    configuration := (stringMapValue_injective (hk.configuration _ (hget "configuration"))).symm
    createdTime := optI64_getD (hk.createdTime _ (hget "createdTime")) }

/-- **A Protocol that is accepted** is read as it was sent. -/
theorem protocol_fields (hcr : cr.FillsFields) {p : Pb.Protocol} {k : Kernel.Protocol}
    (h : mapProtocol cr p = .ok k) :
    k.minReaderVersion = p.minReaderVersion ∧ k.minWriterVersion = p.minWriterVersion := by
  have hk := hcr.protocol _ _ h
  constructor
  · refine (toInt64_injective (ofI64_injective (hk.minReaderVersion _ ?_))).symm
    rw [Value.get, Value.asObject_ofMap, Option.bind_some, HashMap.getElem?_ofList (by simp)]
    rfl
  · refine (toInt64_injective (ofI64_injective (hk.minWriterVersion _ ?_))).symm
    rw [Value.get, Value.asObject_ofMap, Option.bind_some, HashMap.getElem?_ofList (by simp)]
    rfl

/-! ## The round trip -/

/-- The snapshot holds a definition: its Metadata and Protocol are these. -/
def DeltaTableState.Holds (s : DeltaTableState) (m : Kernel.Metadata) (p : Kernel.Protocol) : Prop :=
  s.metadata = m ∧ s.protocol = p

/-- One trip: what is read of a snapshot that holds what was written. -/
theorem definition_read (hcr : cr.FillsFields) {m : Pb.TableMetadata} {p : Pb.Protocol}
    {km : Kernel.Metadata} {kp : Kernel.Protocol} {schema : StructType} {t : String}
    (hm : mapMetadata cr m = .ok km) (hp : mapProtocol cr p = .ok kp)
    (hs : cr.parseSchema m.schemaString = .ok schema) (ht : cr.schemaToString schema = .ok t)
    {s : DeltaTableState} (h : s.Holds km kp) :
    buildMetadataAndProtocol cr s = .ok ({ m with schemaString := t }, p) := by
  have hk := metadata_fields hcr hm
  obtain ⟨hr, hw⟩ := protocol_fields hcr hp
  obtain ⟨rfl, rfl⟩ := h
  have hparse : cr.parseSchema s.metadata.schemaString = .ok schema := by
    rw [hk.schemaString]
    exact hs
  unfold buildMetadataAndProtocol
  simp only [hparse, ht, Except.mapError, bind, Except.bind, hk.id, hk.name, hk.description,
    hk.partitionColumns, hk.configuration, hk.createdTime, hr, hw]
  rfl

/-- **A table's definition survives the trip through the log.** A TableMetadata whose schema
parses, and a Protocol, are read back as they were sent, but for the schema string, which is
now the one the schema is serialized to. Committing what was read succeeds, and reading it
again changes nothing more. -/
theorem definition_round_trip (hcr : cr.FillsFields) (hschema : cr.SchemaReparses)
    {m : Pb.TableMetadata} {p : Pb.Protocol} {km : Kernel.Metadata} {kp : Kernel.Protocol}
    {schema : StructType} (hs : cr.parseSchema m.schemaString = .ok schema)
    (hm : mapMetadata cr m = .ok km) (hp : mapProtocol cr p = .ok kp) :
    ∃ t, cr.schemaToString schema = .ok t ∧
      (∀ s : DeltaTableState, s.Holds km kp →
        buildMetadataAndProtocol cr s = .ok ({ m with schemaString := t }, p)) ∧
      ∃ km', mapMetadata cr { m with schemaString := t } = .ok km' ∧
        ∀ s : DeltaTableState, s.Holds km' kp →
          buildMetadataAndProtocol cr s = .ok ({ m with schemaString := t }, p) := by
  obtain ⟨t, ht, hparse⟩ := hschema _ _ hs
  obtain ⟨km', hm'⟩ := hcr.anySchema _ (metadataJson { m with schemaString := t }) _ m.schemaString t
    hm (get_metadataJson _ _) (get_metadataJson _ _) fun key => get_metadataJson_schema m t
  exact ⟨t, ht, fun s => definition_read hcr hm hp hs ht, km', hm',
    fun s => definition_read hcr hm' hp hparse ht⟩

/-! ## A definition of a table -/

/-- `from_value` on an object with a name and no description, one partition column, one
configuration entry, and no time. -/
def ordersMetadata (v : Value) : Except String Kernel.Metadata :=
  match v.get "id", v.get "name", v.get "description", v.get "schemaString",
    v.get "partitionColumns", v.get "configuration", v.get "createdTime" with
  | some (.string id), some (.string name), some .null, some (.string s),
    some (.array [.string column]), some (.object [(key, .string value)]), some .null =>
    .ok ⟨id, some name, none, ⟨"parquet", ∅⟩, s, [column], (∅ : HashMap String).insert key value, none⟩
  | _, _, _, _, _, _, _ => .error "not such an object"

/-- `from_value` on the object of one Protocol. -/
def ordersProtocol (v : Value) : Except String Kernel.Protocol :=
  if (v.get "minReaderVersion").bind Value.asI64 = some 1 ∧
      (v.get "minWriterVersion").bind Value.asI64 = some 2 then
    .ok ⟨1, 2, none, none⟩
  else .error "not that object"

/-- A schema, as a client may write it. -/
def spacedSchema : String :=
  "\x7b \"type\": \"struct\", \"fields\": [ " ++
    "\x7b \"name\": \"id\", \"type\": \"long\", \"nullable\": true, \"metadata\": \x7b\x7d \x7d, " ++
    "\x7b \"name\": \"year\", \"type\": \"integer\", \"nullable\": true, \"metadata\": \x7b\x7d \x7d ] \x7d"

/-- The same, as it is serialized. -/
def compactSchema : String :=
  "\x7b\"type\":\"struct\",\"fields\":[" ++
    "\x7b\"name\":\"id\",\"type\":\"long\",\"nullable\":true,\"metadata\":\x7b\x7d\x7d," ++
    "\x7b\"name\":\"year\",\"type\":\"integer\",\"nullable\":true,\"metadata\":\x7b\x7d\x7d]\x7d"

/-- A column, in the JSON form of a schema. -/
def schemaColumn (name type : String) : Value :=
  .object [("name", .string name), ("type", .string type), ("nullable", .bool true),
    ("metadata", .object [])]

/-- What both parse to. -/
def yearSchema : StructType where
  json := .object [("type", .string "struct"),
    ("fields", .array [schemaColumn "id" "long", schemaColumn "year" "integer"])]

/-- `parse_schema` on these two texts. -/
def ordersSchema (s : String) : Except String StructType :=
  if s = spacedSchema ∨ s = compactSchema then .ok yearSchema else .error "not that schema"

theorem ordersSchema_spaced : ordersSchema spacedSchema = .ok yearSchema := by
  simp [ordersSchema]

theorem ordersSchema_compact : ordersSchema compactSchema = .ok yearSchema := by
  simp [ordersSchema]

def ordersCrates : Crates where
  jsonToString _ := ""
  jsonFromStr _ := none
  mapToString _ := .error "not called"
  protocolFromValue := ordersProtocol
  metadataFromValue := ordersMetadata
  parseSchema := ordersSchema
  schemaToString _ := .ok compactSchema

theorem ordersCrates_parseSchema (s : String) : ordersCrates.parseSchema s = ordersSchema s := by
  simp only [ordersCrates]

theorem ordersCrates_fillsFields : ordersCrates.FillsFields where
  metadata := by
    intro v k h
    change ordersMetadata v = .ok k at h
    unfold ordersMetadata at h
    split at h
    · rename_i hid hname hdesc hs hcols hconf htime
      cases h
      exact {
        id := fun x hx => Option.some.inj (hx.symm.trans hid)
        name := fun x hx => Option.some.inj (hx.symm.trans hname)
        description := fun x hx => Option.some.inj (hx.symm.trans hdesc)
        schemaString := fun x hx => Option.some.inj (hx.symm.trans hs)
        partitionColumns := fun x hx => Option.some.inj (hx.symm.trans hcols)
        configuration := fun x hx => by
          rw [Option.some.inj (hx.symm.trans hconf), Value.asObject, Std.ExtTreeMap.ofList_singleton]
          refine congrArg some (Std.ExtTreeMap.ext_getElem? fun k => ?_)
          simp only [Std.ExtTreeMap.getElem?_map, Std.ExtTreeMap.getElem?_insert]
          split <;> simp
        createdTime := fun x hx => Option.some.inj (hx.symm.trans htime) }
    · cases h
  protocol := by
    intro v k h
    change ordersProtocol v = .ok k at h
    unfold ordersProtocol at h
    split at h
    · rename_i hv
      cases h
      constructor
      · intro x hx
        rw [hx] at hv
        exact Value.eq_ofI64 hv.1
      · intro x hx
        rw [hx] at hv
        exact Value.eq_ofI64 hv.2
    · cases h
  anySchema := by
    intro v v' k s s' h hs hs' hrest
    change ordersMetadata v = .ok k at h
    unfold ordersMetadata at h
    split at h
    · rename_i id name _ column key value hid hname hdesc _ hcols hconf htime
      refine ⟨⟨id, some name, none, ⟨"parquet", ∅⟩, s', [column],
        (∅ : HashMap String).insert key value, none⟩, ?_⟩
      change ordersMetadata v' = _
      rw [ordersMetadata, hrest "id" (by decide), hid, hrest "name" (by decide), hname,
        hrest "description" (by decide), hdesc, hs', hrest "partitionColumns" (by decide), hcols,
        hrest "configuration" (by decide), hconf, hrest "createdTime" (by decide), htime]
    · cases h

theorem ordersCrates_schemaReparses : ordersCrates.SchemaReparses := by
  intro s schema h
  rw [ordersCrates_parseSchema, ordersSchema] at h
  split at h
  · cases h
    refine ⟨compactSchema, rfl, ?_⟩
    rw [ordersCrates_parseSchema]
    exact ordersSchema_compact
  · cases h

/-- A definition with a spaced schema, no description and no time. -/
def ordersDefinition : Pb.TableMetadata where
  id := "test-table-orders"
  name := "orders"
  description := ""
  schemaString := spacedSchema
  partitionColumns := ["year"]
  configuration := Std.ExtTreeMap.ofList [("delta.checkpointInterval", "20")] compare
  createdTime := 0

theorem ordersCrates_parse : ordersCrates.parseSchema ordersDefinition.schemaString = .ok yearSchema := by
  rw [ordersCrates_parseSchema]
  exact ordersSchema_spaced

theorem definition_round_trip_orders :
    ∃ km, ∃ t, mapMetadata ordersCrates ordersDefinition = .ok km ∧
      ordersCrates.schemaToString yearSchema = .ok t ∧
      (∀ s : DeltaTableState, s.Holds km ⟨1, 2, none, none⟩ → buildMetadataAndProtocol ordersCrates s =
        .ok ({ ordersDefinition with schemaString := t }, ⟨1, 2⟩)) ∧
      ∃ km', mapMetadata ordersCrates { ordersDefinition with schemaString := t } = .ok km' ∧
        ∀ s : DeltaTableState, s.Holds km' ⟨1, 2, none, none⟩ →
          buildMetadataAndProtocol ordersCrates s =
            .ok ({ ordersDefinition with schemaString := t }, ⟨1, 2⟩) := by
  have hp : mapProtocol ordersCrates ⟨1, 2⟩ = .ok ⟨1, 2, none, none⟩ := rfl
  obtain ⟨km, hm⟩ : ∃ km, mapMetadata ordersCrates ordersDefinition = .ok km := ⟨_, rfl⟩
  obtain ⟨t, h⟩ := definition_round_trip ordersCrates_fillsFields ordersCrates_schemaReparses
    ordersCrates_parse hm hp
  exact ⟨km, t, hm, h⟩

end DeltaTxn
