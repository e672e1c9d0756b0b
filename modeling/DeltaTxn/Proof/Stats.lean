import DeltaTxn.Spec.Mapping

/-!
# File statistics, to the wire and back

`fileStatsJson` splits the columns of a `FileStats` over three JSON objects;
`statsValueToPb` rebuilds the columns from the union of their keys. Both are described here
column by column, and the two descriptions are put together in both orders.

* `getElem?_statsValueToPb`, `column_fileStatsJson`: what each direction does to one column.
* `statsValueToPb_fileStatsJson`: statistics read back are the finite part of those written.
* `add_file_round_trip`: an `AddFile` read back after a commit.
* `reencoded_stats`: what re-encoded statistics assert.
-/

namespace DeltaTxn

variable {cr : Crates}

/-- What a member of a statistics object holds for a column. -/
def Value.column (j : Value) (member column : String) : Option Value :=
  ((j.get member).bind Value.asObject).bind (·[column]?)

/-! ## Decoding, one column at a time -/

theorem mem_optKeys (m : Option (HashMap Value)) (k : String) :
    k ∈ optKeys m ↔ (m.bind (·[k]?)).isSome := by
  cases m with
  | none => simp [optKeys]
  | some m =>
    change k ∈ m.keys ↔ m[k]?.isSome
    rw [Std.ExtTreeMap.mem_keys, Std.ExtTreeMap.isSome_getElem?_eq_contains]
    exact Iff.rfl

/-- Some member of a statistics object mentions a column. -/
def Value.Mentions (j : Value) (column : String) : Prop :=
  (j.column "minValues" column).isSome ∨ (j.column "maxValues" column).isSome ∨
    (j.column "nullCount" column).isSome

/-- The `ColumnStats` decoded for a column. -/
def Value.columnStats (j : Value) (column : String) : Pb.ColumnStats where
  minValue := (j.column "minValues" column).bind valueToMin
  maxValue := (j.column "maxValues" column).bind valueToMax
  nullCount := ((j.column "nullCount" column).bind Value.asI64).getD 0

open Classical in
/-- **Decoding**: the columns that some member mentions. -/
theorem getElem?_statsValueToPb (j : Value) (k : String) :
    (statsValueToPb j).columns[k]? = if j.Mentions k then some (j.columnStats k) else none := by
  have hk : j.Mentions k ↔
      k ∈ optKeys ((j.get "minValues").bind Value.asObject) ++
        optKeys ((j.get "maxValues").bind Value.asObject) ++
        optKeys ((j.get "nullCount").bind Value.asObject) := by
    simp only [List.mem_append, mem_optKeys, or_assoc]
    rfl
  simp only [statsValueToPb, HashMap.getElem?_collect, hk]
  rfl

/-! ## Encoding, one column at a time -/

theorem foldl_push (l : List (String × Pb.ColumnStats)) : ∀ m : StatsMaps,
    l.foldl StatsMaps.push m =
      ⟨l.foldl (fun m p => m.insertSome p.1 (mapColumnMinValue p.2.minValue)) m.minValues,
        l.foldl (fun m p => m.insertSome p.1 (mapColumnMaxValue p.2.maxValue)) m.maxValues,
        l.foldl (fun m p => m.insertSome p.1 (some (.ofI64 p.2.nullCount))) m.nullCount⟩ := by
  induction l with
  | nil => intro m; rfl
  | cons c l ih => intro m; exact ih (m.push c)

/-- The three maps are gathered from the columns. -/
theorem statsMaps_eq (t : HashMap Pb.ColumnStats) :
    t.toList.foldl StatsMaps.push ⟨∅, ∅, ∅⟩ =
      ⟨HashMap.gather (fun c => mapColumnMinValue c.minValue) t,
        HashMap.gather (fun c => mapColumnMaxValue c.maxValue) t,
        HashMap.gather (fun c => some (.ofI64 c.nullCount)) t⟩ :=
  foldl_push _ _

section Encode

variable (f : Pb.FileStats)

/-- The members of the encoded object. -/
theorem get_fileStatsJson (k : String) :
    (fileStatsJson f).get k =
      if k = "numRecords" then some (.ofI64 f.numRecords)
      else if k = "minValues" then
        some (.ofMap (HashMap.gather (fun c => mapColumnMinValue c.minValue) f.columns))
      else if k = "maxValues" then
        some (.ofMap (HashMap.gather (fun c => mapColumnMaxValue c.maxValue) f.columns))
      else if k = "nullCount" then
        some (.ofMap (HashMap.gather (fun c => some (.ofI64 c.nullCount)) f.columns))
      else none := by
  simp only [fileStatsJson, Value.get, Value.asObject_ofMap, Option.bind_some, statsMaps_eq]
  -- the four names differ, so a lookup finds the one entry of that name
  rw [HashMap.getElem?_ofList (by simp)]
  split_ifs
  case neg => simp [*]
  all_goals simp [*, List.lookup_cons]

theorem get_numRecords_fileStatsJson :
    (fileStatsJson f).get "numRecords" = some (.ofI64 f.numRecords) := by
  simp [get_fileStatsJson]

/-- **Encoding**: each column in each member. -/
theorem column_fileStatsJson (k : String) :
    (fileStatsJson f).column "minValues" k =
        f.columns[k]?.bind (fun c => mapColumnMinValue c.minValue) ∧
      (fileStatsJson f).column "maxValues" k =
        f.columns[k]?.bind (fun c => mapColumnMaxValue c.maxValue) ∧
      (fileStatsJson f).column "nullCount" k = f.columns[k]?.map fun c => .ofI64 c.nullCount := by
  have hnull : (fileStatsJson f).column "nullCount" k =
      (HashMap.gather (fun c => some (Value.ofI64 c.nullCount)) f.columns)[k]? := by
    simp [Value.column, get_fileStatsJson]
  refine ⟨?_, ?_, hnull.trans ?_⟩
  · simp [Value.column, get_fileStatsJson, HashMap.getElem?_gather]
  · simp [Value.column, get_fileStatsJson, HashMap.getElem?_gather]
  · exact (HashMap.getElem?_gather _ _ _).trans Option.map_eq_bind.symm

end Encode

/-! ## Minima and maxima

The two `oneof`s of `ColumnStats` have the same variants, and their translations differ in
nothing but that.
-/

/-- The minimum with the value of a maximum. -/
def Pb.MaxValue.asMin : Pb.MaxValue → Pb.MinValue
  | .maxInt v => .minInt v
  | .maxDouble v => .minDouble v
  | .maxString v => .minString v
  | .maxBool v => .minBool v

/-- The maximum with the value of a minimum. -/
def Pb.MinValue.asMax : Pb.MinValue → Pb.MaxValue
  | .minInt v => .maxInt v
  | .minDouble v => .maxDouble v
  | .minString v => .maxString v
  | .minBool v => .maxBool v

@[simp] theorem Pb.MaxValue.asMax_asMin (m : Pb.MaxValue) : m.asMin.asMax = m := by cases m <;> rfl

@[simp] theorem Pb.MinValue.asMin_asMax (m : Pb.MinValue) : m.asMax.asMin = m := by cases m <;> rfl

theorem valueToMax_eq (v : Value) : valueToMax v = (valueToMin v).map Pb.MinValue.asMax := by
  cases v with
  | number n =>
    simp only [valueToMax, valueToMin]
    cases n.asI64 <;> cases n.asF64 <;> rfl
  | _ => rfl

theorem mapColumnMaxValue_eq (o : Option Pb.MaxValue) :
    mapColumnMaxValue o = mapColumnMinValue (o.map Pb.MaxValue.asMin) := by
  rcases o with _ | _ | _ | _ | _ <;> rfl

/-- Not a NaN or infinite double. -/
def Pb.MinValue.Finite : Pb.MinValue → Bool
  | .minDouble x => x.isFinite
  | _ => true

/-- Not a NaN or infinite double. -/
def Pb.MaxValue.Finite (m : Pb.MaxValue) : Bool := m.asMin.Finite

/-- A minimum is read back as written, with its variant, if JSON has it at all. -/
theorem valueToMin_mapColumnMinValue (o : Option Pb.MinValue) :
    (mapColumnMinValue o).bind valueToMin = o.filter Pb.MinValue.Finite := by
  rcases o with _ | v | x | s | b
  · rfl
  · change ((Number.ofI64 v).asI64.map Pb.MinValue.minInt).or _ = some (.minInt v)
    rw [Number.asI64_ofI64]
    rfl
  · change ((Number.fromF64 x).map Value.number).bind valueToMin = _
    cases hx : x.isFinite with
    | true =>
      rw [Number.fromF64_of_finite hx]
      simp [valueToMin, Number.asI64, Number.asF64, Option.filter_some, Pb.MinValue.Finite, hx]
    | false =>
      rw [Number.fromF64_eq_none hx]
      simp [Option.filter_some, Pb.MinValue.Finite, hx]
  · rfl
  · rfl

theorem valueToMax_mapColumnMaxValue (o : Option Pb.MaxValue) :
    (mapColumnMaxValue o).bind valueToMax = o.filter Pb.MaxValue.Finite := by
  have h := congrArg (·.map Pb.MinValue.asMax) (valueToMin_mapColumnMinValue (o.map Pb.MaxValue.asMin))
  simp only [← mapColumnMaxValue_eq, Option.map_bind] at h
  rw [funext valueToMax_eq]
  refine h.trans ?_
  cases o with
  | none => rfl
  | some m =>
    simp only [Option.map_some, Option.filter_some, Pb.MaxValue.Finite]
    split <;> simp [*]

/-- The nearest double of an integer above every `i64`. -/
def Value.Rounded (v v' : Value) : Prop :=
  ∃ (n : UInt64) (h : n.toFloat.isFinite = true), Int64.maxValue.toUInt64 < n ∧
    v = .number (.posInt n) ∧ v' = .number (.float n.toFloat h)

/-- A minimum written again is the one read, or its nearest double where it is no `i64`. -/
theorem mapColumnMinValue_valueToMin {v v' : Value} (h : mapColumnMinValue (valueToMin v) = some v') :
    v' = v ∨ v.Rounded v' := by
  cases v with
  | number n =>
    change mapColumnMinValue ((n.asI64.map _).or (n.asF64.map _)) = some v' at h
    cases hi : n.asI64 with
    | some i =>
      rw [hi] at h
      cases h
      exact .inl (by rw [Number.eq_ofI64 hi]; rfl)
    | none =>
      rw [hi] at h
      cases n with
      | posInt n =>
        have hn : Int64.maxValue.toUInt64 < n := by
          refine UInt64.not_le.1 fun hle => ?_
          simp [Number.asI64, hle] at hi
        change (Number.fromF64 n.toFloat).map Value.number = some v' at h
        cases hx : n.toFloat.isFinite with
        | true => rw [Number.fromF64_of_finite hx] at h; cases h; exact .inr ⟨n, hx, hn, rfl, rfl⟩
        | false => rw [Number.fromF64_eq_none hx] at h; cases h
      | negInt i hneg => cases hi
      | float x hx =>
        change (Number.fromF64 x).map Value.number = some v' at h
        rw [Number.fromF64_of_finite hx] at h
        cases h
        exact .inl rfl
  | string s => cases h; exact .inl rfl
  | bool b => cases h; exact .inl rfl
  | null => cases h
  | array l => cases h
  | object l => cases h

theorem mapColumnMaxValue_valueToMax {v v' : Value} (h : mapColumnMaxValue (valueToMax v) = some v') :
    v' = v ∨ v.Rounded v' := by
  refine mapColumnMinValue_valueToMin ?_
  rw [mapColumnMaxValue_eq, valueToMax_eq, Option.map_map] at h
  simpa [Function.comp_def] using h

/-! ## Statistics written and read back -/

/-- Column statistics with every NaN or infinite double unset. -/
def Pb.ColumnStats.finite (c : Pb.ColumnStats) : Pb.ColumnStats :=
  { c with minValue := c.minValue.filter Pb.MinValue.Finite
           maxValue := c.maxValue.filter Pb.MaxValue.Finite }

/-- File statistics with every NaN or infinite double unset. -/
def Pb.FileStats.finite (f : Pb.FileStats) : Pb.FileStats :=
  { f with columns := f.columns.map fun _ c => c.finite }

/-- A column of the encoded object is mentioned by its null count, if by anything. -/
theorem mentions_fileStatsJson (f : Pb.FileStats) (k : String) :
    (fileStatsJson f).Mentions k ↔ f.columns[k]?.isSome := by
  obtain ⟨hmin, hmax, hnull⟩ := column_fileStatsJson f k
  rw [Value.Mentions, hmin, hmax, hnull]
  cases f.columns[k]? <;> simp

/-- **Statistics read back are the finite part of those written.** -/
theorem statsValueToPb_fileStatsJson (f : Pb.FileStats) :
    statsValueToPb (fileStatsJson f) = f.finite := by
  have hn : (statsValueToPb (fileStatsJson f)).numRecords = f.numRecords := by
    simp only [statsValueToPb, get_numRecords_fileStatsJson, Option.bind_some, Value.asI64_ofI64,
      Option.getD_some]
  have hc : (statsValueToPb (fileStatsJson f)).columns = f.finite.columns := by
    refine Std.ExtTreeMap.ext_getElem? fun k => ?_
    rw [getElem?_statsValueToPb, Pb.FileStats.finite, Std.ExtTreeMap.getElem?_map]
    obtain ⟨hmin, hmax, hnull⟩ := column_fileStatsJson f k
    cases h : f.columns[k]? with
    | none => rw [if_neg (by simp [mentions_fileStatsJson, h])]; rfl
    | some c =>
      rw [h] at hmin hmax hnull
      rw [if_pos (by simp [mentions_fileStatsJson, h]), Value.columnStats, hmin, hmax, hnull]
      simp [valueToMin_mapColumnMinValue, valueToMax_mapColumnMaxValue, Pb.ColumnStats.finite]
  exact Pb.FileStats.ext hn hc

theorem mapStatsJsonToPb_mapFileStats {o : Option Pb.FileStats}
    (h : ∀ f ∈ o, cr.Reparses (fileStatsJson f)) :
    mapStatsJsonToPb cr (mapFileStats cr o) = o.map Pb.FileStats.finite := by
  cases o with
  | none => rfl
  | some f =>
    have hf : cr.jsonFromStr (cr.jsonToString (fileStatsJson f)) = some (fileStatsJson f) := h f rfl
    change (cr.jsonFromStr (cr.jsonToString (fileStatsJson f))).bind _ = _
    rw [hf, Option.map_some, ← statsValueToPb_fileStatsJson]
    rfl

/-- Partition values written are read back. -/
theorem partitionValues_mapStringMap (m : HashMap String) :
    (mapStringMap m).map (fun _ v => v.getD "") = m := by
  refine Std.ExtTreeMap.ext_getElem? fun k => ?_
  simp only [mapStringMap, Std.ExtTreeMap.getElem?_map, Option.map_map]
  exact Option.map_id' (x := m[k]?)

/-- What a client reads back of an `AddFile` it committed. -/
def Pb.AddFile.readBack (a : Pb.AddFile) : Pb.AddFile :=
  { a with
    dataChange := Pb.DataChange.isTrue.toI32
    stats := a.stats.map Pb.FileStats.finite
    tags := ∅ }

/-- **An `AddFile` written by Commit is read back by ListActiveFiles**, but for the two fields
that reading does not report and the doubles that JSON does not have. -/
theorem add_file_round_trip {a : Pb.AddFile}
    (hd : a.dataChange = Pb.DataChange.isTrue.toI32 ∨ a.dataChange = Pb.DataChange.isFalse.toI32)
    (hjson : ∀ f ∈ a.stats, cr.Reparses (fileStatsJson f)) :
    ∃ k : Kernel.Add, mapAction cr ⟨some (.add a)⟩ = .ok (.add k) ∧
      mapActiveFileToPb cr k.path k.size k.modificationTime k.partitionValues k.stats = a.readBack := by
  have hdc : ∃ b, mapDataChange a.dataChange = .ok b := by
    rcases hd with h | h <;> simp [mapDataChange, h]
  obtain ⟨b, hb⟩ := hdc
  refine ⟨_, by simp only [mapAction, mapAdd, hb]; rfl, ?_⟩
  simp only [mapActiveFileToPb, partitionValues_mapStringMap, mapStatsJsonToPb_mapFileStats hjson]
  rfl

/-- The JSON functions on two values: `text` is read as `v`, and another is written as `printed`. -/
def jsonCrates (text : String) (v : Value) (printed : String) : Crates where
  jsonToString _ := printed
  jsonFromStr t := if t = text then some v else none
  mapToString _ := .error "not called"
  protocolFromValue _ := .error "not called"
  metadataFromValue _ := .error "not called"
  parseSchema _ := .error "not called"
  schemaToString _ := .error "not called"

theorem jsonCrates_reparses (text : String) (v : Value) : (jsonCrates text v text).Reparses v :=
  if_pos rfl

theorem mapStatsJsonToPb_jsonCrates (text : String) (v : Value) (printed : String) :
    mapStatsJsonToPb (jsonCrates text v printed) (some text) = some (statsValueToPb v) := by
  have h : (jsonCrates text v printed).jsonFromStr text = some v := if_pos rfl
  change ((jsonCrates text v printed).jsonFromStr text).bind _ = _
  rw [h]
  rfl

/-- Three rows, with a maximum that is not a number. -/
def nanStats : Pb.FileStats where
  numRecords := 3
  columns := Std.ExtTreeMap.ofList
    [("id", ⟨some (.minInt 1), some (.maxInt 3), 0⟩),
      ("score", ⟨some (.minDouble 1.5), some (.maxDouble (0.0 / 0.0)), 2⟩)] compare

/-- A file with those statistics. -/
def nanFile : Pb.AddFile where
  path := "part-0.parquet"
  size := 1024
  modificationTime := 1700000000000
  partitionValues := Std.ExtTreeMap.ofList [("year", "2026")] compare
  dataChange := Pb.DataChange.isFalse.toI32
  stats := some nanStats
  tags := Std.ExtTreeMap.ofList [("origin", "backfill")] compare

/-- The JSON functions on `nanStats`. -/
def nanCrates : Crates :=
  let text :=
    "\x7b\"maxValues\":\x7b\"id\":3\x7d,\"minValues\":\x7b\"id\":1,\"score\":1.5\x7d," ++
      "\"nullCount\":\x7b\"id\":0,\"score\":2\x7d,\"numRecords\":3\x7d"
  jsonCrates text (fileStatsJson nanStats) text

/-- The file is read back without the maximum. -/
theorem add_file_round_trip_nan :
    (∃ k : Kernel.Add,
      mapAction nanCrates ⟨some (.add nanFile)⟩ = .ok (.add k) ∧
      mapActiveFileToPb nanCrates k.path k.size k.modificationTime k.partitionValues k.stats =
        nanFile.readBack) ∧
    nanStats.finite.columns["score"]? = some ⟨some (.minDouble 1.5), none, 2⟩ := by
  have hjson : ∀ f ∈ nanFile.stats, nanCrates.Reparses (fileStatsJson f) := by
    rintro f ⟨⟩
    exact jsonCrates_reparses _ _
  refine ⟨add_file_round_trip (.inr rfl) hjson, ?_⟩
  rw [Pb.FileStats.finite, Std.ExtTreeMap.getElem?_map, nanStats,
    Std.ExtTreeMap.getElem?_ofList_of_mem (k := "score") Std.compare_self (by simp) (by simp; rfl)]
  decide

/-! ## Statistics read and written back -/

/-- What a statistics object says of a file. -/
inductive Assertion
  | numRecords (v : Value)
  | minValue (column : String) (v : Value)
  | maxValue (column : String) (v : Value)
  | nullCount (column : String) (v : Value)

/-- A statistics object has the statistic. -/
def Value.Asserts (j : Value) : Assertion → Prop
  | .numRecords v => j.get "numRecords" = some v
  | .minValue c v => j.column "minValues" c = some v
  | .maxValue c v => j.column "maxValues" c = some v
  | .nullCount c v => j.column "nullCount" c = some v

/-- What the wire cannot keep of `j`: whether a count is recorded, and an integer that is no
`int64`. -/
def Value.Blurs (j : Value) : Assertion → Prop
  | .numRecords v' => (j.get "numRecords").bind Value.asI64 = none ∧ v' = .ofI64 0
  | .minValue c v' => ∃ v, j.column "minValues" c = some v ∧ v.Rounded v'
  | .maxValue c v' => ∃ v, j.column "maxValues" c = some v ∧ v.Rounded v'
  | .nullCount c v' =>
    j.Mentions c ∧ (j.column "nullCount" c).bind Value.asI64 = none ∧ v' = .ofI64 0

theorem columns_eq_some {j : Value} {k : String} {c : Pb.ColumnStats}
    (h : (statsValueToPb j).columns[k]? = some c) : j.Mentions k ∧ c = j.columnStats k := by
  rw [getElem?_statsValueToPb] at h
  split at h
  · rename_i hk
    exact ⟨hk, (Option.some.inj h).symm⟩
  · cases h

/-- A value written again is the one that was read, or its nearest double. -/
theorem asserts_or_rounded {α : Type} {read : Value → Option α} {write : Option α → Option Value}
    (hw : ∀ v v', write (read v) = some v' → v' = v ∨ v.Rounded v') (h0 : write none = none)
    {o : Option Value} {v' : Value} (h : write (o.bind read) = some v') :
    o = some v' ∨ ∃ v, o = some v ∧ v.Rounded v' := by
  cases o with
  | none => rw [Option.bind_none, h0] at h; cases h
  | some v =>
    rcases hw v v' h with rfl | hr
    · exact .inl rfl
    · exact .inr ⟨v, rfl, hr⟩

/-- **Statistics read and written again** assert what was read, except for what the wire
cannot keep. -/
theorem asserts_fileStatsJson_statsValueToPb {j : Value} {s : Assertion}
    (h : (fileStatsJson (statsValueToPb j)).Asserts s) : j.Asserts s ∨ j.Blurs s := by
  cases s with
  | numRecords v =>
    change (fileStatsJson (statsValueToPb j)).get "numRecords" = some v at h
    rw [get_numRecords_fileStatsJson] at h
    cases h
    simp only [statsValueToPb]
    cases hn : (j.get "numRecords").bind Value.asI64 with
    | none => exact .inr ⟨hn, rfl⟩
    | some n =>
      obtain ⟨v, hv, hi⟩ := Option.bind_eq_some_iff.1 hn
      exact .inl (hv.trans (congrArg some (Value.eq_ofI64 hi)))
  | minValue k v' =>
    change (fileStatsJson (statsValueToPb j)).column "minValues" k = some v' at h
    rw [(column_fileStatsJson _ k).1] at h
    obtain ⟨c, hc, hv⟩ := Option.bind_eq_some_iff.1 h
    rw [(columns_eq_some hc).2] at hv
    exact asserts_or_rounded (fun v v' => mapColumnMinValue_valueToMin) rfl hv
  | maxValue k v' =>
    change (fileStatsJson (statsValueToPb j)).column "maxValues" k = some v' at h
    rw [(column_fileStatsJson _ k).2.1] at h
    obtain ⟨c, hc, hv⟩ := Option.bind_eq_some_iff.1 h
    rw [(columns_eq_some hc).2] at hv
    exact asserts_or_rounded (fun v v' => mapColumnMaxValue_valueToMax) rfl hv
  | nullCount k v' =>
    change (fileStatsJson (statsValueToPb j)).column "nullCount" k = some v' at h
    rw [(column_fileStatsJson _ k).2.2] at h
    obtain ⟨c, hc, hv⟩ := Option.map_eq_some_iff.1 h
    obtain ⟨hk, rfl⟩ := columns_eq_some hc
    rw [Value.columnStats] at hv
    cases hn : (j.column "nullCount" k).bind Value.asI64 with
    | none =>
      rw [hn] at hv
      exact .inr ⟨hk, hn, hv.symm⟩
    | some n =>
      rw [hn] at hv
      obtain ⟨v, hj, hi⟩ := Option.bind_eq_some_iff.1 hn
      exact .inl (hj.trans (congrArg some ((Value.eq_ofI64 hi).trans hv)))

/-- **The statistics of a file, read and committed again**: nothing is asserted that was not there, but
for a count that was not recorded, which becomes 0, and the nearest double of a wide integer. -/
theorem reencoded_stats {text : String} {f : Pb.FileStats}
    (h : mapStatsJsonToPb cr (some text) = some f) :
    ∃ j, cr.jsonFromStr text = some j ∧
      mapFileStats cr (some f) = some (cr.jsonToString (fileStatsJson f)) ∧
      ∀ s, (fileStatsJson f).Asserts s → j.Asserts s ∨ j.Blurs s := by
  change (cr.jsonFromStr text).bind (fun j => some (statsValueToPb j)) = some f at h
  obtain ⟨j, hj, hf⟩ := Option.bind_eq_some_iff.1 h
  cases hf
  exact ⟨j, hj, rfl, fun s => asserts_fileStatsJson_statsValueToPb⟩

/-- The statistics of a writer that records no null counts. -/
def bareStats : Value :=
  .object [("numRecords", .ofI64 5), ("minValues", .object [("id", .ofI64 1)])]

/-- The JSON text of `bareStats`. -/
def bareText : String := "\x7b\"numRecords\":5,\"minValues\":\x7b\"id\":1\x7d\x7d"

/-- The text of `bareStats`, and the text that is written for it. -/
def bareCrates : Crates :=
  jsonCrates bareText bareStats
    ("\x7b\"maxValues\":\x7b\x7d,\"minValues\":\x7b\"id\":1\x7d," ++
      "\"nullCount\":\x7b\"id\":0\x7d,\"numRecords\":5\x7d")

theorem reencoded_stats_bare :
    ∃ f j, mapStatsJsonToPb bareCrates (some bareText) = some f ∧
      bareCrates.jsonFromStr bareText = some j ∧
      mapFileStats bareCrates (some f) = some (bareCrates.jsonToString (fileStatsJson f)) ∧
      ∀ s, (fileStatsJson f).Asserts s → j.Asserts s ∨ j.Blurs s := by
  have h : mapStatsJsonToPb bareCrates (some bareText) = some (statsValueToPb bareStats) :=
    mapStatsJsonToPb_jsonCrates _ _ _
  obtain ⟨j, hj⟩ := reencoded_stats h
  exact ⟨_, j, h, hj⟩

/-- **A null count that was not recorded** is committed again as zero. -/
theorem null_count_defaulted :
    ∃ f, mapStatsJsonToPb bareCrates (some bareText) = some f ∧
      (fileStatsJson f).Asserts (.nullCount "id" (.ofI64 0)) ∧
      ∀ v, ¬ bareStats.Asserts (.nullCount "id" v) := by
  have hmentions : bareStats.Mentions "id" := Or.inl rfl
  refine ⟨statsValueToPb bareStats, mapStatsJsonToPb_jsonCrates _ _ _, ?_, fun v hv => ?_⟩
  · change (fileStatsJson (statsValueToPb bareStats)).column "nullCount" "id" = _
    rw [(column_fileStatsJson _ "id").2.2, getElem?_statsValueToPb, if_pos hmentions]
    rfl
  · cases hv

end DeltaTxn
