import DeltaTxn.Proof.Stats

/-!
# Flat statistics survive decoding

Statistics whose minima and maxima are scalars and whose counts are `int64`s are what the wire
can say. Decoded and encoded again, such an object asserts all it asserted before; a column
that only one of its members mentions is not lost.

* `mapColumnMinValue_valueToMin_scalar`: one minimum, and so one maximum.
* `flat_stats_kept`: the whole object.
-/

namespace DeltaTxn

variable {cr : Crates}

/-- A string, a boolean, an `int64`, or a floating-point number. -/
def Value.Scalar : Value → Prop
  | .string _ => True
  | .bool _ => True
  | .number (.float _ _) => True
  | .number n => n.asI64.isSome = true
  | _ => False

/-- **Flat statistics**: all counts are `int64`s, all minima and maxima are scalars. A member
that is no object has no entries. -/
structure Value.FlatStats (j : Value) : Prop where
  numRecords : ∀ v, j.Asserts (.numRecords v) → v.asI64.isSome = true
  minValue : ∀ column v, j.Asserts (.minValue column v) → v.Scalar
  maxValue : ∀ column v, j.Asserts (.maxValue column v) → v.Scalar
  nullCount : ∀ column v, j.Asserts (.nullCount column v) → v.asI64.isSome = true

/-! ## One value -/

/-- A scalar minimum is written as it was read. -/
theorem mapColumnMinValue_valueToMin_scalar {v : Value} (h : v.Scalar) :
    mapColumnMinValue (valueToMin v) = some v := by
  have hint : ∀ n i, Number.asI64 n = some i →
      mapColumnMinValue (valueToMin (.number n)) = some (.number n) := by
    intro n i hi
    have hmin : valueToMin (.number n) = some (.minInt i) := by
      change (n.asI64.map Pb.MinValue.minInt).or _ = _
      rw [hi]
      rfl
    rw [hmin, Number.eq_ofI64 hi]
    rfl
  cases v with
  | string s => rfl
  | bool b => rfl
  | number n =>
    cases n with
    | posInt n =>
      obtain ⟨i, hi⟩ := Option.isSome_iff_exists.1 h
      exact hint _ i hi
    | negInt i hneg => exact hint _ i rfl
    | float x hx =>
      change (Number.fromF64 x).map Value.number = _
      rw [Number.fromF64_of_finite hx]
      rfl
  | null => cases h
  | array l => cases h
  | object l => cases h

theorem mapColumnMaxValue_valueToMax_scalar {v : Value} (h : v.Scalar) :
    mapColumnMaxValue (valueToMax v) = some v := by
  rw [mapColumnMaxValue_eq, valueToMax_eq, Option.map_map]
  have hid : Pb.MaxValue.asMin ∘ Pb.MinValue.asMax = id := funext Pb.MinValue.asMin_asMax
  rw [hid, Option.map_id]
  exact mapColumnMinValue_valueToMin_scalar h

theorem ofI64_getD {v : Value} (h : v.asI64.isSome = true) : Value.ofI64 (v.asI64.getD 0) = v := by
  obtain ⟨i, hi⟩ := Option.isSome_iff_exists.1 h
  rw [hi, Option.getD_some, Value.eq_ofI64 hi]

/-! ## The whole object -/

theorem mem_columns_iff {j : Value} {k : String} :
    k ∈ (statsValueToPb j).columns ↔ j.Mentions k := by
  rw [← Std.ExtTreeMap.isSome_getElem?_iff_mem, getElem?_statsValueToPb]
  split <;> simp [*]

/-- A column with an entry in one of the members is decoded. -/
theorem getElem?_columns {j : Value} {k : String} (h : j.Mentions k) :
    (statsValueToPb j).columns[k]? = some (j.columnStats k) := by
  rw [getElem?_statsValueToPb, if_pos h]

/-- **Decoded and encoded again**, flat statistics assert what they asserted. -/
theorem Value.FlatStats.asserts {j : Value} (hj : j.FlatStats) {s : Assertion} (h : j.Asserts s) :
    (fileStatsJson (statsValueToPb j)).Asserts s := by
  cases s with
  | numRecords v =>
    have hv : j.get "numRecords" = some v := h
    have hn : (statsValueToPb j).numRecords = v.asI64.getD 0 := by
      simp only [statsValueToPb, hv, Option.bind_some]
    change (fileStatsJson _).get "numRecords" = some v
    rw [get_numRecords_fileStatsJson, hn, ofI64_getD (hj.numRecords v h)]
  | minValue k v =>
    have hv : j.column "minValues" k = some v := h
    change (fileStatsJson _).column "minValues" k = some v
    rw [(column_fileStatsJson _ k).1, getElem?_columns (Or.inl (by rw [hv]; rfl)), Option.bind_some,
      Value.columnStats, hv, Option.bind_some]
    exact mapColumnMinValue_valueToMin_scalar (hj.minValue k v h)
  | maxValue k v =>
    have hv : j.column "maxValues" k = some v := h
    change (fileStatsJson _).column "maxValues" k = some v
    rw [(column_fileStatsJson _ k).2.1, getElem?_columns (Or.inr (Or.inl (by rw [hv]; rfl))),
      Option.bind_some, Value.columnStats, hv, Option.bind_some]
    exact mapColumnMaxValue_valueToMax_scalar (hj.maxValue k v h)
  | nullCount k v =>
    have hv : j.column "nullCount" k = some v := h
    change (fileStatsJson _).column "nullCount" k = some v
    rw [(column_fileStatsJson _ k).2.2, getElem?_columns (Or.inr (Or.inr (by rw [hv]; rfl))),
      Option.map_some, Value.columnStats, hv, Option.bind_some, ofI64_getD (hj.nullCount k v h)]

/-- **Decoding loses no flat statistic**: there is one column for each name that a member
mentions and for no other, and what is written for the decoded statistics has every entry of
those that were read. -/
theorem flat_stats_kept {text : String} {j : Value} (hj : cr.jsonFromStr text = some j)
    (hflat : j.FlatStats) (hprint : cr.Reparses (fileStatsJson (statsValueToPb j))) :
    ∃ f, mapStatsJsonToPb cr (some text) = some f ∧ (∀ k, k ∈ f.columns ↔ j.Mentions k) ∧
      ∃ text' j', mapFileStats cr (some f) = some text' ∧ cr.jsonFromStr text' = some j' ∧
        ∀ s, j.Asserts s → j'.Asserts s := by
  have hf : mapStatsJsonToPb cr (some text) = some (statsValueToPb j) := by
    change (cr.jsonFromStr text).bind _ = _
    rw [hj]
    rfl
  exact ⟨_, hf, fun k => mem_columns_iff, _, _, rfl, hprint, fun s => hflat.asserts⟩

/-- Statistics where each column is in one member only. -/
def flatStats : Value :=
  .object [("numRecords", .ofI64 5), ("minValues", .object [("id", .ofI64 1)]),
    ("nullCount", .object [("name", .ofI64 5)])]

/-- The JSON text of `flatStats`. -/
def flatText : String :=
  "\x7b\"numRecords\":5,\"minValues\":\x7b\"id\":1\x7d,\"nullCount\":\x7b\"name\":5\x7d\x7d"

/-- The text that is written for them. -/
def flatPrinted : String :=
  "\x7b\"maxValues\":\x7b\x7d,\"minValues\":\x7b\"id\":1\x7d," ++
    "\"nullCount\":\x7b\"id\":0,\"name\":5\x7d,\"numRecords\":5\x7d"

/-- The values of these two texts. -/
def flatFromStr (t : String) : Option Value :=
  if t = flatText then some flatStats
  else if t = flatPrinted then some (fileStatsJson (statsValueToPb flatStats))
  else none

/-- The JSON functions on these two texts. -/
def flatCrates : Crates :=
  { jsonCrates flatText flatStats flatPrinted with jsonFromStr := flatFromStr }

/-- The entry of a member with one entry. -/
theorem column_singleton {j : Value} {member k column : String} {v v' : Value}
    (hj : j.get member = some (.object [(k, v)])) (h : j.column member column = some v') : v' = v := by
  have hm : ((∅ : HashMap Value).insert k v)[column]? = some v' := by
    rw [Value.column, hj, Option.bind_some, Value.asObject, Option.bind_some,
      Std.ExtTreeMap.ofList_singleton] at h
    exact h
  rw [Std.ExtTreeMap.getElem?_insert] at hm
  split at hm
  · exact (Option.some.inj hm).symm
  · simp at hm

theorem flatStats_flat : flatStats.FlatStats where
  numRecords v h := by
    have hget : flatStats.get "numRecords" = some (.ofI64 5) := rfl
    cases hget.symm.trans h
    rfl
  minValue column v h := by
    rw [column_singleton rfl h]
    rfl
  maxValue column v h := by
    cases h
  nullCount column v h := by
    rw [column_singleton rfl h]
    rfl

theorem flat_stats_kept_flatStats :
    ∃ f, mapStatsJsonToPb flatCrates (some flatText) = some f ∧
      (∀ k, k ∈ f.columns ↔ flatStats.Mentions k) ∧
      ∃ text' j', mapFileStats flatCrates (some f) = some text' ∧
        flatCrates.jsonFromStr text' = some j' ∧ ∀ s, flatStats.Asserts s → j'.Asserts s := by
  have hread : flatFromStr flatText = some flatStats := if_pos rfl
  have hne : flatPrinted ≠ flatText := by decide
  have hprint : flatFromStr flatPrinted = some (fileStatsJson (statsValueToPb flatStats)) := by
    rw [flatFromStr, if_neg hne, if_pos rfl]
  exact flat_stats_kept hread flatStats_flat hprint

end DeltaTxn
