import DeltaTxn.Data.Traverse
import DeltaTxn.Spec.Mapping
import DeltaTxn.Spec.Operation
import Mathlib.Data.Int.Notation
import Mathlib.Data.Option.Basic

/-!
# Operation parameters, from the wire to the `DeltaOperation`

`mapJsonMap` stores every operation parameter as a JSON string; `stringParam` reads strings,
`intParam` and `uintParam` read numbers. So the string parameters of an operation are the
ones sent, and its integer parameters never are.

* `buildOperation_mapActions`: the operation built from mapped actions, from the wire.
* `operationOf_mapJsonMap`: the operation built from parameters sent on the wire.
* `integer_param_carried_iff`: which integer parameters reach the operation.
-/

namespace DeltaTxn

variable {cr : Crates}

/-- The `CommitInfo` of a wire action. -/
def Pb.Action.toCommitInfo (a : Pb.Action) : Option Pb.CommitInfo :=
  match a.action with
  | some (.commitInfo ci) => some ci
  | _ => none

/-- The `CommitInfo` of a kernel action. -/
def Kernel.Action.toCommitInfo : Kernel.Action → Option Kernel.CommitInfo
  | .commitInfo ci => some ci
  | _ => none

theorem findCommitInfo_cons (k : Kernel.Action) (ks : List Kernel.Action) :
    findCommitInfo (k :: ks) = k.toCommitInfo.or (findCommitInfo ks) := by
  cases k <;> rfl

/-! ## The `CommitInfo` that `build_operation` finds -/

/-- A mapped action is a `CommitInfo` if the wire action is one, and then it is its image. -/
theorem mapAction_toCommitInfo {a : Pb.Action} {k : Kernel.Action} (h : mapAction cr a = .ok k) :
    Option.Rel (fun ci ci' => mapCommitInfo cr ci = .ok ci') a.toCommitInfo k.toCommitInfo := by
  obtain ⟨_ | w⟩ := a
  · cases h
  cases w with
  | commitInfo ci =>
    obtain ⟨ci', hci, rfl⟩ := Traverse.map_eq_ok h
    exact .some hci
  | add a =>
    obtain ⟨_, -, rfl⟩ := Traverse.map_eq_ok h
    exact .none
  | remove r =>
    obtain ⟨_, -, rfl⟩ := Traverse.map_eq_ok h
    exact .none
  | protocol p =>
    obtain ⟨_, -, rfl⟩ := Traverse.map_eq_ok h
    exact .none
  | metaData m =>
    obtain ⟨_, -, rfl⟩ := Traverse.map_eq_ok h
    exact .none

theorem mapActions_cons {a : Pb.Action} {as : List Pb.Action} {ks : List Kernel.Action}
    (h : mapActions cr (a :: as) = .ok ks) :
    ∃ k ks', mapAction cr a = .ok k ∧ mapActions cr as = .ok ks' ∧ ks = k :: ks' :=
  Traverse.mapM_cons_ok_iff.1 h

/-- The first `CommitInfo` of the mapped actions is the image of the first one on the wire. -/
theorem findCommitInfo_mapActions {wire : List Pb.Action} :
    ∀ {actions : List Kernel.Action}, mapActions cr wire = .ok actions →
      Option.Rel (fun ci ci' => mapCommitInfo cr ci = .ok ci')
        (wire.findSome? Pb.Action.toCommitInfo) (findCommitInfo actions) := by
  induction wire with
  | nil =>
    intro actions h
    cases h
    exact .none
  | cons a as ih =>
    intro actions h
    obtain ⟨k, ks, ha, has, rfl⟩ := mapActions_cons h
    rw [findCommitInfo_cons, List.findSome?_cons]
    -- either this action is a `CommitInfo` on both sides, or on neither
    have hrel := mapAction_toCommitInfo ha
    generalize a.toCommitInfo = w, k.toCommitInfo = w' at hrel
    cases hrel with
    | some hci => exact .some hci
    | none => exact ih has

theorem mapCommitInfo_fields {ci : Pb.CommitInfo} {ci' : Kernel.CommitInfo}
    (h : mapCommitInfo cr ci = .ok ci') :
    ci'.operation = mapCommitOperation ci.operation ∧
      ci'.operationParameters = mapJsonMap ci.operationParameters := by
  unfold mapCommitInfo at h
  cases hm : mapUserMetadata cr ci.userMetadata with
  | error e => rw [hm] at h; cases h
  | ok u =>
    rw [hm] at h
    cases h
    exact ⟨rfl, rfl⟩

/-- **The operation of a list of mapped actions, from the wire.** -/
theorem buildOperation_mapActions {wire : List Pb.Action} {actions : List Kernel.Action}
    (h : mapActions cr wire = .ok actions) :
    buildOperation actions =
      match wire.findSome? Pb.Action.toCommitInfo with
      | none => defaultWriteOperation
      | some ci =>
        operationOf (mapCommitOperation ci.operation) (mapJsonMap ci.operationParameters) := by
  have hrel := findCommitInfo_mapActions h
  unfold buildOperation
  generalize wire.findSome? Pb.Action.toCommitInfo = w, findCommitInfo actions = w' at hrel
  cases hrel with
  | none => rfl
  | some hci =>
    obtain ⟨hop, hparams⟩ := mapCommitInfo_fields hci
    simp only [hop, hparams]

/-! ## Reading the parameters -/

section Params

variable (m : HashMap String) (key : String)

/-- A parameter sent on the wire is stored as a JSON string. -/
theorem getElem?_mapJsonMap : (mapJsonMap m).bind (·[key]?) = m[key]?.map Value.string := by
  unfold mapJsonMap
  split
  · rename_i he
    rw [Std.ExtTreeMap.isEmpty_iff.1 he]
    rfl
  · simp

/-- String parameters are read as sent. -/
theorem stringParam_mapJsonMap : stringParam (mapJsonMap m) key = m[key]? := by
  change (mapJsonMap m).bind (fun p => p[key]?.bind Value.asStr) = _
  rw [← Option.bind_assoc, getElem?_mapJsonMap]
  cases m[key]? <;> rfl

/-- A JSON string is no `i64`. -/
theorem intParam_mapJsonMap : intParam (mapJsonMap m) key = none := by
  change (mapJsonMap m).bind (fun p => p[key]?.bind Value.asI64) = _
  rw [← Option.bind_assoc, getElem?_mapJsonMap]
  cases m[key]? <;> rfl

/-- A JSON string is no `u64`. -/
theorem uintParam_mapJsonMap : uintParam (mapJsonMap m) key = none := by
  change (mapJsonMap m).bind (fun p => p[key]?.bind Value.asU64) = _
  rw [← Option.bind_assoc, getElem?_mapJsonMap]
  cases m[key]? <;> rfl

end Params

/-- **The operation built from parameters sent on the wire**: the strings are carried, every
integer is at its default. -/
theorem operationOf_mapJsonMap (o : Pb.CommitOperation) (m : HashMap String) :
    operationOf (mapCommitOperation o.toI32) (mapJsonMap m) =
      match o with
      | .merge => .merge m["predicate"]? m["merge_predicate"]? [] [] []
      | .update => .update m["predicate"]?
      | .delete => .delete m["predicate"]?
      | .optimize => .optimize m["predicate"]? 0
      | .vacuum => .vacuumStart true none 0
      | .restore => .restore none none
      | .unspecified | .write | .convert => defaultWriteOperation := by
  cases o <;>
    simp [mapCommitOperation, operationOf, stringParam_mapJsonMap, intParam_mapJsonMap,
      uintParam_mapJsonMap]

/-! ## Integer parameters -/

/-- The integer parameters that `build_operation` reads. -/
inductive IntegerParam
  | targetSize | specifiedRetentionMillis | defaultRetentionMillis | version | datetime
  deriving DecidableEq

namespace IntegerParam

/-- The key of a parameter. -/
def key : IntegerParam → String
  | targetSize => "target_size"
  | specifiedRetentionMillis => "specified_retention_millis"
  | defaultRetentionMillis => "default_retention_millis"
  | version => "version"
  | datetime => "datetime"

/-- The operation a parameter belongs to. -/
def operation : IntegerParam → Pb.CommitOperation
  | targetSize => .optimize
  | specifiedRetentionMillis | defaultRetentionMillis => .vacuum
  | version | datetime => .restore

/-- `n` is in range of the type of the parameter's field. -/
def InRange : IntegerParam → ℤ → Prop
  | version, n => 0 ≤ n ∧ n < UInt64.size
  | _, n => Int64.minValue.toInt ≤ n ∧ n ≤ Int64.maxValue.toInt

/-- The parameter's operation was built, with the parameter's field equal to `n`. -/
def Carried : IntegerParam → ℤ → DeltaOperation → Prop
  | targetSize, n, .optimize _ t => t.toInt = n
  | specifiedRetentionMillis, n, .vacuumStart _ s _ => s.map Int64.toInt = some n
  | defaultRetentionMillis, n, .vacuumStart _ _ d => d.toInt = n
  | version, n, .restore v _ => v.map (fun v => (v.toNat : ℤ)) = some n
  | datetime, n, .restore _ d => d.map Int64.toInt = some n
  | _, _, _ => False

/-- The parameter's field is no `Option`: a parameter that is not read becomes `0`. -/
def DefaultsToZero : IntegerParam → Prop
  | targetSize | defaultRetentionMillis => True
  | specifiedRetentionMillis | version | datetime => False

/-- `n` is sent on the wire under the parameter's key, in the one `CommitInfo` of the list. -/
structure Sent (p : IntegerParam) (n : ℤ) (wire : List Pb.Action) : Prop where
  inRange : p.InRange n
  one : ∃ ci : Pb.CommitInfo, wire.filterMap Pb.Action.toCommitInfo = [ci] ∧
    ci.operation = p.operation.toI32 ∧ ci.operationParameters[p.key]? = some (toString n)

end IntegerParam

open IntegerParam in
/-- **When an integer parameter reaches the operation**: only the zero that a field which is
no `Option` takes anyway. -/
theorem integer_param_carried_iff {p : IntegerParam} {n : ℤ} {wire : List Pb.Action}
    {actions : List Kernel.Action} (hs : p.Sent n wire) (h : mapActions cr wire = .ok actions) :
    p.Carried n (buildOperation actions) ↔ n = 0 ∧ p.DefaultsToZero := by
  obtain ⟨ci, hone, hop, -⟩ := hs.one
  have hfind : wire.findSome? Pb.Action.toCommitInfo = some ci := by
    rw [← List.head?_filterMap, hone]; rfl
  have hb := buildOperation_mapActions h
  simp only [hfind, hop, operationOf_mapJsonMap] at hb
  rw [hb]
  cases p <;> simp [operation, Carried, DefaultsToZero, eq_comm]

/-- A commit of one OPTIMIZE with a target size. -/
def optimizeWire (targetSize : String) : List Pb.Action :=
  [⟨some (.commitInfo {
    engineName := "spark"
    engineVersion := "3.5.0"
    operation := Pb.CommitOperation.optimize.toI32
    operationParameters := Std.ExtTreeMap.ofList [("target_size", targetSize)] compare
    userMetadata := ∅
    timestamp := 0 })⟩]

theorem optimizeWire_sent (n : ℤ) (hn : IntegerParam.targetSize.InRange n) :
    IntegerParam.targetSize.Sent n (optimizeWire (toString n)) :=
  ⟨hn, _, rfl, rfl, by simp [IntegerParam.key]⟩

theorem mapActions_optimizeWire (cr : Crates) (t : String) :
    ∃ actions, mapActions cr (optimizeWire t) = .ok actions :=
  ⟨_, rfl⟩

/-- A target size of 0 is carried. -/
theorem target_size_zero_carried :
    IntegerParam.targetSize.Sent 0 (optimizeWire "0") ∧
      ∀ cr, ∃ actions, mapActions cr (optimizeWire "0") = .ok actions ∧
        IntegerParam.targetSize.Carried 0 (buildOperation actions) := by
  have hs : IntegerParam.targetSize.Sent 0 (optimizeWire "0") :=
    optimizeWire_sent 0 ⟨by decide, by decide⟩
  refine ⟨hs, fun cr => ?_⟩
  obtain ⟨actions, h⟩ := mapActions_optimizeWire cr "0"
  exact ⟨actions, h, (integer_param_carried_iff hs h).2 ⟨rfl, trivial⟩⟩

/-- **A target size of 128 MiB is not carried.** -/
theorem target_size_not_carried :
    IntegerParam.targetSize.Sent 134217728 (optimizeWire "134217728") ∧
      ∀ cr, ∃ actions, mapActions cr (optimizeWire "134217728") = .ok actions ∧
        buildOperation actions = .optimize none 0 ∧
        ¬ IntegerParam.targetSize.Carried 134217728 (buildOperation actions) := by
  have hs : IntegerParam.targetSize.Sent 134217728 (optimizeWire "134217728") :=
    optimizeWire_sent 134217728 ⟨by decide, by decide⟩
  refine ⟨hs, fun cr => ?_⟩
  obtain ⟨actions, h⟩ := mapActions_optimizeWire cr "134217728"
  have hb : buildOperation actions = .optimize none 0 := by
    rw [buildOperation_mapActions h]
    change operationOf (mapCommitOperation Pb.CommitOperation.optimize.toI32) (mapJsonMap _) = _
    rw [operationOf_mapJsonMap]
    simp
  refine ⟨actions, h, hb, ?_⟩
  rw [hb]
  change ¬ (0 : Int64).toInt = 134217728
  decide

end DeltaTxn
