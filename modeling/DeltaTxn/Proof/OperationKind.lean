import DeltaTxn.Proof.Atomic
import DeltaTxn.Proof.Params

/-!
# The operation of a commit is the one its log entry records

Two tables of strings: `mapCommitOperation` names the operation that a `CommitInfo` asks for, and
`operationOf` reads that name again to choose the `DeltaOperation` of the commit.

* `operationOf_agrees`: the choice, against the recorded name.
* `asked_of_recorded`: a name is recorded for one wire value only.
* `operation_matches_log`: the operation of a commit, from the wire.
-/

namespace DeltaTxn

variable {cr : Crates}

/-- **The operation is of the kind that `operation` names**, and carries the string parameters of
`params`; it is an append for every name that has no kind of its own. -/
structure AgreesWith (operation : Option String) (params : HashMap String) (op : DeltaOperation) :
    Prop where
  merge : operation = some "MERGE" ↔
    op = .merge params["predicate"]? params["merge_predicate"]? [] [] []
  update : operation = some "UPDATE" ↔ op = .update params["predicate"]?
  delete : operation = some "DELETE" ↔ op = .delete params["predicate"]?
  optimize : operation = some "OPTIMIZE" ↔
    ∃ targetSize, op = .optimize params["predicate"]? targetSize
  vacuum : operation = some "VACUUM" ↔
    ∃ check specified default, op = .vacuumStart check specified default
  restore : operation = some "RESTORE" ↔ ∃ version datetime, op = .restore version datetime
  write : (∀ s ∈ ["MERGE", "UPDATE", "DELETE", "OPTIMIZE", "VACUUM", "RESTORE"], operation ≠ some s) ↔
    op = .write .append none none

theorem operationOf_agrees (operation : Option String) (params : HashMap String) :
    AgreesWith operation params (operationOf operation (mapJsonMap params)) := by
  unfold operationOf
  split
  · constructor <;> simp [stringParam_mapJsonMap]
  · constructor <;> simp [stringParam_mapJsonMap]
  · constructor <;> simp [stringParam_mapJsonMap]
  · constructor <;> simp [stringParam_mapJsonMap]
  · constructor <;> simp
  · constructor <;> simp
  · -- every other name is none of the six
    rename_i h₁ h₂ h₃ h₄ h₅ h₆
    refine ⟨iff_of_false h₁ ?_, iff_of_false h₂ ?_, iff_of_false h₃ ?_, iff_of_false h₄ ?_,
      iff_of_false h₅ ?_, iff_of_false h₆ ?_, iff_of_true ?_ rfl⟩
    · simp [defaultWriteOperation]
    · simp [defaultWriteOperation]
    · simp [defaultWriteOperation]
    · simp [defaultWriteOperation]
    · simp [defaultWriteOperation]
    · simp [defaultWriteOperation]
    · simp only [List.forall_mem_cons]
      exact ⟨h₁, h₂, h₃, h₄, h₅, h₆, by simp⟩

/-- The operation changes no data, by which delta-rs may relax its conflict check. -/
def DeltaOperation.ChangesNoData : DeltaOperation → Prop
  | .optimize _ _ | .vacuumStart _ _ _ => True
  | _ => False

theorem operationOf_changesNoData {operation : Option String} {params : Option (HashMap Value)} :
    (operationOf operation params).ChangesNoData ↔
      operation = some "OPTIMIZE" ∨ operation = some "VACUUM" := by
  unfold operationOf
  split
  · simp [DeltaOperation.ChangesNoData]
  · simp [DeltaOperation.ChangesNoData]
  · simp [DeltaOperation.ChangesNoData]
  · exact iff_of_true trivial (Or.inl rfl)
  · exact iff_of_true trivial (Or.inr rfl)
  · simp [DeltaOperation.ChangesNoData]
  · rename_i h₁ h₂ h₃ h₄ h₅ h₆
    exact iff_of_false (fun h => h) (not_or.2 ⟨h₄, h₅⟩)

/-! ## The name that is recorded -/

theorem Pb.CommitOperation.tryFrom_eq_some {i : Int32} {o : Pb.CommitOperation}
    (h : tryFrom i = some o) : i = o.toI32 := by
  unfold tryFrom at h
  split_ifs at h with h0 h1 h2 h3 h4 h5 h6 h7 h8 <;> cases h <;> assumption

/-- The table of names, read backwards. -/
def Pb.CommitOperation.ofName : Option String → Pb.CommitOperation
  | some "WRITE" => write
  | some "MERGE" => merge
  | some "UPDATE" => update
  | some "DELETE" => delete
  | some "OPTIMIZE" => optimize
  | some "VACUUM" => vacuum
  | some "RESTORE" => restore
  | some "CONVERT" => convert
  | _ => unspecified

theorem ofName_mapCommitOperation (o : Pb.CommitOperation) :
    Pb.CommitOperation.ofName (mapCommitOperation o.toI32) = o := by
  cases o <;> rfl

/-- **A name is recorded for one wire value only.** -/
theorem asked_of_recorded {i : Int32} {o : Pb.CommitOperation} (ho : o ≠ .unspecified)
    (h : mapCommitOperation i = mapCommitOperation o.toI32) : i = o.toI32 := by
  have hname := congrArg Pb.CommitOperation.ofName h
  rw [ofName_mapCommitOperation] at hname
  cases hi : Pb.CommitOperation.tryFrom i with
  | none =>
    have hnone : mapCommitOperation i = none := by
      unfold mapCommitOperation
      rw [hi]
      rfl
    rw [hnone] at hname
    exact absurd hname.symm ho
  | some o' =>
    obtain rfl := Pb.CommitOperation.tryFrom_eq_some hi
    rw [ofName_mapCommitOperation] at hname
    rw [hname]

/-! ## The operation, from the wire -/

/-- The first `CommitInfo` of the list, its entry in the log, and the operation. -/
theorem buildOperation_entry {wire : List Pb.Action} {actions : List Kernel.Action}
    (h : mapActions cr wire = .ok actions) {ci : Pb.CommitInfo}
    (hci : wire.findSome? Pb.Action.toCommitInfo = some ci) :
    ∃ entry, findCommitInfo actions = some entry ∧
      entry.operation = mapCommitOperation ci.operation ∧
      buildOperation actions = operationOf entry.operation (mapJsonMap ci.operationParameters) := by
  have hrel := findCommitInfo_mapActions h
  rw [hci] at hrel
  generalize hf : findCommitInfo actions = found at hrel
  cases hrel with
  | @some _ entry hmap =>
    obtain ⟨hop, hparams⟩ := mapCommitInfo_fields hmap
    refine ⟨entry, rfl, hop, ?_⟩
    unfold buildOperation
    rw [hf, ← hparams]

/-- **The operation of a commit matches what its log records**, for every list of actions that is
accepted: it is that of the first `CommitInfo` of the list, whatever stands around it, and of the
kind that this `CommitInfo` has in the log. So conflict checks are relaxed only for a client
whose first `CommitInfo` asks for OPTIMIZE or VACUUM. -/
theorem operation_matches_log (cr : Crates) (wire : List Pb.Action) (actions : List Kernel.Action)
    (h : mapActions cr wire = .ok actions) :
    (∀ wire' actions', mapActions cr wire' = .ok actions' →
      wire'.findSome? Pb.Action.toCommitInfo = wire.findSome? Pb.Action.toCommitInfo →
        buildOperation actions' = buildOperation actions) ∧
    (wire.findSome? Pb.Action.toCommitInfo = none →
      buildOperation actions = .write .append none none) ∧
    (∀ ci, wire.findSome? Pb.Action.toCommitInfo = some ci →
      ∃ entry, findCommitInfo actions = some entry ∧
        entry.operation = mapCommitOperation ci.operation ∧
        AgreesWith entry.operation ci.operationParameters (buildOperation actions)) ∧
    ((buildOperation actions).ChangesNoData →
      ∃ ci, wire.findSome? Pb.Action.toCommitInfo = some ci ∧
        (ci.operation = Pb.CommitOperation.optimize.toI32 ∨
          ci.operation = Pb.CommitOperation.vacuum.toI32)) := by
  refine ⟨?_, ?_, ?_, ?_⟩
  · intro wire' actions' h' hfirst
    rw [buildOperation_mapActions h', buildOperation_mapActions h, hfirst]
  · intro hnone
    rw [buildOperation_mapActions h, hnone]
    rfl
  · intro ci hci
    obtain ⟨entry, hentry, hop, hbuild⟩ := buildOperation_entry h hci
    refine ⟨entry, hentry, hop, ?_⟩
    rw [hbuild]
    exact operationOf_agrees _ _
  · intro hno
    cases hci : wire.findSome? Pb.Action.toCommitInfo with
    | none =>
      rw [buildOperation_mapActions h, hci] at hno
      exact hno.elim
    | some ci =>
      obtain ⟨entry, -, hop, hbuild⟩ := buildOperation_entry h hci
      rw [hbuild, operationOf_changesNoData, hop] at hno
      refine ⟨ci, rfl, hno.imp (fun hname => ?_) fun hname => ?_⟩
      · exact asked_of_recorded (o := .optimize) (by decide) (hname.trans rfl)
      · exact asked_of_recorded (o := .vacuum) (by decide) (hname.trans rfl)

/-- A `CommitInfo` with one parameter. -/
def commitInfoAction (operation : Int32) (key value : String) : Pb.Action :=
  ⟨some (.commitInfo {
    engineName := "spark"
    engineVersion := "3.5.0"
    operation := operation
    operationParameters := Std.ExtTreeMap.ofList [(key, value)] compare
    userMetadata := ∅
    timestamp := 0 })⟩

/-- An OPTIMIZE after a Remove and before a `CommitInfo` of an operation that is not in the enum. -/
def optimizeFirst : List Pb.Action :=
  [⟨some (.remove ⟨"part-0.parquet", none, Pb.DataChange.isFalse.toI32⟩)⟩,
    commitInfoAction Pb.CommitOperation.optimize.toI32 "predicate" "day = 1",
    commitInfoAction 99 "predicate" "day = 2"]

/-- **The first `CommitInfo` decides.** -/
theorem optimize_first_chosen : ∃ actions targetSize,
    mapActions raceCrates optimizeFirst = .ok actions ∧
      buildOperation actions = .optimize (some "day = 1") targetSize := by
  obtain ⟨actions, h⟩ : ∃ actions, mapActions raceCrates optimizeFirst = .ok actions := ⟨_, rfl⟩
  obtain ⟨entry, -, hop, hagrees⟩ :=
    (operation_matches_log raceCrates optimizeFirst actions h).2.2.1 _ rfl
  obtain ⟨targetSize, ht⟩ := hagrees.optimize.1 (hop.trans rfl)
  refine ⟨actions, targetSize, h, ?_⟩
  rw [ht]
  simp

end DeltaTxn
