import DeltaTxn.Data.Traverse
import DeltaTxn.Proof.Allowlist
import DeltaTxn.Proof.Params

/-!
# Action lists are mapped as a whole

`map_actions` checks every action of a Commit before anything else is done with the list: the
first action that is rejected rejects the Commit.

* `mapAction_error_iff`: which actions are rejected, and how.
* `mapAction_carried`: what a mapped action keeps of the wire action.
* `rejectedCommit`: a Commit with a rejected action leaves nothing behind.
* `action_list_all_or_nothing`: the three together, for a list of any length.
-/

namespace DeltaTxn

open Conc

variable {cr : Crates} {a : Pb.Action} {e : String}

/-- The wire value of a `data_change`. -/
def Pb.DataChange.ofBool (b : Bool) : Int32 := if b then isTrue.toI32 else isFalse.toI32

/-- `data_change` says neither, and the error that says so. -/
def DataChangeRejected (dc : Int32) (e : String) : Prop :=
  (∀ b, dc ≠ Pb.DataChange.ofBool b) ∧
    e = if dc = Pb.DataChange.unspecified.toI32 then "data_change is unspecified"
      else "invalid data_change value: " ++ toString dc

/-- **The action is rejected**, with the error `e`: it has no variant set, it is an Add or a
Remove that does not say whether it changes data, or delta-rs refuses to deserialize it. -/
def Pb.Action.Rejected (cr : Crates) (a : Pb.Action) (e : String) : Prop :=
  match a.action with
  | none => e = "missing action"
  | some (.add a) => DataChangeRejected a.dataChange e
  | some (.remove r) => DataChangeRejected r.dataChange e
  | some (.protocol p) => mapProtocol cr p = .error e
  | some (.metaData m) => mapMetadata cr m = .error e
  | some (.commitInfo _) => False

/-- **What a mapped action keeps of the wire action**: its kind, and the fields below. -/
def Carried (cr : Crates) (a : Pb.Action) (k : Kernel.Action) : Prop :=
  match a.action, k with
  | some (.add a), .add b =>
    b.path = a.path ∧ b.size = a.size ∧ b.modificationTime = a.modificationTime ∧
      Pb.DataChange.ofBool b.dataChange = a.dataChange ∧
      ∀ column : String, b.partitionValues[column]? = a.partitionValues[column]?.map some
  | some (.remove r), .remove s =>
    s.path = r.path ∧ s.deletionTimestamp = r.deletionTimestamp ∧
      Pb.DataChange.ofBool s.dataChange = r.dataChange
  | some (.protocol p), .protocol q => mapProtocol cr p = .ok q
  | some (.metaData m), .metadata n => mapMetadata cr m = .ok n
  | some (.commitInfo ci), .commitInfo cj =>
    cj.timestamp = if ci.timestamp = 0 then none else some ci.timestamp
  | _, _ => False

/-- Serializing a map of strings to JSON does not fail. -/
def Crates.SerializesMaps (cr : Crates) : Prop := ∀ m, ∃ s, cr.mapToString m = .ok s

/-! ## One action -/

theorem mapDataChange_ok_iff {dc : Int32} {b : Bool} :
    mapDataChange dc = .ok b ↔ Pb.DataChange.ofBool b = dc := by
  unfold mapDataChange Pb.DataChange.tryFrom
  by_cases h0 : dc = 0
  · subst h0
    cases b <;> decide
  by_cases h1 : dc = 1
  · subst h1
    cases b <;> decide
  by_cases h2 : dc = 2
  · subst h2
    cases b <;> decide
  · rw [if_neg h0, if_neg h1, if_neg h2]
    cases b <;> simp [Pb.DataChange.ofBool, Pb.DataChange.toI32, Ne.symm h1, Ne.symm h2]

theorem mapDataChange_error_iff {dc : Int32} :
    mapDataChange dc = .error e ↔ DataChangeRejected dc e := by
  by_cases hb : ∃ b, Pb.DataChange.ofBool b = dc
  · obtain ⟨b, hb⟩ := hb
    rw [mapDataChange_ok_iff.2 hb]
    constructor
    · intro h
      cases h
    · intro h
      exact absurd hb.symm (h.1 b)
  · have hno : ∀ b, dc ≠ Pb.DataChange.ofBool b := fun b h => hb ⟨b, h.symm⟩
    have h1 : dc ≠ 1 := hno true
    have h2 : dc ≠ 2 := hno false
    have herr : mapDataChange dc = .error (if dc = 0 then "data_change is unspecified"
        else "invalid data_change value: " ++ toString dc) := by
      unfold mapDataChange Pb.DataChange.tryFrom
      rw [if_neg h1, if_neg h2]
      by_cases h0 : dc = 0
      · rw [if_pos h0, if_pos h0]
      · rw [if_neg h0, if_neg h0]
    rw [herr]
    constructor
    · intro h
      cases h
      exact ⟨hno, rfl⟩
    · rintro ⟨-, rfl⟩
      rfl

theorem mapUserMetadata_ok (hser : cr.SerializesMaps) (m : HashMap String) :
    ∃ u, mapUserMetadata cr m = .ok u := by
  unfold mapUserMetadata
  split
  · exact ⟨none, rfl⟩
  · obtain ⟨s, hs⟩ := hser m
    exact ⟨some s, by rw [hs]; rfl⟩

/-- **Which actions are rejected.** -/
theorem mapAction_error_iff (hser : cr.SerializesMaps) :
    mapAction cr a = .error e ↔ a.Rejected cr e := by
  obtain ⟨_ | w⟩ := a
  · change Except.error "missing action" = Except.error e ↔ e = "missing action"
    rw [Except.error.injEq, eq_comm]
  cases w with
  | add a => exact Traverse.map_eq_error.trans (Traverse.map_eq_error.trans mapDataChange_error_iff)
  | remove r =>
    exact Traverse.map_eq_error.trans (Traverse.map_eq_error.trans mapDataChange_error_iff)
  | protocol p => exact Traverse.map_eq_error
  | metaData m => exact Traverse.map_eq_error
  | commitInfo ci =>
    -- serializing the user metadata is the one step that could fail
    obtain ⟨u, hu⟩ := mapUserMetadata_ok hser ci.userMetadata
    refine (Traverse.map_eq_error.trans Traverse.map_eq_error).trans ?_
    rw [hu]
    constructor
    · intro h
      cases h
    · exact False.elim

/-- **A mapped action is the wire action again**, in its kind and the fields that both have. -/
theorem mapAction_carried {k : Kernel.Action} (h : mapAction cr a = .ok k) : Carried cr a k := by
  obtain ⟨_ | w⟩ := a
  · cases h
  cases w with
  | add a =>
    obtain ⟨b, hb, rfl⟩ := Traverse.map_eq_ok h
    obtain ⟨dc, hdc, rfl⟩ := Traverse.map_eq_ok hb
    refine ⟨rfl, rfl, rfl, mapDataChange_ok_iff.1 hdc, fun column => ?_⟩
    exact Std.ExtTreeMap.getElem?_map
  | remove r =>
    obtain ⟨s, hs, rfl⟩ := Traverse.map_eq_ok h
    obtain ⟨dc, hdc, rfl⟩ := Traverse.map_eq_ok hs
    exact ⟨rfl, rfl, mapDataChange_ok_iff.1 hdc⟩
  | protocol p =>
    obtain ⟨q, hq, rfl⟩ := Traverse.map_eq_ok h
    exact hq
  | metaData m =>
    obtain ⟨n, hn, rfl⟩ := Traverse.map_eq_ok h
    exact hn
  | commitInfo ci =>
    obtain ⟨cj, hcj, rfl⟩ := Traverse.map_eq_ok h
    obtain ⟨u, -, rfl⟩ := Traverse.map_eq_ok hcj
    rfl

/-! ## A Commit that is rejected -/

variable {srv : DeltaTxnGrpcServer} {r : Pb.CommitRequest}

theorem normalizeAndCheckTableUri_all (srv : DeltaTxnGrpcServer) (raw : String) :
    (normalizeAndCheckTableUri srv raw).run.All (fun o => o = .ensureTableUri raw) fun _ => True := by
  unfold normalizeAndCheckTableUri
  refine Fallible.all_bind (R := fun _ => True) trivial (fun _ _ => ?_) fun _ _ => trivial
  refine Fallible.all_mapErr_bind (Prog.all_call rfl) (fun url _ => ?_) fun _ => trivial
  exact Fallible.all_bind (R := fun _ => True) trivial (fun _ _ => trivial) fun _ _ => trivial

/-- After the checks of its `table_uri`, such a Commit just fails. -/
theorem commitChecked_rejected (h : mapActions cr r.actions = .error e) (url : Url) :
    (commitChecked cr srv r url).run = .ret (.error (.invalidArgument e)) := by
  unfold commitChecked
  rw [h]
  rfl

theorem commit_rejected_all (h : mapActions cr r.actions = .error e) :
    (commit cr srv r).run.All (fun o => o = .ensureTableUri r.tableUri) fun _ => True := by
  rw [commit_eq]
  refine Fallible.all_bind (normalizeAndCheckTableUri_all srv r.tableUri) (fun url _ => ?_)
    fun _ _ => trivial
  rw [commitChecked_rejected h]
  trivial

/-- **The Commit fails with `e` before it has any effect.** -/
structure RejectedCommit (cr : Crates) (r : Pb.CommitRequest) (e : String) : Prop where
  /-- No lock is taken and no storage is opened, in any run, also in one that is cut short. -/
  calls : ∀ srv t q, (commit cr srv r).run.Runs t q → ∀ x ∈ t, x.1 = .ensureTableUri r.tableUri
  /-- The answer is that of the checks of the `table_uri`, and INVALID_ARGUMENT if they pass. -/
  answer : ∀ srv t a, (commit cr srv r).run.Completes t a →
    ∃ b, (normalizeAndCheckTableUri srv r.tableUri).run.Completes t b ∧
      a = b.bind fun _ => .error ⟨.invalidArgument, e⟩
  /-- Among any other requests, it has no entry in any log, and no step of it changes anything. -/
  world : ∀ {ρ ι : Type} [DecidableEq ρ] [DecidableEq ι] (S : Setting ρ ι)
    (log : Url → Version → Option (List Kernel.Action)) (c : S.State) (i : ι),
    S.cr = cr → S.req i = r → S.Reachable log c →
      ¬ S.HasEntry c i ∧ ∀ c' x, Config.Step S.machine c c' →
        c'.calls = c.calls ++ [(i, x)] → c'.shared = c.shared

theorem rejectedCommit (h : mapActions cr r.actions = .error e) : RejectedCommit cr r e where
  calls srv t q hr := (commit_rejected_all h).runs hr
  answer := by
    intro srv t a hc
    rw [commit_eq] at hc
    rcases Fallible.completes_bind hc with ⟨st, hst, rfl⟩ | ⟨t₁, t₂, url, rfl, h₁, h₂⟩
    · exact ⟨.error st, hst, rfl⟩
    · rw [commitChecked_rejected h] at h₂
      obtain ⟨rfl, rfl⟩ := Prog.completes_ret.1 h₂
      rw [List.append_nil]
      exact ⟨.ok url, h₁, rfl⟩
  world := by
    intro ρ ι _ _ S log c i hcr hreq hreach
    have hall : (S.program i).All (fun o => o = .ensureTableUri r.tableUri) fun _ => True := by
      unfold Setting.program
      rw [hcr, hreq]
      exact commit_rejected_all h
    constructor
    · rintro ⟨url, n, logged, he⟩
      rcases S.governs.entry_cases hreach he with hbefore | ⟨j, x, base, actions, hx, hputs, hj, -⟩
      · cases (World.start_entry hbefore).1
      · cases hj
        obtain ⟨op, b, rfl⟩ := hputs.eq_commitBuilder
        cases Config.Reach.all hreach hall hx
    · rintro c' ⟨o, b⟩ hst hcalls
      obtain rfl : o = .ensureTableUri r.tableUri :=
        Config.Reach.all (hreach.tail hst) hall (x := ⟨o, b⟩) (by rw [hcalls]; simp)
      exact (hst.exec_of_calls hcalls).2

/-! ## The list -/

theorem mapAction_ok_iff (hser : cr.SerializesMaps) :
    (∃ k, mapAction cr a = .ok k) ↔ ∀ e, ¬ a.Rejected cr e := by
  simp only [← mapAction_error_iff hser]
  cases mapAction cr a with
  | error e => simp
  | ok k => simp

theorem mapActions_isOk_iff (hser : cr.SerializesMaps) {wire : List Pb.Action} :
    (∃ actions, mapActions cr wire = .ok actions) ↔ ∀ a ∈ wire, ∀ e, ¬ a.Rejected cr e := by
  simp only [← mapAction_ok_iff hser]
  exact Traverse.mapM_isOk_iff

theorem mapActions_carried {wire : List Pb.Action} {actions : List Kernel.Action}
    (h : mapActions cr wire = .ok actions) : wire.Forall₂ (Carried cr) actions :=
  (Traverse.mapM_ok_iff.1 h).imp fun _ _ => mapAction_carried

/-- **Action lists are validated all or nothing, and kept in order.** The error is that of the
first action that is rejected; if none is, each action is carried over at its place. And a
Commit whose list is rejected has no effect. -/
theorem action_list_all_or_nothing (cr : Crates) (hser : cr.SerializesMaps)
    (wire : List Pb.Action) :
    (∀ e, mapActions cr wire = .error e ↔ ∃ pre a post, wire = pre ++ a :: post ∧
      (∀ b ∈ pre, ∀ e', ¬ b.Rejected cr e') ∧ a.Rejected cr e) ∧
    ((∃ e, mapActions cr wire = .error e) ↔ ∃ a ∈ wire, ∃ e, a.Rejected cr e) ∧
    ((∃ actions, mapActions cr wire = .ok actions ∧ wire.Forall₂ (Carried cr) actions) ↔
      ∀ a ∈ wire, ∀ e, ¬ a.Rejected cr e) ∧
    ∀ e r, r.actions = wire → mapActions cr wire = .error e → RejectedCommit cr r e := by
  refine ⟨fun e => ?_, ?_, ?_, ?_⟩
  · simp only [← mapAction_ok_iff hser]
    simp only [← mapAction_error_iff hser]
    exact Traverse.mapM_error_iff
  · have hok : (∃ actions, mapActions cr wire = .ok actions) ↔ _ := mapActions_isOk_iff hser
    cases hm : mapActions cr wire with
    | error e =>
      rw [hm] at hok
      by_contra hno
      simp only [Except.error.injEq, exists_eq', true_iff, not_exists, not_and] at hno
      obtain ⟨_, h⟩ := hok.2 hno
      cases h
    | ok actions =>
      rw [hm] at hok
      constructor
      · rintro ⟨_, h⟩
        cases h
      · rintro ⟨a, ha, e, he⟩
        exact absurd he (hok.1 ⟨_, rfl⟩ a ha e)
  · rw [← mapActions_isOk_iff hser]
    constructor
    · rintro ⟨actions, h, -⟩
      exact ⟨actions, h⟩
    · rintro ⟨actions, h⟩
      exact ⟨actions, h, mapActions_carried h⟩
  · rintro e r rfl h
    exact rejectedCommit h

/-- A good action before two bad ones. -/
def badWire : List Pb.Action :=
  [⟨some (.protocol ⟨1, 2⟩)⟩, ⟨some (.remove ⟨"part-0.parquet", none, 7⟩)⟩, ⟨none⟩]

/-- **The first bad action decides**, and the Commit has no effect. -/
theorem bad_wire_rejected :
    mapActions raceCrates badWire = .error "invalid data_change value: 7" ∧
      RejectedCommit raceCrates ⟨"s3://bucket/t", none, badWire⟩ "invalid data_change value: 7" := by
  have hall := action_list_all_or_nothing raceCrates (fun m => ⟨_, rfl⟩) badWire
  have herr : mapActions raceCrates badWire = .error "invalid data_change value: 7" := by
    refine (hall.1 _).2 ⟨[⟨some (.protocol ⟨1, 2⟩)⟩], _, [⟨none⟩], rfl, ?_, ?_⟩
    · intro b hb e' hbad
      rw [List.mem_singleton.1 hb] at hbad
      cases hbad
    · refine ⟨fun b => ?_, by decide +kernel⟩
      cases b <;> decide
  exact ⟨herr, hall.2.2.2 _ _ rfl herr⟩

end DeltaTxn
