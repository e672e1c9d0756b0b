import DeltaTxn.Spec.Server

/-!
# The complete runs of Commit

What a Commit that has answered can have called, and what it answers then: one constructor
for each way through `commitUpdate` and `commitCreate`. Everything about the calls of a
single Commit is read off these.

* `commitUpdate_runs`, `commitCreate_runs`: the two paths.
* `commitLocked_runs`, `commit_runs`: the steps that lead to them.
-/

namespace DeltaTxn

open Conc

variable {cr : Crates} {srv : DeltaTxnGrpcServer} {r : Pb.CommitRequest} {url : Url}
  {actions : List Kernel.Action} {t : List Call} {a : Except Status Pb.CommitResponse}

/-- **The complete runs of `commitUpdate`.** -/
inductive UpdateRun (srv : DeltaTxnGrpcServer) (r : Pb.CommitRequest) (url : Url)
    (actions : List Kernel.Action) : List Call → Except Status Pb.CommitResponse → Prop
  | openFailed (e : DeltaTableError) :
      UpdateRun srv r url actions [⟨.openTable url srv.storageOpts, .error e⟩]
        (.error (openFailed e).toStatus)
  | rejected (snapshot : Except DeltaTableError DeltaTableState) (st : Status)
      (h : checkExpectedVersion r ⟨url, snapshot⟩ = .error st) :
      UpdateRun srv r url actions [⟨.openTable url srv.storageOpts, .ok snapshot⟩] (.error st)
  | noSnapshot (e : DeltaTableError) (h : checkExpectedVersion r ⟨url, .error e⟩ = .ok ()) :
      UpdateRun srv r url actions [⟨.openTable url srv.storageOpts, .ok (.error e)⟩]
        (.error (commitFailed e).toStatus)
  | failed (s : DeltaTableState) (e : DeltaTableError)
      (h : checkExpectedVersion r ⟨url, .ok s⟩ = .ok ()) :
      UpdateRun srv r url actions
        [⟨.openTable url srv.storageOpts, .ok (.ok s)⟩,
          ⟨.commitBuilder url (some s.version) actions (buildOperation actions), .error e⟩]
        (.error (commitFailed e).toStatus)
  | written (s : DeltaTableState) (n : Version)
      (h : checkExpectedVersion r ⟨url, .ok s⟩ = .ok ()) :
      UpdateRun srv r url actions
        [⟨.openTable url srv.storageOpts, .ok (.ok s)⟩,
          ⟨.commitBuilder url (some s.version) actions (buildOperation actions), .ok n⟩]
        (.ok ⟨n.toInt64⟩)

/-- **The complete runs of `commitCreate`.** -/
inductive CreateRun (srv : DeltaTxnGrpcServer) (url : Url) (actions : List Kernel.Action) :
    List Call → Except Status Pb.CommitResponse → Prop
  | refused (st : Status) (h : st.code = .failedPrecondition) :
      CreateRun srv url actions [] (.error st)
  | buildFailed (e : DeltaTableError) :
      CreateRun srv url actions [⟨.buildTable url srv.storageOpts, .error e⟩]
        (.error (openFailed e).toStatus)
  | failed (p : Kernel.Protocol) (m : Kernel.Metadata) (e : DeltaTableError) :
      CreateRun srv url actions
        [⟨.buildTable url srv.storageOpts, .ok ()⟩,
          ⟨.commitBuilder url none actions (.create .errorIfExists url p m), .error e⟩]
        (.error (commitFailed e).toStatus)
  | late (p : Kernel.Protocol) (m : Kernel.Metadata) (n : Version) (h : n.toInt64 ≠ 0) :
      CreateRun srv url actions
        [⟨.buildTable url srv.storageOpts, .ok ()⟩,
          ⟨.commitBuilder url none actions (.create .errorIfExists url p m), .ok n⟩]
        (.error (DeltaTxnError.versionConflict 0 n.toInt64).toStatus)
  | created (p : Kernel.Protocol) (m : Kernel.Metadata) (n : Version) (h : n.toInt64 = 0) :
      CreateRun srv url actions
        [⟨.buildTable url srv.storageOpts, .ok ()⟩,
          ⟨.commitBuilder url none actions (.create .errorIfExists url p m), .ok n⟩]
        (.ok ⟨n.toInt64⟩)

/-! ## The parts -/

theorem openTable_runs {b : Except DeltaTxnError DeltaTable}
    (h : (openTable url srv.storageOpts).run.Completes t b) :
    (∃ e, t = [⟨.openTable url srv.storageOpts, .error e⟩] ∧ b = .error (openFailed e)) ∨
      ∃ s, t = [⟨.openTable url srv.storageOpts, .ok s⟩] ∧ b = .ok ⟨url, s⟩ := by
  unfold openTable at h
  rcases Fallible.completes_mapErr_bind h with ⟨e, h₁, rfl⟩ | ⟨t₁, t₂, s, rfl, h₁, h₂⟩
  · exact Or.inl ⟨e, Prog.completes_call.1 h₁, rfl⟩
  · obtain ⟨rfl, rfl⟩ := Prog.completes_ret.1 h₂
    exact Or.inr ⟨s, by rw [Prog.completes_call.1 h₁, List.append_nil], rfl⟩

theorem tableExists_runs {b : Except DeltaTxnError Bool}
    (h : (tableExists url srv.storageOpts).run.Completes t b) :
    (∃ e, t = [⟨.buildTable url srv.storageOpts, .error e⟩] ∧ b = .error (openFailed e)) ∨
      ∃ x, t = [⟨.buildTable url srv.storageOpts, .ok ()⟩, ⟨.isDeltaTableLocation url, x⟩] ∧
        b = x.mapError openFailed := by
  unfold tableExists at h
  rcases Fallible.completes_mapErr_bind h with ⟨e, h₁, rfl⟩ | ⟨t₁, t₂, s, rfl, h₁, h₂⟩
  · exact Or.inl ⟨e, Prog.completes_call.1 h₁, rfl⟩
  · obtain ⟨x, hx, rfl⟩ := Fallible.completes_mapErr h₂
    exact Or.inr ⟨x, by rw [Prog.completes_call.1 h₁, Prog.completes_call.1 hx]; rfl, rfl⟩

theorem commitActions_runs {table : DeltaTable} {b : Except DeltaTxnError Int64}
    (h : (commitActions table actions).run.Completes t b) :
    (∃ e, table.snapshot = .error e ∧ t = [] ∧ b = .error (commitFailed e)) ∨
      ∃ s x, table.snapshot = .ok s ∧
        t = [⟨.commitBuilder table.url (some s.version) actions (buildOperation actions), x⟩] ∧
        b = (x.mapError commitFailed).map UInt64.toInt64 := by
  unfold commitActions at h
  rcases Fallible.completes_bind h with ⟨e, h₁, rfl⟩ | ⟨t₁, t₂, s, rfl, h₁, h₂⟩
  · obtain ⟨rfl, he⟩ := Fallible.completes_lift h₁
    cases hs : table.snapshot with
    | error e' => rw [hs] at he; cases he; exact Or.inl ⟨e', rfl, rfl, rfl⟩
    | ok s => rw [hs] at he; cases he
  · obtain ⟨rfl, he⟩ := Fallible.completes_lift h₁
    cases hs : table.snapshot with
    | error e' => rw [hs] at he; cases he
    | ok s' =>
      rw [hs] at he
      cases he
      rcases Fallible.completes_mapErr_bind h₂ with ⟨e, h₃, rfl⟩ | ⟨t₃, t₄, n, rfl, h₃, h₄⟩
      · exact Or.inr ⟨s, .error e, rfl, Prog.completes_call.1 h₃, rfl⟩
      · obtain ⟨rfl, rfl⟩ := Prog.completes_ret.1 h₄
        exact Or.inr ⟨s, .ok n, rfl, by rw [Prog.completes_call.1 h₃]; rfl, rfl⟩

/-- What `createTable` makes of the answer of its write. -/
def createResult : Except DeltaTableError Version → Except DeltaTxnError Int64
  | .error e => .error (commitFailed e)
  | .ok n => if n.toInt64 ≠ 0 then .error (.versionConflict 0 n.toInt64) else .ok n.toInt64

theorem createTable_runs {p : Kernel.Protocol} {m : Kernel.Metadata}
    {b : Except DeltaTxnError Int64}
    (h : (createTable url srv.storageOpts actions p m).run.Completes t b) :
    (∃ e, t = [⟨.buildTable url srv.storageOpts, .error e⟩] ∧ b = .error (openFailed e)) ∨
      ∃ x, t = [⟨.buildTable url srv.storageOpts, .ok ()⟩,
          ⟨.commitBuilder url none actions (.create .errorIfExists url p m), x⟩] ∧
        b = createResult x := by
  unfold createTable at h
  rcases Fallible.completes_mapErr_bind h with ⟨e, h₁, rfl⟩ | ⟨t₁, t₂, ⟨⟩, rfl, h₁, h₂⟩
  · exact Or.inl ⟨e, Prog.completes_call.1 h₁, rfl⟩
  refine Or.inr ?_
  rcases Fallible.completes_mapErr_bind h₂ with ⟨e, h₃, rfl⟩ | ⟨t₃, t₄, n, rfl, h₃, h₄⟩
  · exact ⟨.error e, by rw [Prog.completes_call.1 h₁, Prog.completes_call.1 h₃]; rfl, rfl⟩
  · refine ⟨.ok n, ?_⟩
    rw [Prog.completes_call.1 h₁, Prog.completes_call.1 h₃]
    simp only at h₄
    split at h₄
    · rename_i hn
      obtain ⟨rfl, rfl⟩ := Prog.completes_ret.1 h₄
      exact ⟨rfl, (if_pos hn).symm⟩
    · rename_i hn
      obtain ⟨rfl, rfl⟩ := Prog.completes_ret.1 h₄
      exact ⟨rfl, (if_neg hn).symm⟩

/-! ## The two paths -/

theorem commitUpdate_runs (h : (commitUpdate srv r url actions).run.Completes t a) :
    UpdateRun srv r url actions t a := by
  unfold commitUpdate at h
  rcases Fallible.completes_mapErr_bind h with ⟨e, h₁, rfl⟩ | ⟨t₁, t₂, table, rfl, h₁, h₂⟩
  · rcases openTable_runs h₁ with ⟨e', rfl, he⟩ | ⟨s, rfl, he⟩
    · cases he; exact .openFailed e'
    · cases he
  rcases openTable_runs h₁ with ⟨e', rfl, he⟩ | ⟨s, rfl, he⟩
  · cases he
  cases he
  rcases Fallible.completes_bind h₂ with ⟨st, h₃, rfl⟩ | ⟨t₃, t₄, ⟨⟩, rfl, h₃, h₄⟩
  · obtain ⟨rfl, hst⟩ := Fallible.completes_lift h₃
    exact .rejected s st hst.symm
  obtain ⟨rfl, hok⟩ := Fallible.completes_lift h₃
  rcases Fallible.completes_mapErr_bind h₄ with ⟨e, h₅, rfl⟩ | ⟨t₅, t₆, v, rfl, h₅, h₆⟩
  · rcases commitActions_runs h₅ with ⟨e', hs, rfl, he⟩ | ⟨s', x, hs, rfl, he⟩
    · cases he
      simp only at hs
      subst hs
      exact .noSnapshot e' hok.symm
    · simp only at hs
      subst hs
      cases x with
      | error x => cases he; exact .failed s' x hok.symm
      | ok n => cases he
  · rcases commitActions_runs h₅ with ⟨e', hs, rfl, he⟩ | ⟨s', x, hs, rfl, he⟩
    · cases he
    · simp only at hs
      subst hs
      cases x with
      | error x => cases he
      | ok n =>
        cases he
        obtain ⟨rfl, rfl⟩ := Prog.completes_ret.1 h₆
        exact .written s' n hok.symm

theorem commitCreate_runs (h : (commitCreate srv r url actions).run.Completes t a) :
    CreateRun srv url actions t a := by
  unfold commitCreate at h
  split at h
  · obtain ⟨rfl, rfl⟩ := Prog.completes_ret.1 h
    exact .refused _ rfl
  split at h
  · rename_i p m hp hm
    rcases Fallible.completes_mapErr_bind h with ⟨e, h₁, rfl⟩ | ⟨t₁, t₂, v, rfl, h₁, h₂⟩
    · rcases createTable_runs h₁ with ⟨e', rfl, he⟩ | ⟨x, rfl, he⟩
      · cases he; exact .buildFailed e'
      · unfold createResult at he
        cases x with
        | error x => cases he; exact .failed p m x
        | ok n =>
          simp only at he
          split at he
          · rename_i hn; cases he; exact .late p m n hn
          · cases he
    · rcases createTable_runs h₁ with ⟨e', rfl, he⟩ | ⟨x, rfl, he⟩
      · cases he
      · unfold createResult at he
        cases x with
        | error x => cases he
        | ok n =>
          simp only at he
          split at he
          · cases he
          · rename_i hn
            cases he
            obtain ⟨rfl, rfl⟩ := Prog.completes_ret.1 h₂
            exact .created p m n (not_not.1 hn)
  · obtain ⟨rfl, rfl⟩ := Prog.completes_ret.1 h
    exact .refused _ rfl

/-! ## The steps that lead to them -/

/-- Which path is taken, by what the existence check answered. -/
theorem commitLocked_paths (h : (commitLocked srv r url actions).run.Completes t a) :
    (∃ e, t = [⟨.buildTable url srv.storageOpts, .error e⟩] ∧
        a = .error (openFailed e).toStatus) ∨
    (∃ e, t = [⟨.buildTable url srv.storageOpts, .ok ()⟩,
          ⟨.isDeltaTableLocation url, .error e⟩] ∧ a = .error (openFailed e).toStatus) ∨
    (∃ t', t = ⟨.buildTable url srv.storageOpts, .ok ()⟩ ::
          ⟨.isDeltaTableLocation url, .ok true⟩ :: t' ∧
        (commitUpdate srv r url actions).run.Completes t' a) ∨
    (∃ t', t = ⟨.buildTable url srv.storageOpts, .ok ()⟩ ::
          ⟨.isDeltaTableLocation url, .ok false⟩ :: t' ∧
        (commitCreate srv r url actions).run.Completes t' a) := by
  unfold commitLocked at h
  rcases Fallible.completes_mapErr_bind h with ⟨e, h₁, rfl⟩ | ⟨t₁, t₂, b, rfl, h₁, h₂⟩
  · rcases tableExists_runs h₁ with ⟨e', rfl, he⟩ | ⟨x, rfl, he⟩
    · cases he; exact Or.inl ⟨e', rfl, rfl⟩
    · cases x with
      | error x => cases he; exact Or.inr (Or.inl ⟨x, rfl, rfl⟩)
      | ok x => cases he
  · rcases tableExists_runs h₁ with ⟨e', rfl, he⟩ | ⟨x, rfl, he⟩
    · cases he
    · cases x with
      | error x => cases he
      | ok x =>
        cases he
        cases b with
        | true => exact Or.inr (Or.inr (Or.inl ⟨t₂, rfl, h₂⟩))
        | false => exact Or.inr (Or.inr (Or.inr ⟨t₂, rfl, h₂⟩))

theorem commitLocked_runs (h : (commitLocked srv r url actions).run.Completes t a) :
    (∃ e, t = [⟨.buildTable url srv.storageOpts, .error e⟩] ∧
        a = .error (openFailed e).toStatus) ∨
    (∃ e, t = [⟨.buildTable url srv.storageOpts, .ok ()⟩,
          ⟨.isDeltaTableLocation url, .error e⟩] ∧ a = .error (openFailed e).toStatus) ∨
    (∃ t', t = ⟨.buildTable url srv.storageOpts, .ok ()⟩ ::
          ⟨.isDeltaTableLocation url, .ok true⟩ :: t' ∧ UpdateRun srv r url actions t' a) ∨
    (∃ t', t = ⟨.buildTable url srv.storageOpts, .ok ()⟩ ::
          ⟨.isDeltaTableLocation url, .ok false⟩ :: t' ∧ CreateRun srv url actions t' a) := by
  rcases commitLocked_paths h with h | h | ⟨t', ht, hu⟩ | ⟨t', ht, hc⟩
  · exact Or.inl h
  · exact Or.inr (Or.inl h)
  · exact Or.inr (Or.inr (Or.inl ⟨t', ht, commitUpdate_runs hu⟩))
  · exact Or.inr (Or.inr (Or.inr ⟨t', ht, commitCreate_runs hc⟩))

theorem checkTableUriAllowed_error {uri : String} {st : Status}
    (h : checkTableUriAllowed srv uri = .error st) : st.code = .permissionDenied := by
  unfold checkTableUriAllowed at h
  split at h
  · cases h
  · cases h; rfl

theorem checkRawTableUri_error {raw : String} {st : Status}
    (h : checkRawTableUri srv raw = .error st) : st.code = .permissionDenied := by
  unfold checkRawTableUri at h
  split at h
  · exact checkTableUriAllowed_error h
  · cases h

theorem normalizeAndCheckTableUri_runs {raw : String} {b : Except Status Url}
    (h : (normalizeAndCheckTableUri srv raw).run.Completes t b) :
    (∃ st, b = .error st ∧ (st.code = .permissionDenied ∨ st.code = .invalidArgument) ∧
        (t = [] ∨ ∃ x, t = [⟨.ensureTableUri raw, x⟩])) ∨
      ∃ url, b = .ok url ∧ t = [⟨.ensureTableUri raw, .ok url⟩] := by
  unfold normalizeAndCheckTableUri at h
  rcases Fallible.completes_bind h with ⟨st, h₁, rfl⟩ | ⟨t₁, t₂, ⟨⟩, rfl, h₁, h₂⟩
  · obtain ⟨rfl, hst⟩ := Fallible.completes_lift h₁
    exact Or.inl ⟨st, rfl, Or.inl (checkRawTableUri_error hst.symm), Or.inl rfl⟩
  obtain ⟨rfl, -⟩ := Fallible.completes_lift h₁
  rcases Fallible.completes_mapErr_bind h₂ with ⟨e, h₃, rfl⟩ | ⟨t₃, t₄, url, rfl, h₃, h₄⟩
  · exact Or.inl ⟨_, rfl, Or.inr rfl, Or.inr ⟨_, Prog.completes_call.1 h₃⟩⟩
  obtain rfl := Prog.completes_call.1 h₃
  rcases Fallible.completes_bind h₄ with ⟨st, h₅, rfl⟩ | ⟨t₅, t₆, ⟨⟩, rfl, h₅, h₆⟩
  · obtain ⟨rfl, hst⟩ := Fallible.completes_lift h₅
    exact Or.inl ⟨st, rfl, Or.inl (checkTableUriAllowed_error hst.symm), Or.inr ⟨_, rfl⟩⟩
  · obtain ⟨rfl, -⟩ := Fallible.completes_lift h₅
    obtain ⟨rfl, rfl⟩ := Prog.completes_ret.1 h₆
    exact Or.inr ⟨url, rfl, rfl⟩

theorem commit_runs (h : (commit cr srv r).run.Completes t a) :
    (∃ st, a = .error st ∧ (st.code = .permissionDenied ∨ st.code = .invalidArgument) ∧
        (t = [] ∨ ∃ x, t = [⟨.ensureTableUri r.tableUri, x⟩])) ∨
      ∃ url actions lock t', mapActions cr r.actions = .ok actions ∧
        t = ⟨.ensureTableUri r.tableUri, .ok url⟩ :: ⟨.lockFor url.asStr, lock⟩ ::
          ⟨.lock lock, ()⟩ :: t' ∧
        (commitLocked srv r url actions).run.Completes t' a := by
  unfold commit at h
  rcases Fallible.completes_bind h with ⟨st, h₁, rfl⟩ | ⟨t₁, t₂, url, rfl, h₁, h₂⟩
  · rcases normalizeAndCheckTableUri_runs h₁ with ⟨st', he, hst, ht⟩ | ⟨url, he, -⟩
    · cases he; exact Or.inl ⟨st, rfl, hst, ht⟩
    · cases he
  rcases normalizeAndCheckTableUri_runs h₁ with ⟨st', he, -⟩ | ⟨url, he, rfl⟩
  · cases he
  cases he
  rcases Fallible.completes_bind h₂ with ⟨st, h₃, rfl⟩ | ⟨t₃, t₄, actions, rfl, h₃, h₄⟩
  · obtain ⟨rfl, hst⟩ := Fallible.completes_lift h₃
    refine Or.inl ⟨st, rfl, Or.inr ?_, Or.inr ⟨_, rfl⟩⟩
    cases hm : mapActions cr r.actions with
    | error e => rw [hm] at hst; cases hst; rfl
    | ok actions => rw [hm] at hst; cases hst
  obtain ⟨rfl, hm⟩ := Fallible.completes_lift h₃
  obtain ⟨t₅, t₆, lock, rfl, h₅, h₆⟩ := Fallible.completes_lift_bind h₄
  obtain rfl := Prog.completes_call.1 h₅
  obtain ⟨t₇, t₈, ⟨⟩, rfl, h₇, h₈⟩ := Fallible.completes_lift_bind h₆
  obtain rfl := Prog.completes_call.1 h₇
  refine Or.inr ⟨url, actions, lock, t₈, ?_, rfl, h₈⟩
  cases hm' : mapActions cr r.actions with
  | error e => rw [hm'] at hm; cases hm
  | ok actions' => rw [hm'] at hm; cases hm; rfl

end DeltaTxn
