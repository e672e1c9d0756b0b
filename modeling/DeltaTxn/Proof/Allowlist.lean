import DeltaTxn.Proof.Atomic
import DeltaTxn.Proof.Calls

/-!
# The allowlist confines the three RPCs

Every handler starts with `normalizeAndCheckTableUri`. Whatever `ensure_table_uri` answers, the
calls after it are about the URL it answered, and only if the allowlist admits that URL.

* `allowlist_confines`: every call on storage, and the lock, is on the checked URL.
* `allowlist_raw_check`: what the check of the raw string does, and what it skips.
-/

namespace DeltaTxn

open Conc

variable {cr : Crates} {srv : DeltaTxnGrpcServer} {α : Type}

/-! ## The calls of a handler's body -/

/-- The call is about the URL `url`: on storage at it, or for the lock under it. -/
def Op.OnlyOn (url : Url) : Op → Prop
  | .ensureTableUri _ => False
  | .lockFor key => key = url.asStr
  | .lock _ => True
  | .buildTable u _ => u = url
  | .isDeltaTableLocation u => u = url
  | .openTable u _ => u = url
  | .commitBuilder u _ _ _ => u = url
  | .send _ => True

/-- A call that serves a request at a URL is about that URL. -/
theorem Op.Serves.onlyOn {url : Url} {toWrite : Option (List Kernel.Action)} {o : Op}
    (h : o.Serves srv url toWrite) : o.OnlyOn url := by
  cases o with
  | ensureTableUri raw => exact h
  | lockFor key => exact h.2
  | lock n => trivial
  | buildTable u opts => exact h.1
  | isDeltaTableLocation u => exact h
  | openTable u opts => exact h.1
  | commitBuilder u base acts op => exact h.1
  | send item => trivial

theorem commitChecked_onlyOn {r : Pb.CommitRequest} (url : Url) :
    (commitChecked cr srv r url).run.All (Op.OnlyOn url) fun _ => True := by
  cases hmap : mapActions cr r.actions with
  | error e =>
    rw [commitChecked_error hmap]
    trivial
  | ok actions => exact (commitChecked_serves hmap url).mono (fun _ h => h.onlyOn) fun _ h => h

theorem getTableChecked_onlyOn (url : Url) :
    (getTableChecked cr srv url).run.All (Op.OnlyOn url) fun _ => True :=
  (getTableChecked_reads url).mono (fun _ h => h.1.onlyOn) fun _ h => h

theorem streamTask_onlyOn (url : Url) :
    (liftM (streamActiveFiles cr srv url) : Eff Status Unit).run.All (Op.OnlyOn url) fun _ => True :=
  (streamTask_reads url).mono (fun _ h => h.1.onlyOn) fun _ h => h

/-! ## Confinement -/

/-- **The calls of an RPC are confined.** It has made none, or none but `ensure_table_uri`; or
`ensure_table_uri` has answered a URL that the allowlist admits, and all other calls, on
storage and for the lock, are about that URL. -/
def Confined (srv : DeltaTxnGrpcServer) (raw : String) (t : List Call) : Prop :=
  t = [] ∨ (∃ b, t = [⟨.ensureTableUri raw, b⟩]) ∨
    ∃ url t', t = ⟨.ensureTableUri raw, .ok url⟩ :: t' ∧
      isTableUriAllowed url.asStr srv.allowedTablePrefixes = true ∧ ∀ x ∈ t', x.1.OnlyOn url

/-- An RPC whose every run, also one cut short, is confined, and which answers
PERMISSION_DENIED, without any other call, for a URL that the allowlist does not admit. -/
structure ConfinedRpc (srv : DeltaTxnGrpcServer) (raw : String)
    (rpc : Prog Op Ans (Except Status α)) : Prop where
  confined : ∀ t q, rpc.Runs t q → Confined srv raw t
  denied : ∀ t a url, rpc.Completes t a → ⟨.ensureTableUri raw, .ok url⟩ ∈ t →
    isTableUriAllowed url.asStr srv.allowedTablePrefixes = false →
      t = [⟨.ensureTableUri raw, .ok url⟩] ∧ ∃ st, a = .error st ∧ st.code = .permissionDenied

theorem checkTableUriAllowed_of_allowed {uri : String}
    (h : isTableUriAllowed uri srv.allowedTablePrefixes = true) :
    checkTableUriAllowed srv uri = .ok () := by
  unfold checkTableUriAllowed
  rw [if_pos h]

theorem checkTableUriAllowed_of_not {uri : String}
    (h : isTableUriAllowed uri srv.allowedTablePrefixes = false) :
    ∃ st, checkTableUriAllowed srv uri = .error st ∧ st.code = .permissionDenied := by
  unfold checkTableUriAllowed
  rw [h]
  exact ⟨_, rfl, rfl⟩

theorem guarded_runs_confined {raw : String} {body : Url → Eff Status α}
    (hbody : ∀ url, (body url).run.All (Op.OnlyOn url) fun _ => True) {t : List Call}
    {q : Prog Op Ans (Except Status α)}
    (h : (normalizeAndCheckTableUri srv raw >>= body).run.Runs t q) : Confined srv raw t := by
  rw [guarded_run] at h
  cases hraw : checkRawTableUri srv raw with
  | error st =>
    rw [hraw] at h
    exact Or.inl (Prog.runs_ret h)
  | ok x =>
    rw [hraw] at h
    rcases Prog.runs_op h with rfl | ⟨b, t', rfl, hrest⟩
    · exact Or.inl rfl
    cases b with
    | error e =>
      obtain rfl := Prog.runs_ret hrest
      exact Or.inr (Or.inl ⟨_, rfl⟩)
    | ok url =>
      unfold guardedRest at hrest
      cases hurl : isTableUriAllowed url.asStr srv.allowedTablePrefixes with
      | true =>
        simp only [checkTableUriAllowed_of_allowed hurl] at hrest
        exact Or.inr (Or.inr ⟨url, t', rfl, hurl, (hbody url).runs hrest⟩)
      | false =>
        obtain ⟨st, hst, -⟩ := checkTableUriAllowed_of_not hurl
        simp only [hst] at hrest
        obtain rfl := Prog.runs_ret hrest
        exact Or.inr (Or.inl ⟨_, rfl⟩)

/-- **Every guarded handler is confined**, if its body keeps to the URL it gets. -/
theorem guarded_confined {raw : String} {body : Url → Eff Status α}
    (hbody : ∀ url, (body url).run.All (Op.OnlyOn url) fun _ => True) :
    ConfinedRpc srv raw (normalizeAndCheckTableUri srv raw >>= body).run where
  confined _ _ h := guarded_runs_confined hbody h
  denied := by
    intro t a url h hmem hurl
    have honly : t = [⟨.ensureTableUri raw, .ok url⟩] := by
      -- a body that has run was for a URL that is allowed
      rcases guarded_runs_confined hbody h with rfl | ⟨b, rfl⟩ | ⟨u, t', rfl, hu, hon⟩
      · simp at hmem
      · rw [List.mem_singleton.1 hmem]
      · rcases List.mem_cons.1 hmem with heq | hmem
        · cases heq
          rw [hurl] at hu
          cases hu
        · exact absurd (hon _ hmem) (by simp [Op.OnlyOn])
    refine ⟨honly, ?_⟩
    subst honly
    rw [guarded_run] at h
    cases hraw : checkRawTableUri srv raw with
    | error st =>
      rw [hraw] at h
      obtain ⟨ht, -⟩ := Prog.completes_ret.1 h
      cases ht
    | ok x =>
      rw [hraw] at h
      obtain ⟨b, t', ht, hrest⟩ := Prog.completes_op.1 h
      cases ht
      obtain ⟨st, hst, hcode⟩ := checkTableUriAllowed_of_not hurl
      simp only [guardedRest, hst] at hrest
      obtain ⟨-, rfl⟩ := Prog.completes_ret.1 hrest
      exact ⟨st, rfl, hcode⟩

/-- **The allowlist confines all storage access**, in each of the three RPCs, on every path and
whatever `ensure_table_uri` answers. -/
theorem allowlist_confines (cr : Crates) (srv : DeltaTxnGrpcServer) :
    (∀ r : Pb.CommitRequest, ConfinedRpc srv r.tableUri (commit cr srv r).run) ∧
    (∀ r : Pb.GetTableRequest, ConfinedRpc srv r.tableUri (getTable cr srv r).run) ∧
    (∀ r : Pb.ListActiveFilesRequest,
      ConfinedRpc srv r.tableUri (listActiveFilesAndStream cr srv r).run) := by
  refine ⟨fun r => ?_, fun r => ?_, fun r => ?_⟩
  · rw [commit_eq]
    exact guarded_confined commitChecked_onlyOn
  · rw [getTable_eq]
    exact guarded_confined getTableChecked_onlyOn
  · rw [listActiveFilesAndStream_eq]
    exact guarded_confined streamTask_onlyOn

/-! ## The check of the raw string -/

/-- What the check of the raw string does in an RPC. With an explicit scheme, a string that the
allowlist does not admit is denied before any call. Without one the check is skipped,
`ensure_table_uri` comes first, and the allowlist is consulted on the URL that it answers. -/
structure RawChecked (srv : DeltaTxnGrpcServer) (raw : String)
    (rpc : Prog Op Ans (Except Status α)) : Prop where
  denied : Str.contains raw "://" = true →
    isTableUriAllowed raw srv.allowedTablePrefixes = false →
      (∀ t q, rpc.Runs t q → t = []) ∧
        ∀ t a, rpc.Completes t a → ∃ st, a = .error st ∧ st.code = .permissionDenied
  skipped : Str.contains raw "://" = false → ∀ t a, rpc.Completes t a →
    ∃ b t', t = ⟨.ensureTableUri raw, b⟩ :: t' ∧ ∀ url, b = .ok url →
      isTableUriAllowed url.asStr srv.allowedTablePrefixes = false →
        t' = [] ∧ ∃ st, a = .error st ∧ st.code = .permissionDenied

theorem guarded_rawChecked {raw : String} {body : Url → Eff Status α} :
    RawChecked srv raw (normalizeAndCheckTableUri srv raw >>= body).run where
  denied := by
    intro hscheme hraw
    obtain ⟨st, hst, hcode⟩ := checkTableUriAllowed_of_not hraw
    have hcheck : checkRawTableUri srv raw = .error st := by
      unfold checkRawTableUri
      rw [if_pos hscheme]
      exact hst
    rw [guarded_run, hcheck]
    refine ⟨fun t q h => Prog.runs_ret h, fun t a h => ?_⟩
    obtain ⟨-, rfl⟩ := Prog.completes_ret.1 h
    exact ⟨st, rfl, hcode⟩
  skipped := by
    intro hscheme t a h
    have hcheck : checkRawTableUri srv raw = .ok () := by
      unfold checkRawTableUri
      rw [hscheme]
      rfl
    rw [guarded_run, hcheck] at h
    obtain ⟨b, t', rfl, hrest⟩ := Prog.completes_op.1 h
    refine ⟨b, t', rfl, fun url hb hurl => ?_⟩
    cases hb
    obtain ⟨st, hst, hcode⟩ := checkTableUriAllowed_of_not hurl
    simp only [guardedRest, hst] at hrest
    obtain ⟨rfl, rfl⟩ := Prog.completes_ret.1 hrest
    exact ⟨rfl, st, rfl, hcode⟩

/-- **What a denied request has done**: nothing at all, if its table_uri has an explicit scheme
and is not itself in the allowlist; without a scheme, `ensure_table_uri` alone. -/
theorem allowlist_raw_check (cr : Crates) (srv : DeltaTxnGrpcServer) :
    (∀ r : Pb.CommitRequest, RawChecked srv r.tableUri (commit cr srv r).run) ∧
    (∀ r : Pb.GetTableRequest, RawChecked srv r.tableUri (getTable cr srv r).run) ∧
    (∀ r : Pb.ListActiveFilesRequest, RawChecked srv r.tableUri (listActiveFiles cr srv r).run) :=
  ⟨fun _ => guarded_rawChecked, fun _ => guarded_rawChecked, fun _ => guarded_rawChecked⟩

/-- The allowlist of the example: one directory. -/
def oneDirectory : DeltaTxnGrpcServer := ⟨∅, some ["file:///srv/tables"]⟩

/-- A Commit for a bare path outside of it. -/
def outsideRequest : Pb.CommitRequest := ⟨"/srv/other", none, []⟩

/-- **A denied request can have run `ensure_table_uri`**: for a bare path, the check comes only
after it. -/
theorem denied_after_ensureTableUri :
    ¬ ∀ t st, (commit raceCrates oneDirectory outsideRequest).run.Completes t (.error st) →
      st.code = .permissionDenied → ∀ b, ⟨.ensureTableUri "/srv/other", b⟩ ∉ t := by
  intro h
  have hscheme : Str.contains "/srv/other" "://" = false := by decide +kernel
  have hcheck : checkRawTableUri oneDirectory "/srv/other" = .ok () := by
    unfold checkRawTableUri
    rw [hscheme]
    rfl
  have hurl : isTableUriAllowed "file:///srv/other/" oneDirectory.allowedTablePrefixes = false := by
    decide
  obtain ⟨st, hst, hcode⟩ := checkTableUriAllowed_of_not hurl
  refine h [⟨.ensureTableUri "/srv/other", .ok ⟨"file:///srv/other/"⟩⟩] st ?_ hcode
    (.ok ⟨"file:///srv/other/"⟩) (List.mem_singleton.2 rfl)
  unfold commit
  rw [guarded_run, show outsideRequest.tableUri = "/srv/other" from rfl, hcheck]
  refine Prog.completes_op.2 ⟨_, [], rfl, ?_⟩
  simp only [guardedRest, hst]
  exact Prog.completes_ret.2 ⟨rfl, rfl⟩

end DeltaTxn
