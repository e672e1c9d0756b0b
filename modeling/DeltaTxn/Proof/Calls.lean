import DeltaTxn.Spec.Deployment

/-!
# Which calls a handler makes

Whatever a handler is answered, once its `table_uri` is checked it only calls with the URL it was
given, the storage options of its server, and, if it is a Commit, its mapped actions.

* `guarded_run`: a handler, with its two checks in the open.
* `Op.Serves`: such a call.
* `commitChecked_serves`, `getTableChecked_reads`, `streamTask_reads`: the three handlers.
* `Rpc.program_calls`, `Rpc.program_writesOnce`: the calls of a request of any of the three RPCs.
-/

namespace DeltaTxn

open Conc

variable {cr : Crates} {srv : DeltaTxnGrpcServer} {url : Url}
  {toWrite : Option (List Kernel.Action)} {actions : List Kernel.Action} {α : Type}

/-! ## A handler and its checks -/

/-- What follows the call of `ensure_table_uri`. -/
def guardedRest (srv : DeltaTxnGrpcServer) (body : Url → Eff Status α) :
    Except DeltaTableError Url → Prog Op Ans (Except Status α)
  | .error e => .ret (.error (.invalidArgument e.text))
  | .ok url =>
    match checkTableUriAllowed srv url.asStr with
    | .error st => .ret (.error st)
    | .ok () => (body url).run

/-- **A guarded handler**: the raw check, `ensure_table_uri`, the check of the URL, the rest. -/
theorem guarded_run (raw : String) (body : Url → Eff Status α) :
    (normalizeAndCheckTableUri srv raw >>= body).run =
      match checkRawTableUri srv raw with
      | .error st => .ret (.error st)
      | .ok () => .op (.ensureTableUri raw) (guardedRest srv body) := by
  unfold normalizeAndCheckTableUri
  cases checkRawTableUri srv raw with
  | error st => rfl
  | ok x =>
    refine congrArg (Prog.op (Op.ensureTableUri raw)) (funext fun b => ?_)
    cases b with
    | error e => rfl
    | ok url =>
      change ((liftM (checkTableUriAllowed srv url.asStr) >>= fun _ => pure url) >>= body :
        Eff Status α).run = match checkTableUriAllowed srv url.asStr with
          | .error st => .ret (.error st)
          | .ok () => (body url).run
      cases checkTableUriAllowed srv url.asStr <;> rfl

/-- What `commit` does once its `table_uri` is checked. -/
def commitChecked (cr : Crates) (srv : DeltaTxnGrpcServer) (r : Pb.CommitRequest) (url : Url) :
    Eff Status Pb.CommitResponse := do
  let actions ← (mapActions cr r.actions).mapError Status.invalidArgument
  let lock ← perform (.lockFor url.asStr)
  perform (.lock lock)
  commitLocked srv r url actions

/-- What `get_table` does once its `table_uri` is checked. -/
def getTableChecked (cr : Crates) (srv : DeltaTxnGrpcServer) (url : Url) :
    Eff Status Pb.GetTableResponse := do
  let (snapshot, metadata, protocol) ← readTable cr srv url
  return { version := snapshot.version.toInt64, metadata := some metadata, protocol := some protocol }

/-- ListActiveFiles with the task it spawns. -/
def listActiveFilesAndStream (cr : Crates) (srv : DeltaTxnGrpcServer) (r : Pb.ListActiveFilesRequest) :
    Eff Status Unit := do
  let task ← listActiveFiles cr srv r
  task

theorem commit_eq (r : Pb.CommitRequest) :
    commit cr srv r = normalizeAndCheckTableUri srv r.tableUri >>= commitChecked cr srv r :=
  rfl

theorem getTable_eq (r : Pb.GetTableRequest) :
    getTable cr srv r = normalizeAndCheckTableUri srv r.tableUri >>= getTableChecked cr srv :=
  rfl

theorem listActiveFilesAndStream_eq (r : Pb.ListActiveFilesRequest) :
    listActiveFilesAndStream cr srv r =
      normalizeAndCheckTableUri srv r.tableUri >>= fun url => liftM (streamActiveFiles cr srv url) := by
  unfold listActiveFilesAndStream listActiveFiles
  rw [bind_assoc]
  rfl

/-! ## The calls -/

/-- The call serves a request on the table at `url`, which means to write `toWrite`, if anything. -/
def Op.Serves (srv : DeltaTxnGrpcServer) (url : Url) (toWrite : Option (List Kernel.Action)) : Op → Prop
  | .ensureTableUri _ => False
  | .lockFor key => toWrite.isSome = true ∧ key = url.asStr
  | .lock _ => toWrite.isSome = true
  | .buildTable u opts => u = url ∧ opts = srv.storageOpts
  | .isDeltaTableLocation u => u = url
  | .openTable u opts => u = url ∧ opts = srv.storageOpts
  | .commitBuilder u _ acts _ => u = url ∧ toWrite = some acts
  | .send _ => toWrite = none

/-- The call writes to a log. -/
def Op.Writes : Op → Prop
  | .commitBuilder _ _ _ _ => True
  | _ => False

/-- The call takes part in the locking of a table. -/
def Op.Locks : Op → Prop
  | .lockFor _ | .lock _ => True
  | _ => False

/-- The call serves a request, and neither writes nor locks. -/
def Op.Reads (srv : DeltaTxnGrpcServer) (url : Url) (toWrite : Option (List Kernel.Action)) (o : Op) :
    Prop :=
  o.Serves srv url toWrite ∧ ¬ o.Writes ∧ ¬ o.Locks

/-! ## The parts -/

theorem tableExists_reads :
    (tableExists url srv.storageOpts).run.All (Op.Reads srv url toWrite) fun _ => True :=
  Fallible.all_mapErr_bind (Prog.all_call ⟨⟨rfl, rfl⟩, id, id⟩)
    (fun _ _ => Fallible.all_mapErr (Prog.all_call ⟨rfl, id, id⟩) fun _ _ => trivial)
    fun _ => trivial

theorem openTable_reads : (openTable url srv.storageOpts).run.All (Op.Reads srv url toWrite)
    fun r => ∀ t, r = .ok t → t.url = url :=
  Fallible.all_mapErr_bind (Prog.all_call ⟨⟨rfl, rfl⟩, id, id⟩) (fun s _ t ht => by cases ht; rfl)
    fun e t ht => by cases ht

theorem readTable_reads :
    (readTable cr srv url).run.All (Op.Reads srv url toWrite) fun _ => True := by
  refine Fallible.all_mapErr_bind tableExists_reads (fun x _ => ?_) fun _ => trivial
  cases x with
  | false => trivial
  | true =>
    refine Fallible.all_mapErr_bind openTable_reads (fun t _ => ?_) fun _ => trivial
    refine Fallible.all_bind (R := fun _ => True) trivial (fun s _ => ?_) fun _ _ => trivial
    exact Fallible.all_bind (R := fun _ => True) trivial (fun _ _ => trivial) fun _ _ => trivial

/-- The call is a send. -/
def Op.Sends (o : Op) : Prop := ∃ item, o = .send item

theorem Op.Sends.reads {o : Op} (h : o.Sends) : o.Reads srv url none := by
  obtain ⟨item, rfl⟩ := h
  exact ⟨rfl, id, id⟩

theorem streamFiles_sends : ∀ views batch,
    (streamFiles cr views batch).run.All Op.Sends fun _ => True
  | [], batch => by
    unfold streamFiles
    split
    · exact ⟨⟨_, rfl⟩, fun _ => trivial⟩
    · trivial
  | .error e :: _, _ => trivial
  | .ok view :: rest, batch => by
    unfold streamFiles
    simp only
    split
    · -- a full batch; the loop ends here if the client is gone
      refine ⟨⟨_, rfl⟩, fun b => ?_⟩
      cases b with
      | error e => trivial
      | ok u => exact streamFiles_sends rest []
    · exact streamFiles_sends rest _

theorem streamActiveFiles_reads :
    (streamActiveFiles cr srv url).All (Op.Reads srv url none) fun _ => True := by
  have hinner : (streamActiveFilesInner cr srv url).run.All (Op.Reads srv url none)
      fun _ => True := by
    refine Fallible.all_bind readTable_reads (fun x _ => ?_) fun _ _ => trivial
    refine ⟨⟨rfl, id, id⟩, fun b => ?_⟩
    cases b with
    | error e => trivial
    | ok u => exact (streamFiles_sends _ _).mono (fun _ h => h.reads) fun _ h => h
  refine Prog.all_bind hinner fun r _ => ?_
  cases r with
  | error st => exact ⟨⟨rfl, id, id⟩, fun _ => trivial⟩
  | ok u => trivial

/-! ## Commit -/

/-- The call serves the Commit of `actions`, and does not lock. -/
abbrev Op.Commits (srv : DeltaTxnGrpcServer) (url : Url) (actions : List Kernel.Action) (o : Op) :
    Prop :=
  o.Serves srv url (some actions) ∧ ¬ o.Locks

theorem Op.Reads.commits {o : Op} (h : o.Reads srv url (some actions)) : o.Commits srv url actions :=
  ⟨h.1, h.2.2⟩

theorem commitActions_commits {t : DeltaTable} (ht : t.url = url) :
    (commitActions t actions).run.All (Op.Commits srv url actions) fun _ => True :=
  Fallible.all_bind (R := fun _ => True) trivial
    (fun _ _ => Fallible.all_mapErr_bind (Prog.all_call ⟨⟨ht, rfl⟩, id⟩) (fun _ _ => trivial)
      fun _ => trivial)
    fun _ _ => trivial

theorem createTable_commits {p : Kernel.Protocol} {m : Kernel.Metadata} :
    (createTable url srv.storageOpts actions p m).run.All (Op.Commits srv url actions)
      fun _ => True := by
  refine Fallible.all_mapErr_bind (Prog.all_call ⟨⟨rfl, rfl⟩, id⟩) (fun _ _ => ?_) fun _ => trivial
  refine Fallible.all_mapErr_bind (Prog.all_call ⟨⟨rfl, rfl⟩, id⟩) (fun n _ => ?_) fun _ => trivial
  simp only
  split <;> trivial

theorem commitLocked_commits {r : Pb.CommitRequest} :
    (commitLocked srv r url actions).run.All (Op.Commits srv url actions) fun _ => True := by
  refine Fallible.all_mapErr_bind (tableExists_reads.mono (fun _ => Op.Reads.commits) fun _ h => h)
    (fun x _ => ?_) fun _ => trivial
  cases x with
  | true =>
    refine Fallible.all_mapErr_bind (openTable_reads.mono (fun _ => Op.Reads.commits) fun _ h => h)
      (fun t ht => ?_) fun _ => trivial
    refine Fallible.all_bind (R := fun _ => True) trivial (fun _ _ => ?_) fun _ _ => trivial
    exact Fallible.all_mapErr_bind (commitActions_commits (ht t rfl)) (fun _ _ => trivial)
      fun _ => trivial
  | false =>
    simp only [Bool.false_eq_true, if_false]
    unfold commitCreate
    split
    · trivial
    split
    · exact Fallible.all_mapErr_bind createTable_commits (fun _ _ => trivial) fun _ => trivial
    · trivial

/-! ## One write -/

theorem commitActions_writesOnce (t : DeltaTable) :
    (commitActions t actions).run.AtMost Op.Writes (0 + (1 + 0)) :=
  Fallible.atMost_bind (m := 0) trivial fun _ =>
    Fallible.atMost_bind (Fallible.atMost_mapErr (Prog.atMost_call _)) fun _ => trivial

theorem createTable_writesOnce (opts : HashMap String) (p : Kernel.Protocol)
    (m : Kernel.Metadata) :
    (createTable url opts actions p m).run.AtMost Op.Writes (0 + (1 + 0)) := by
  refine Fallible.atMost_bind (Fallible.atMost_mapErr (.of_all (Prog.all_call id))) fun _ => ?_
  refine Fallible.atMost_bind (Fallible.atMost_mapErr (Prog.atMost_call _)) fun n => ?_
  simp only
  split <;> trivial

theorem commitLocked_writesOnce (r : Pb.CommitRequest) :
    (commitLocked srv r url actions).run.AtMost Op.Writes 1 := by
  have hexists : (tableExists url srv.storageOpts).run.All (Op.Reads srv url none) fun _ => True :=
    tableExists_reads
  have hopen : (openTable url srv.storageOpts).run.All (Op.Reads srv url none)
      fun r => ∀ t, r = .ok t → t.url = url := openTable_reads
  -- what comes before the two paths does not write
  replace hexists := Prog.AtMost.of_all (n := 0) (hexists.mono (fun _ h => h.2.1) fun _ h => h)
  replace hopen := Prog.AtMost.of_all (n := 0) (hopen.mono (fun _ h => h.2.1) fun _ h => h)
  refine Fallible.atMost_bind (m := 0) (n := 1) (Fallible.atMost_mapErr hexists) fun x => ?_
  cases x with
  | true =>
    refine Fallible.atMost_bind (m := 0) (n := 1) (Fallible.atMost_mapErr hopen) fun t => ?_
    refine Fallible.atMost_bind (m := 0) (n := 1) trivial fun _ => ?_
    refine Fallible.atMost_bind (m := 1) (n := 0) ?_ fun _ => trivial
    exact Fallible.atMost_mapErr (commitActions_writesOnce t)
  | false =>
    simp only [Bool.false_eq_true, if_false]
    unfold commitCreate
    split
    · trivial
    split
    · refine Fallible.atMost_bind (m := 1) (n := 0) ?_ fun _ => trivial
      exact Fallible.atMost_mapErr (createTable_writesOnce _ _ _)
    · trivial

/-! ## The handlers -/

theorem commitChecked_serves {r : Pb.CommitRequest} (hmap : mapActions cr r.actions = .ok actions)
    (url : Url) :
    (commitChecked cr srv r url).run.All (Op.Serves srv url (some actions)) fun _ => True := by
  unfold commitChecked
  rw [hmap]
  refine ⟨⟨rfl, rfl⟩, fun lock => ⟨rfl, fun _ => ?_⟩⟩
  exact commitLocked_commits.mono (fun _ h => h.1) fun _ _ => trivial

/-- A Commit whose actions cannot be mapped makes no call. -/
theorem commitChecked_error {r : Pb.CommitRequest} {e : String}
    (hmap : mapActions cr r.actions = .error e) (url : Url) :
    (commitChecked cr srv r url).run = .ret (.error (.invalidArgument e)) := by
  unfold commitChecked
  rw [hmap]
  rfl

theorem commitChecked_writesOnce (r : Pb.CommitRequest) (url : Url) :
    (commitChecked cr srv r url).run.AtMost Op.Writes 1 := by
  cases hmap : mapActions cr r.actions with
  | error e =>
    rw [commitChecked_error hmap]
    trivial
  | ok actions =>
    unfold commitChecked
    rw [hmap]
    exact Or.inl ⟨id, fun lock => Or.inl ⟨id, fun _ => commitLocked_writesOnce r⟩⟩

theorem getTableChecked_reads (url : Url) :
    (getTableChecked cr srv url).run.All (Op.Reads srv url none) fun _ => True := by
  unfold getTableChecked
  exact Fallible.all_bind readTable_reads (fun _ _ => trivial) fun _ _ => trivial

theorem streamTask_reads (url : Url) :
    (liftM (streamActiveFiles cr srv url) : Eff Status Unit).run.All (Op.Reads srv url none)
      fun _ => True :=
  Prog.all_bind streamActiveFiles_reads fun _ _ => trivial

/-! ## The requests -/

/-- The actions that a request writes, if it writes any. -/
def Rpc.mapped (cr : Crates) : Rpc → Option (List Kernel.Action)
  | commit r => (mapActions cr r.actions).toOption
  | getTable _ | listActiveFiles _ => none

/-- **Every request is a guarded handler**, whose body serves the request at the URL it gets and
writes at most once. -/
theorem Rpc.program_guarded (cr : Crates) (srv : DeltaTxnGrpcServer) (rpc : Rpc) :
    ∃ (β : Type) (f : Except Status β → Reply) (body : Url → Eff Status β),
      rpc.program cr srv = f <$> (normalizeAndCheckTableUri srv rpc.tableUri >>= body).run ∧
      (∀ url, (body url).run.All (Op.Serves srv url (rpc.mapped cr)) fun _ => True) ∧
      ∀ url, (body url).run.AtMost Op.Writes 1 := by
  cases rpc with
  | commit r =>
    refine ⟨_, .commit, commitChecked cr srv r, rfl, fun url => ?_, commitChecked_writesOnce r⟩
    cases hmap : mapActions cr r.actions with
    | error e =>
      rw [commitChecked_error hmap]
      trivial
    | ok actions =>
      have hserves : (commitChecked cr srv r url).run.All (Op.Serves srv url (some actions))
          fun _ => True := commitChecked_serves hmap url
      have hsome : (Rpc.commit r).mapped cr = some actions := by
        change (mapActions cr r.actions).toOption = some actions
        rw [hmap]
        rfl
      rwa [hsome]
  | getTable r =>
    refine ⟨_, .getTable, getTableChecked cr srv, rfl, fun url => ?_, fun url => ?_⟩
    · exact (getTableChecked_reads url).mono (fun _ h => h.1) fun _ h => h
    · exact .of_all ((getTableChecked_reads url).mono (fun _ h => h.2.1) fun _ h => h)
  | listActiveFiles r =>
    refine ⟨_, .listActiveFiles, fun url => liftM (streamActiveFiles cr srv url), ?_,
      fun url => ?_, fun url => ?_⟩
    · exact congrArg (fun x : Eff Status Unit => Reply.listActiveFiles <$> x.run)
        (listActiveFilesAndStream_eq r)
    · exact (streamTask_reads url).mono (fun _ h => h.1) fun _ h => h
    · exact .of_all ((streamTask_reads url).mono (fun _ h => h.2.1) fun _ h => h)

variable {rpc : Rpc} {t : List Call} {x : Call}

/-- **A run of a guarded handler**, also one cut short: it has not got past the checks, or it is in
the body, with a URL that the allowlist admits. -/
theorem guarded_parts {β : Type} {raw : String} {body : Url → Eff Status β}
    {q : Prog Op Ans (Except Status β)}
    (h : (normalizeAndCheckTableUri srv raw >>= body).run.Runs t q) :
    ((∀ x ∈ t, ∃ b, x = ⟨.ensureTableUri raw, b⟩) ∧ ∀ a, q ≠ .ret (.ok a)) ∨
      ∃ url t', t = ⟨.ensureTableUri raw, .ok url⟩ :: t' ∧
        isTableUriAllowed url.asStr srv.allowedTablePrefixes = true ∧
        (body url).run.Runs t' q := by
  rw [guarded_run] at h
  split at h
  · -- refused as it came, without any call
    obtain rfl := Prog.runs_ret h
    cases h
    exact Or.inl ⟨fun x hx => absurd hx List.not_mem_nil, fun a ha => by cases ha⟩
  rcases Prog.runs_op h with rfl | ⟨b, t', rfl, hrest⟩
  · cases h
    exact Or.inl ⟨fun x hx => absurd hx List.not_mem_nil, fun a ha => by cases ha⟩
  cases b with
  | error e =>
    obtain rfl := Prog.runs_ret hrest
    cases hrest
    exact Or.inl ⟨fun x hx => ⟨_, List.mem_singleton.1 hx⟩, fun a ha => by cases ha⟩
  | ok url =>
    unfold guardedRest at hrest
    simp only at hrest
    split at hrest
    · -- the URL that it stands for is not allowed
      obtain rfl := Prog.runs_ret hrest
      cases hrest
      exact Or.inl ⟨fun x hx => ⟨_, List.mem_singleton.1 hx⟩, fun a ha => by cases ha⟩
    · rename_i hcheck
      refine Or.inr ⟨url, t', rfl, ?_, hrest⟩
      unfold checkTableUriAllowed at hcheck
      by_contra hnot
      rw [if_neg hnot] at hcheck
      cases hcheck

/-- **The calls of a request**, in any run, also one cut short: `ensure_table_uri`, and then calls
that serve it at the URL that was answered, which the allowlist admits. -/
theorem Rpc.program_calls {q : Prog Op Ans Reply} (h : (rpc.program cr srv).Runs t q) (hx : x ∈ t) :
    (∃ b, x = ⟨.ensureTableUri rpc.tableUri, b⟩) ∨
      ∃ url, ⟨.ensureTableUri rpc.tableUri, .ok url⟩ ∈ t ∧
        isTableUriAllowed url.asStr srv.allowedTablePrefixes = true ∧
        x.1.Serves srv url (rpc.mapped cr) := by
  obtain ⟨β, f, body, hprog, hserves, -⟩ := rpc.program_guarded cr srv
  rw [hprog] at h
  obtain ⟨q', h, -⟩ := Prog.runs_map h
  rcases guarded_parts h with ⟨hall, -⟩ | ⟨url, t', rfl, hallowed, hrest⟩
  · exact Or.inl (hall x hx)
  rcases List.mem_cons.1 hx with rfl | hmem
  · exact Or.inl ⟨_, rfl⟩
  · exact Or.inr ⟨url, List.mem_cons_self, hallowed, (hserves url).runs hrest x hmem⟩

/-- A request that means to write sends nothing. -/
theorem Op.Serves.not_sends {o : Op} (h : o.Serves srv url (some actions)) : ¬ o.Sends := by
  rintro ⟨item, rfl⟩
  cases h

/-- A guarded handler whose body sends nothing sends nothing. -/
theorem guarded_not_sends {β : Type} {raw : String} {body : Url → Eff Status β}
    {q : Prog Op Ans (Except Status β)}
    (hbody : ∀ url, (body url).run.All (fun o => ¬ o.Sends) fun _ => True)
    (h : (normalizeAndCheckTableUri srv raw >>= body).run.Runs t q) (hx : x ∈ t) : ¬ x.1.Sends := by
  have hfirst : ∀ b, ¬ (⟨.ensureTableUri raw, b⟩ : Call).1.Sends := by
    rintro b ⟨item, hitem⟩
    cases hitem
  rcases guarded_parts h with ⟨hall, -⟩ | ⟨url, t', rfl, -, hrest⟩
  · obtain ⟨b, rfl⟩ := hall x hx
    exact hfirst b
  · rcases List.mem_cons.1 hx with rfl | hmem
    · exact hfirst _
    · exact (hbody url).runs hrest x hmem

/-- Only a ListActiveFiles sends. -/
theorem Rpc.program_sends {q : Prog Op Ans Reply} (h : (rpc.program cr srv).Runs t q) (hx : x ∈ t)
    (hsend : x.1.Sends) : ∃ r, rpc = .listActiveFiles r := by
  cases rpc with
  | commit r =>
    have hbody : ∀ url, (commitChecked cr srv r url).run.All (fun o => ¬ o.Sends) fun _ => True := by
      intro url
      cases hmap : mapActions cr r.actions with
      | error e =>
        rw [commitChecked_error hmap]
        trivial
      | ok actions => exact (commitChecked_serves hmap url).mono (fun _ h => h.not_sends) fun _ h => h
    obtain ⟨q', h, -⟩ := Prog.runs_map h
    exact absurd hsend (guarded_not_sends hbody h hx)
  | getTable r =>
    have hbody : ∀ url, (getTableChecked cr srv url).run.All (fun o => ¬ o.Sends) fun _ => True := by
      intro url
      have hreads : (readTable cr srv url).run.All (Op.Reads srv url (some [])) fun _ => True :=
        readTable_reads
      unfold getTableChecked
      exact Fallible.all_bind (hreads.mono (fun _ ho => ho.1.not_sends) fun _ h => h)
        (fun _ _ => trivial) fun _ _ => trivial
    obtain ⟨q', h, -⟩ := Prog.runs_map h
    exact absurd hsend (guarded_not_sends hbody h hx)
  | listActiveFiles r => exact ⟨r, rfl⟩

/-- A request writes at most once. -/
theorem Rpc.program_writesOnce (cr : Crates) (srv : DeltaTxnGrpcServer) (rpc : Rpc) :
    (rpc.program cr srv).AtMost Op.Writes 1 := by
  obtain ⟨β, f, body, hprog, -, honce⟩ := rpc.program_guarded cr srv
  rw [hprog]
  refine Prog.AtMost.map ?_
  rw [guarded_run]
  split
  · trivial
  refine Or.inl ⟨id, fun b => ?_⟩
  cases b with
  | error e => trivial
  | ok url =>
    unfold guardedRest
    simp only
    split
    · trivial
    · exact honce url

end DeltaTxn
