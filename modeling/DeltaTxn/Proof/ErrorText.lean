import DeltaTxn.Conc.Sim
import DeltaTxn.Proof.Allowlist

/-!
# The text of a storage error stays inside

Two runs of an RPC whose calls are answered alike, but for the texts of the errors. Everywhere
an error of delta-rs is turned into a status, its kind decides and its text is dropped, with one
exception: the text of an `ensure_table_uri` error is the message of the status.

* `Call.Alike`: calls answered alike but for the text of an error.
* `commitLocked_sim`, `readTable_sim`, `streamActiveFiles_sim`: the handlers after their checks.
* `error_text_hidden_iff`: when the client gets the same in both runs.
-/

namespace DeltaTxn

open Conc
open Conc.Prog (Sim mapErr)

/-! ## Alike but for the text of an error -/

/-- Two errors that differ in their text only. -/
def SameKind (e e' : DeltaTableError) : Prop := e.kind = e'.kind

/-- The same answer, or errors of one kind. -/
abbrev AlikeAnswer {α : Type} : Except DeltaTableError α → Except DeltaTableError α → Prop :=
  ExceptRel SameKind Eq

/-- Snapshots of the same table. Their file streams fail at the same place, if they fail. -/
structure DeltaTableState.Alike (s s' : DeltaTableState) : Prop where
  version : s.version = s'.version
  metadata : s.metadata = s'.metadata
  protocol : s.protocol = s'.protocol
  fileViews : List.Forall₂ AlikeAnswer s.fileViews s'.fileViews

/-- The operations match: they are the same, but for the number of a `TableLock`. -/
inductive Op.Alike : Op → Op → Prop
  | refl (o : Op) : Alike o o
  | lock (h h' : ℕ) : Alike (.lock h) (.lock h')

/-- **The calls are answered alike**, but for the texts of the errors. The client of a stream
goes away at the same place. -/
inductive Call.Alike : Call → Call → Prop
  | ensureTableUri (raw : String) {b b' : Except DeltaTableError Url} (h : AlikeAnswer b b') :
      Alike ⟨.ensureTableUri raw, b⟩ ⟨.ensureTableUri raw, b'⟩
  | lockFor (key : String) (h h' : ℕ) : Alike ⟨.lockFor key, h⟩ ⟨.lockFor key, h'⟩
  | lock (h h' : ℕ) : Alike ⟨.lock h, ()⟩ ⟨.lock h', ()⟩
  | buildTable (url : Url) (opts : HashMap String) {b b' : Except DeltaTableError Unit}
      (h : AlikeAnswer b b') : Alike ⟨.buildTable url opts, b⟩ ⟨.buildTable url opts, b'⟩
  | isDeltaTableLocation (url : Url) {b b' : Except DeltaTableError Bool} (h : AlikeAnswer b b') :
      Alike ⟨.isDeltaTableLocation url, b⟩ ⟨.isDeltaTableLocation url, b'⟩
  | openTable (url : Url) (opts : HashMap String)
      {b b' : Except DeltaTableError (Except DeltaTableError DeltaTableState)}
      (h : ExceptRel SameKind (ExceptRel SameKind DeltaTableState.Alike) b b') :
      Alike ⟨.openTable url opts, b⟩ ⟨.openTable url opts, b'⟩
  | commitBuilder (url : Url) (base : Option Version) (actions : List Kernel.Action)
      (operation : DeltaOperation) {b b' : Except DeltaTableError Version} (h : AlikeAnswer b b') :
      Alike ⟨.commitBuilder url base actions operation, b⟩
        ⟨.commitBuilder url base actions operation, b'⟩
  | send (item : StreamItem) (b : Except Unit Unit) : Alike ⟨.send item, b⟩ ⟨.send item, b⟩

/-- How two runs of an RPC are compared. -/
def butText : Matching Op Ans := ⟨Op.Alike, Call.Alike⟩

/-- The third-party functions are the same, but for the texts of the errors about a schema. -/
structure Crates.Alike (cr cr' : Crates) : Prop where
  same : cr' = { cr with parseSchema := cr'.parseSchema, schemaToString := cr'.schemaToString }
  parseSchema : ∀ s, ExceptRel (fun _ _ => True) Eq (cr.parseSchema s) (cr'.parseSchema s)
  schemaToString : ∀ schema,
    ExceptRel (fun _ _ => True) Eq (cr.schemaToString schema) (cr'.schemaToString schema)

/-- What two runs of an RPC are told is the same. -/
abbrev SimRpc {α : Type} (x x' : Eff Status α) : Prop := Sim butText (ExceptRel Eq Eq) x.run x'.run

/-- Errors that become the same status. -/
def SameStatus (e e' : DeltaTxnError) : Prop := e.toStatus = e'.toStatus

/-! ## Opening and committing -/

variable {cr cr' : Crates} {srv : DeltaTxnGrpcServer} {url : Url} {opts : HashMap String}
  {actions : List Kernel.Action}

/-- One call with alike answers. -/
theorem call_sim (o : Op) {P : Ans o → Ans o → Prop}
    (h : ∀ b b', Call.Alike ⟨o, b⟩ ⟨o, b'⟩ → P b b') : Sim butText P (perform o) (perform o) := by
  have hop : butText.op o o := Op.Alike.refl o
  exact .call hop h

/-- The text of its error is dropped. -/
theorem dropped_sim {α : Type} {P : α → α → Prop} (f : DeltaTableError → DeltaTxnError)
    (hf : ∀ e e', SameStatus (f e) (f e')) {p : Prog Op Ans (Except DeltaTableError α)}
    (h : Sim butText (ExceptRel SameKind P) p p) :
    Sim butText (ExceptRel SameStatus P) (mapErr f p).run (mapErr f p).run :=
  Fallible.sim_mapErr h fun e e' _ => hf e e'

theorem buildTable_sim :
    Sim butText (ExceptRel SameStatus Eq) (mapErr openFailed (perform (.buildTable url opts))).run
      (mapErr openFailed (perform (.buildTable url opts))).run := by
  refine dropped_sim openFailed (fun _ _ => rfl) (call_sim (.buildTable url opts) fun b b' h => ?_)
  cases h with
  | buildTable _ _ h => exact h

theorem tableExists_sim :
    Sim butText (ExceptRel SameStatus Eq) (tableExists url opts).run (tableExists url opts).run := by
  unfold tableExists
  refine Fallible.sim_bind buildTable_sim ?_
  rintro _ _ -
  refine dropped_sim openFailed (fun _ _ => rfl) (call_sim (.isDeltaTableLocation url) fun b b' h => ?_)
  cases h with
  | isDeltaTableLocation _ h => exact h

/-- The table is the same, and so is its snapshot, or why it has none. -/
structure DeltaTable.Alike (t t' : DeltaTable) : Prop where
  url : t.url = t'.url
  snapshot : ExceptRel SameKind DeltaTableState.Alike t.snapshot t'.snapshot

theorem openTable_sim :
    Sim butText (ExceptRel SameStatus DeltaTable.Alike) (openTable url opts).run
      (openTable url opts).run := by
  unfold openTable
  refine Fallible.sim_bind (P := ExceptRel SameKind DeltaTableState.Alike)
    (dropped_sim openFailed (fun _ _ => rfl) (call_sim (.openTable url opts) fun b b' h => ?_)) ?_
  · cases h with
    | openTable _ _ h => exact h
  · intro s s' hs
    exact Fallible.sim_pure ⟨rfl, hs⟩

/-- A write from the same version, with the same actions. -/
theorem commitBuilder_sim {base : Option Version} {operation : DeltaOperation} :
    Sim butText (ExceptRel SameStatus Eq)
      (mapErr commitFailed (perform (.commitBuilder url base actions operation))).run
      (mapErr commitFailed (perform (.commitBuilder url base actions operation))).run := by
  refine dropped_sim commitFailed (fun _ _ => rfl)
    (call_sim (.commitBuilder url base actions operation) fun b b' h => ?_)
  cases h with
  | commitBuilder _ _ _ _ h => exact h

theorem commitActions_sim {t t' : DeltaTable} (h : t.Alike t') :
    Sim butText (ExceptRel SameStatus Eq) (commitActions t actions).run
      (commitActions t' actions).run := by
  obtain ⟨u, s⟩ := t
  obtain ⟨u', s'⟩ := t'
  obtain ⟨hurl, hs⟩ := h
  cases hurl
  unfold commitActions
  refine Fallible.sim_bind (P := DeltaTableState.Alike) (Fallible.sim_lift ?_) ?_
  · cases hs with
    | error _ => exact .error rfl
    | ok hs => exact .ok hs
  · intro s s' hs
    rw [hs.version]
    refine Fallible.sim_bind commitBuilder_sim ?_
    rintro n _ rfl
    exact Fallible.sim_pure rfl

theorem createTable_sim {p : Kernel.Protocol} {m : Kernel.Metadata} :
    Sim butText (ExceptRel SameStatus Eq) (createTable url opts actions p m).run
      (createTable url opts actions p m).run := by
  unfold createTable
  refine Fallible.sim_bind buildTable_sim ?_
  rintro _ _ -
  refine Fallible.sim_bind commitBuilder_sim ?_
  rintro n _ rfl
  simp only
  split
  · exact .ret (.error rfl)
  · exact Fallible.sim_pure rfl

/-! ## Commit -/

theorem checkExpectedVersion_alike (r : Pb.CommitRequest) {t t' : DeltaTable} (h : t.Alike t') :
    checkExpectedVersion r t = checkExpectedVersion r t' := by
  have hv : t.version = t'.version := by
    obtain ⟨u, s⟩ := t
    obtain ⟨u', s'⟩ := t'
    obtain ⟨-, hs⟩ := h
    cases hs with
    | error _ => rfl
    | ok hs => exact congrArg some hs.version
  unfold checkExpectedVersion
  rw [hv]

/-- Where the error of a part becomes a status. -/
theorem toStatus_sim {α : Type} {P : α → α → Prop} {x x' : Eff DeltaTxnError α}
    (h : Sim butText (ExceptRel SameStatus P) x.run x'.run) :
    Sim butText (ExceptRel Eq P) (mapErr DeltaTxnError.toStatus x.run).run
      (mapErr DeltaTxnError.toStatus x'.run).run :=
  Fallible.sim_mapErr h fun _ _ he => he

theorem commitUpdate_sim {r : Pb.CommitRequest} :
    SimRpc (commitUpdate srv r url actions) (commitUpdate srv r url actions) := by
  unfold commitUpdate
  refine Fallible.sim_bind (toStatus_sim openTable_sim) fun t t' ht => ?_
  rw [checkExpectedVersion_alike r ht]
  refine Fallible.sim_bind (P := Eq) (Fallible.sim_lift (.refl (fun _ => rfl) (fun _ => rfl) _)) ?_
  rintro _ _ -
  refine Fallible.sim_bind (toStatus_sim (commitActions_sim ht)) ?_
  rintro n _ rfl
  exact Fallible.sim_pure rfl

theorem commitCreate_sim {r : Pb.CommitRequest} :
    SimRpc (commitCreate srv r url actions) (commitCreate srv r url actions) := by
  unfold commitCreate
  split
  · exact .ret (.error rfl)
  split
  · refine Fallible.sim_bind (toStatus_sim createTable_sim) ?_
    rintro n _ rfl
    exact Fallible.sim_pure rfl
  · exact .ret (.error rfl)

theorem commitLocked_sim {r : Pb.CommitRequest} :
    SimRpc (commitLocked srv r url actions) (commitLocked srv r url actions) := by
  unfold commitLocked
  refine Fallible.sim_bind (toStatus_sim tableExists_sim) ?_
  rintro x _ rfl
  cases x with
  | true => exact commitUpdate_sim
  | false => exact commitCreate_sim

/-! ## Reading -/

/-- An error that is turned into one and the same status. -/
theorem mapError_const {α ε : Type} {r r' : Except ε α} (h : ExceptRel (fun _ _ => True) Eq r r')
    (st : Status) : r.mapError (fun _ => st) = r'.mapError fun _ => st := by
  cases h with
  | error _ => rfl
  | ok h => rw [h]

theorem buildMetadataAndProtocol_alike (hcr : cr.Alike cr') {s s' : DeltaTableState}
    (hs : s.Alike s') : buildMetadataAndProtocol cr s = buildMetadataAndProtocol cr' s' := by
  have hparse := fun text => mapError_const (hcr.parseSchema text)
  have hser := fun schema => mapError_const (hcr.schemaToString schema)
  unfold buildMetadataAndProtocol
  simp only [hs.metadata, hs.protocol, hparse, hser]

theorem mapOpenOrSnapshotError_alike {e e' : DeltaTableError} (h : SameKind e e') :
    mapOpenOrSnapshotError e = mapOpenOrSnapshotError e' := by
  unfold mapOpenOrSnapshotError
  rw [h]

theorem readTable_sim (hcr : cr.Alike cr') :
    Sim butText (ExceptRel Eq fun x y => x.1.Alike y.1 ∧ x.2 = y.2) (readTable cr srv url).run
      (readTable cr' srv url).run := by
  unfold readTable
  refine Fallible.sim_bind (toStatus_sim tableExists_sim) ?_
  rintro x _ rfl
  cases x with
  | false => exact .ret (.error rfl)
  | true =>
    refine Fallible.sim_bind (toStatus_sim openTable_sim) fun t t' ht => ?_
    refine Fallible.sim_bind (P := DeltaTableState.Alike) (Fallible.sim_lift ?_) fun s s' hs => ?_
    · have hsnap := ht.snapshot
      generalize t.snapshot = a at hsnap
      generalize t'.snapshot = a' at hsnap
      cases hsnap with
      | error he => exact .error (mapOpenOrSnapshotError_alike he)
      | ok hs => exact .ok hs
    · rw [buildMetadataAndProtocol_alike hcr hs]
      refine Fallible.sim_bind (P := Eq) (Fallible.sim_lift (.refl (fun _ => rfl) (fun _ => rfl) _)) ?_
      rintro ⟨m, p⟩ _ rfl
      exact Fallible.sim_pure ⟨hs, rfl⟩

theorem getTableChecked_sim (hcr : cr.Alike cr') (url : Url) :
    SimRpc (getTableChecked cr srv url) (getTableChecked cr' srv url) := by
  unfold getTableChecked
  refine Fallible.sim_bind (readTable_sim hcr) ?_
  rintro ⟨s, m, p⟩ ⟨s', _, _⟩ ⟨hs, hmp⟩
  cases hmp
  exact Fallible.sim_pure (by rw [hs.version])

/-! ## Streaming -/

theorem send_sim (item : StreamItem) :
    Sim butText Eq (perform (.send item)) (perform (.send item)) := by
  refine call_sim (.send item) fun b b' h => ?_
  cases h
  rfl

theorem fileViewToPb_alike (hcr : cr.Alike cr') (v : LogicalFileView) :
    fileViewToPb cr v = fileViewToPb cr' v := by
  rw [hcr.same]
  rfl

theorem streamFiles_sim (hcr : cr.Alike cr')
    {views views' : List (Except DeltaTableError LogicalFileView)}
    (h : List.Forall₂ AlikeAnswer views views') :
    ∀ batch, SimRpc (streamFiles cr views batch) (streamFiles cr' views' batch) := by
  induction h with
  | nil =>
    intro batch
    unfold streamFiles
    split
    · refine Fallible.sim_bind (P := Eq) (Fallible.sim_liftProg (send_sim _)) ?_
      rintro b _ rfl
      exact Fallible.sim_pure rfl
    · exact Fallible.sim_pure rfl
  | @cons x y l l' hxy _ ih =>
    intro batch
    cases hxy with
    | error _ =>
      unfold streamFiles
      exact .ret (.error rfl)
    | @ok v _ h =>
      cases h
      have hv := fileViewToPb_alike hcr v
      unfold streamFiles
      simp only
      generalize fileViewToPb cr v = file at hv ⊢
      generalize fileViewToPb cr' v = file' at hv ⊢
      cases hv
      split
      · refine Fallible.sim_bind (P := Eq) (Fallible.sim_liftProg (send_sim _)) ?_
        rintro b _ rfl
        cases b with
        | error e => exact Fallible.sim_pure rfl
        | ok u => exact ih []
      · exact ih _

theorem streamActiveFilesInner_sim (hcr : cr.Alike cr') :
    SimRpc (streamActiveFilesInner cr srv url) (streamActiveFilesInner cr' srv url) := by
  unfold streamActiveFilesInner
  refine Fallible.sim_bind (readTable_sim hcr) ?_
  rintro ⟨s, m, p⟩ ⟨s', _, _⟩ ⟨hs, hmp⟩
  cases hmp
  have hheader : headerMessage s m p = headerMessage s' m p := by
    unfold headerMessage
    rw [hs.version]
  simp only
  generalize headerMessage s m p = header at hheader ⊢
  generalize headerMessage s' m p = header' at hheader ⊢
  cases hheader
  refine Fallible.sim_bind (P := Eq) (Fallible.sim_liftProg (send_sim _)) ?_
  rintro b _ rfl
  cases b with
  | error e => exact Fallible.sim_pure rfl
  | ok u => exact streamFiles_sim hcr hs.fileViews []

theorem streamActiveFiles_sim (hcr : cr.Alike cr') :
    Sim butText Eq (streamActiveFiles cr srv url) (streamActiveFiles cr' srv url) := by
  unfold streamActiveFiles
  refine (streamActiveFilesInner_sim hcr).bind fun r r' hr => ?_
  cases hr.eq
  cases r with
  | error st =>
    refine (send_sim _).bind ?_
    rintro b _ rfl
    exact .ret rfl
  | ok u => exact .ret rfl

/-! ## The RPCs -/

/-- The item that a call hands to the client of a stream. -/
def Call.item : Call → Option StreamItem
  | ⟨.send item, .ok _⟩ => some item
  | _ => none

/-- What the client of a stream gets of a run. -/
def sentItems (t : List Call) : List StreamItem := t.filterMap Call.item

theorem sentItems_alike {t t' : List Call} (h : List.Forall₂ Call.Alike t t') :
    sentItems t = sentItems t' := by
  induction h with
  | nil => rfl
  | @cons x y l l' hxy _ ih =>
    have hitem : Call.item x = Call.item y := by
      cases hxy <;> rfl
    unfold sentItems at ih ⊢
    rw [List.filterMap_cons, List.filterMap_cons, hitem, ih]

/-- If `ensure_table_uri` fails in both runs, it fails with the same text. -/
def SameUriError (t t' : List Call) : Prop :=
  ∀ raw e e', ⟨.ensureTableUri raw, .error e⟩ ∈ t → ⟨.ensureTableUri raw, .error e'⟩ ∈ t' →
    e.text = e'.text

/-- **The client gets the same**, the answer and all items, from any two runs that are answered
alike, exactly if they do not differ in the text of an `ensure_table_uri` error. -/
def HidesText {α : Type} (p p' : Prog Op Ans (Except Status α)) : Prop :=
  ∀ t t' a a', p.Completes t a → p'.Completes t' a' → butText.Agree t t' →
    (a = a' ∧ sentItems t = sentItems t' ↔ SameUriError t t')

/-- After `ensure_table_uri` has answered a URL: the client gets the same, and it is not called
again. -/
theorem guardedRest_same {α : Type} {body body' : Url → Eff Status α}
    (hsim : SimRpc (body url) (body' url)) (hon : (body url).run.All (Op.OnlyOn url) fun _ => True)
    {t t' : List Call} {a a' : Except Status α}
    (h : (guardedRest srv body (.ok url)).Completes t a)
    (h' : (guardedRest srv body' (.ok url)).Completes t' a') (hag : butText.Agree t t') :
    a = a' ∧ sentItems t = sentItems t' ∧ ∀ raw e, ⟨.ensureTableUri raw, .error e⟩ ∉ t := by
  unfold guardedRest at h h'
  simp only at h h'
  cases hurl : checkTableUriAllowed srv url.asStr with
  | error st =>
    rw [hurl] at h h'
    obtain ⟨rfl, rfl⟩ := Prog.completes_ret.1 h
    obtain ⟨rfl, rfl⟩ := Prog.completes_ret.1 h'
    exact ⟨rfl, rfl, by simp⟩
  | ok x =>
    rw [hurl] at h h'
    obtain ⟨hcalls, hres⟩ := hsim.completes h h' hag
    refine ⟨hres.eq, sentItems_alike hcalls, fun raw e hmem => ?_⟩
    exact absurd (hon.runs h _ hmem) (by simp [Op.OnlyOn])

theorem guarded_hidesText {α : Type} {raw : String} {body body' : Url → Eff Status α}
    (hsim : ∀ url, SimRpc (body url) (body' url))
    (hon : ∀ url, (body url).run.All (Op.OnlyOn url) fun _ => True) :
    HidesText (normalizeAndCheckTableUri srv raw >>= body).run
      (normalizeAndCheckTableUri srv raw >>= body').run := by
  intro t t' a a' h h' hag
  rw [guarded_run] at h h'
  cases hraw : checkRawTableUri srv raw with
  | error st =>
    rw [hraw] at h h'
    obtain ⟨rfl, rfl⟩ := Prog.completes_ret.1 h
    obtain ⟨rfl, rfl⟩ := Prog.completes_ret.1 h'
    exact iff_of_true ⟨rfl, rfl⟩ (by simp [SameUriError])
  | ok x =>
    rw [hraw] at h h'
    obtain ⟨b, u, rfl, hu⟩ := Prog.completes_op.1 h
    obtain ⟨b', u', rfl, hu'⟩ := Prog.completes_op.1 h'
    have hb : Call.Alike ⟨.ensureTableUri raw, b⟩ ⟨.ensureTableUri raw, b'⟩ :=
      hag 0 _ _ rfl rfl (Op.Alike.refl _)
    cases hb with
    | ensureTableUri _ hb =>
      cases hb with
      | @error e e' _ =>
        -- here the text is the message
        obtain ⟨rfl, rfl⟩ := Prog.completes_ret.1 hu
        obtain ⟨rfl, rfl⟩ := Prog.completes_ret.1 hu'
        constructor
        · rintro ⟨heq, -⟩ raw' e₁ e₁' hmem hmem'
          cases List.mem_singleton.1 hmem
          cases List.mem_singleton.1 hmem'
          exact congrArg Status.message (Except.error.inj heq)
        · intro hsame
          have htext := hsame raw e e' (List.mem_singleton.2 rfl) (List.mem_singleton.2 rfl)
          rw [htext]
          exact ⟨rfl, rfl⟩
      | @ok url _ heq =>
        cases heq
        obtain ⟨hres, hitems, hno⟩ := guardedRest_same (hsim url) (hon url) hu hu' hag.tail
        refine iff_of_true ⟨hres, hitems⟩ fun raw' e e' hmem _ => ?_
        rcases List.mem_cons.1 hmem with heq | hmem
        · cases heq
        · exact absurd hmem (hno raw' e)

theorem mapActions_alike (hcr : cr.Alike cr') (l : List Pb.Action) :
    mapActions cr l = mapActions cr' l := by
  rw [hcr.same]
  rfl

theorem commitChecked_sim (hcr : cr.Alike cr') (r : Pb.CommitRequest) (url : Url) :
    SimRpc (commitChecked cr srv r url) (commitChecked cr' srv r url) := by
  unfold commitChecked
  rw [mapActions_alike hcr]
  refine Fallible.sim_bind (P := Eq) (Fallible.sim_lift (.refl (fun _ => rfl) (fun _ => rfl) _)) ?_
  rintro actions _ rfl
  have hlockFor : Sim butText (fun _ _ => True) (perform (.lockFor url.asStr))
      (perform (.lockFor url.asStr)) := call_sim _ fun _ _ _ => trivial
  refine Fallible.sim_bind (Fallible.sim_liftProg hlockFor) fun h h' _ => ?_
  have hop : butText.op (.lock h) (.lock h') := Op.Alike.lock h h'
  have hlock : Sim butText (fun _ _ => True) (perform (.lock h)) (perform (.lock h')) :=
    .call hop fun _ _ _ => trivial
  exact Fallible.sim_bind (Fallible.sim_liftProg hlock) fun _ _ _ => commitLocked_sim

/-- **The text of a storage error stays inside**, in each of the three RPCs, but for that of
`ensure_table_uri`. For any two runs that differ in the texts of errors only, the client gets
the same answer and the same items if and only if `ensure_table_uri` does not fail with two
texts. -/
theorem error_text_hidden_iff (srv : DeltaTxnGrpcServer) (hcr : cr.Alike cr') :
    (∀ r, HidesText (commit cr srv r).run (commit cr' srv r).run) ∧
    (∀ r, HidesText (getTable cr srv r).run (getTable cr' srv r).run) ∧
    (∀ r, HidesText (listActiveFilesAndStream cr srv r).run
      (listActiveFilesAndStream cr' srv r).run) := by
  refine ⟨fun r => ?_, fun r => ?_, fun r => ?_⟩
  · rw [commit_eq, commit_eq]
    exact guarded_hidesText (commitChecked_sim hcr r) commitChecked_onlyOn
  · rw [getTable_eq, getTable_eq]
    exact guarded_hidesText (getTableChecked_sim hcr) getTableChecked_onlyOn
  · rw [listActiveFilesAndStream_eq, listActiveFilesAndStream_eq]
    exact guarded_hidesText (fun url => Fallible.sim_liftProg (streamActiveFiles_sim hcr))
      streamTask_onlyOn

/-! ## A text that is shown, and one that is not -/

/-- A request for a table at a local path. -/
def localRequest : Pb.GetTableRequest := ⟨"orders_blk/x"⟩

/-- `ensure_table_uri` cannot create the directory. -/
def shownRun (text : String) : List Call := [⟨.ensureTableUri "orders_blk/x", .error ⟨.other, text⟩⟩]

/-- What it says then, with the error of the operating system. -/
def notCreated (os : String) : String :=
  "Invalid table location: Could not create local directory: orders_blk/x\nError: " ++ os

/-- `orders_blk` is a file. -/
def notADirectory : String :=
  notCreated "Os \x7b code: 20, kind: NotADirectory, message: \"Not a directory\" \x7d"

/-- `orders_blk` is a directory of somebody else. -/
def permissionDenied : String :=
  notCreated "Os \x7b code: 13, kind: PermissionDenied, message: \"Permission denied\" \x7d"

theorem shownRun_completes (text : String) :
    (getTable raceCrates ⟨∅, none⟩ localRequest).run.Completes (shownRun text)
      (.error (.invalidArgument text)) := by
  rw [getTable_eq, guarded_run, checkRawTableUri_none rfl]
  exact Prog.completes_op.2 ⟨_, [], rfl, Prog.completes_ret.2 ⟨rfl, rfl⟩⟩

theorem shownRun_agree (text text' : String) : butText.Agree (shownRun text) (shownRun text') :=
  Matching.agree_of_forall₂ (.cons (Call.Alike.ensureTableUri _ (.error rfl)) .nil)

/-- **The text of an `ensure_table_uri` error reaches the client**: two runs that differ in it
are told apart. -/
theorem uri_error_text_shown : ¬ ∀ t t' a a',
    (getTable raceCrates ⟨∅, none⟩ localRequest).run.Completes t a →
    (getTable raceCrates ⟨∅, none⟩ localRequest).run.Completes t' a' → butText.Agree t t' →
      a = a' ∧ sentItems t = sentItems t' := by
  intro h
  obtain ⟨heq, -⟩ := h _ _ _ _ (shownRun_completes notADirectory) (shownRun_completes permissionDenied)
    (shownRun_agree _ _)
  have htext := congrArg Status.message (Except.error.inj heq)
  exact absurd htext (by decide +kernel)

/-- The same functions, with the schema unreadable. -/
def unreadableCrates (text : String) : Crates :=
  { raceCrates with parseSchema := fun _ => .error text }

theorem unreadableCrates_alike (text text' : String) :
    (unreadableCrates text).Alike (unreadableCrates text') where
  same := rfl
  parseSchema _ := .error trivial
  schemaToString _ := .ok rfl

/-- The table is found and opened. -/
def openedRun : List Call :=
  [⟨.ensureTableUri "orders_blk/x", .ok ⟨"file:///srv/orders_blk/x/"⟩⟩,
    ⟨.buildTable ⟨"file:///srv/orders_blk/x/"⟩ ∅, .ok ()⟩,
    ⟨.isDeltaTableLocation ⟨"file:///srv/orders_blk/x/"⟩, .ok true⟩,
    ⟨.openTable ⟨"file:///srv/orders_blk/x/"⟩ ∅, .ok (.ok ⟨0, raceMetadata, raceProtocol, []⟩)⟩]

theorem openedRun_completes (text : String) :
    ∃ a, (getTable (unreadableCrates text) ⟨∅, none⟩ localRequest).run.Completes openedRun a := by
  refine ⟨.error (.internal "internal error parsing table schema"), ?_⟩
  rw [getTable_eq, guarded_run, checkRawTableUri_none rfl]
  exact .step (.step (.step (.step (.refl _))))

/-- What is wrong with the schema of a table is not told. -/
theorem error_text_hidden_schema : ∃ a,
    (getTable (unreadableCrates "missing field type") ⟨∅, none⟩ localRequest).run.Completes
      openedRun a ∧
    (getTable (unreadableCrates "expected value at line 1") ⟨∅, none⟩ localRequest).run.Completes
      openedRun a := by
  obtain ⟨a, h⟩ := openedRun_completes "missing field type"
  obtain ⟨a', h'⟩ := openedRun_completes "expected value at line 1"
  have hag : butText.Agree openedRun openedRun :=
    Matching.agree_of_forall₂ (.cons (Call.Alike.ensureTableUri _ (.ok rfl))
      (.cons (Call.Alike.buildTable _ _ (.ok rfl)) (.cons (Call.Alike.isDeltaTableLocation _ (.ok rfl))
        (.cons (Call.Alike.openTable _ _ (.ok (.ok ⟨rfl, rfl, rfl, .nil⟩))) .nil))))
  have huri : SameUriError openedRun openedRun := by
    intro raw e e' hmem _
    simp [openedRun] at hmem
  obtain ⟨rfl, -⟩ := ((error_text_hidden_iff ⟨∅, none⟩ (unreadableCrates_alike _ _)).2.1
    localRequest _ _ _ _ h h' hag).2 huri
  exact ⟨a, h, h'⟩

end DeltaTxn
