import DeltaTxn.Proof.Definition
import DeltaTxn.Proof.Log
import DeltaTxn.Proof.ReadRuns
import DeltaTxn.Proof.Solo
import DeltaTxn.Spec.Deployment
import Mathlib.Data.Fintype.Basic

/-!
# What an undisturbed request of a deployment can do

As `Proof/Solo`, for the requests of all three RPCs: from a world that has the table, each can run
without another request in between, to its answer. So none of them depends on the help of another.

* `solo_getTable`, `solo_listActiveFiles`: a table is read.
* `solo_create`, `solo_update`: a Commit gets its lock and writes.
* `orders_run`: five requests on one table, one after the other.
-/

namespace DeltaTxn

open Conc Conc.Config
open Conc.Prog (mapErr)

variable {ρ ι α : Type}

/-- If the call is a send, it is one of a message that is no error, and that the client takes. -/
structure Call.Smooth (x : Call) : Prop where
  taken : streamChannel.Taken x
  noError : ∀ st, x.1 ≠ .send (.error st)

theorem smooth_send (message : Pb.ListActiveFilesResponse) :
    Call.Smooth ⟨.send (.ok message), .ok ()⟩ where
  taken := by
    intro s hs
    cases hs
    rfl
  noError := by
    intro st hst
    cases hst

theorem smooth_of_not_send {x : Call} (h : streamChannel.send x.1 = none) : x.Smooth where
  taken := by
    intro s hs
    rw [h] at hs
    cases hs
  noError := by
    intro st hst
    rw [hst] at h
    cases h

namespace Deployment

variable [DecidableEq ρ] {D : Deployment ρ ι} {i : ι} {w w' : World ρ ι} {url : Url}
  {actions : List Kernel.Action} {s : DeltaTableState} {m : Pb.TableMetadata} {p : Pb.Protocol}

/-- A piece that opens no table is the same in a deployment. -/
theorem solo_of_setting {S : Setting ρ ι} (hhome : S.home = D.home) (hresolve : S.resolve = D.resolve)
    (hlate : S.lateErrors = true) {p q : Prog Op Ans α} {t : List Call} (h : Solo S.machine i p w t q w')
    (hno : ∀ x ∈ t, ∀ url opts s, x ≠ ⟨.openTable url opts, .ok (.ok s)⟩) :
    Solo D.machine i p w t q w' := by
  obtain ⟨cr, srv, home, resolve, req, lateErrors⟩ := S
  cases hhome
  cases hresolve
  cases hlate
  induction h with
  | refl p w => exact .refl p w
  | @step o k b w w' u t q hx _ ih =>
    refine .step ⟨?_, ?_⟩ (ih fun x hx => hno x (List.mem_cons_of_mem _ hx))
    · cases o <;> exact hx
    · unfold Faithful
      split
      · exact absurd rfl (hno _ List.mem_cons_self _ _ _)
      · trivial

/-- A table is opened at its latest version. -/
theorem exec_openTable (opts : HashMap String) (hlatest : (w.log url).Latest s.version)
    (hshows : Shows D.view ((w.log url).replay s.version) s) :
    D.machine.exec i (.openTable url opts) (.ok (.ok s)) w w :=
  ⟨⟨rfl, fun s' hs => by cases hs; exact hlatest⟩, hshows⟩

theorem exec_isDeltaTableLocation {n : Version} (h : (w.log url n).isSome = true) :
    D.machine.exec i (.isDeltaTableLocation url) (.ok true) w w :=
  ⟨⟨rfl, fun x hx => by cases hx; exact ⟨fun _ => ⟨n, h⟩, fun _ => rfl⟩⟩, trivial⟩

theorem exec_buildTable (opts : HashMap String) :
    D.machine.exec i (.buildTable url opts) (.ok ()) w w :=
  ⟨rfl, trivial⟩

theorem exec_send (item : StreamItem) : D.machine.exec i (.send item) (.ok ()) w w :=
  ⟨rfl, trivial⟩

/-! ## Reading a table -/

theorem solo_openTable (opts : HashMap String) (hlatest : (w.log url).Latest s.version)
    (hshows : Shows D.view ((w.log url).replay s.version) s) :
    Solo D.machine i (openTable url opts).run w [⟨.openTable url opts, .ok (.ok s)⟩]
      (.ret (.ok ⟨url, .ok s⟩)) w := by
  unfold openTable
  exact Solo.fbind (Solo.mapErr (Solo.call (exec_openTable opts hlatest hshows))) (.refl _ _)

/-- A table is read at its latest version. -/
theorem solo_readTable {srv : DeltaTxnGrpcServer} (hlatest : (w.log url).Latest s.version)
    (hshows : Shows D.view ((w.log url).replay s.version) s)
    (hbuild : buildMetadataAndProtocol D.cr s = .ok (m, p)) :
    Solo D.machine i (readTable D.cr srv url).run w (readCalls srv url s) (.ret (.ok (s, m, p))) w := by
  have hexists : Solo D.machine i (tableExists url srv.storageOpts).run w
      [⟨.buildTable url srv.storageOpts, .ok ()⟩, ⟨.isDeltaTableLocation url, .ok true⟩]
      (.ret (.ok true)) w := by
    unfold tableExists
    exact Solo.fbind (Solo.mapErr (Solo.call (exec_buildTable _)))
      (Solo.mapErr (Solo.call (exec_isDeltaTableLocation hlatest.1)))
  unfold readTable
  refine Solo.fbind (Solo.mapErr hexists)
    (Solo.fbind (Solo.mapErr (solo_openTable _ hlatest hshows)) ?_)
  exact Solo.fbind (Solo.lift (v := s) rfl) (Solo.fbind (Solo.lift hbuild) (.refl _ _))

/-- A guarded handler gets past its two checks. -/
theorem solo_guarded {srv : DeltaTxnGrpcServer} {raw : String} {body : Url → Eff Status α}
    {q : Prog Op Ans (Except Status α)} {t : List Call} (hraw : checkRawTableUri srv raw = .ok ())
    (hres : D.resolve i raw = .ok url) (hurl : checkTableUriAllowed srv url.asStr = .ok ())
    (hbody : Solo D.machine i (body url).run w t q w') :
    Solo D.machine i (normalizeAndCheckTableUri srv raw >>= body).run w
      (⟨.ensureTableUri raw, .ok url⟩ :: t) q w' := by
  rw [guarded_run, hraw]
  have hexec : D.machine.exec i (.ensureTableUri raw) (.ok url) w w := ⟨⟨hres.symm, rfl⟩, trivial⟩
  refine .step hexec ?_
  have hrest : guardedRest srv body (.ok url) = (body url).run := by
    simp only [guardedRest, hurl]
  rw [hrest]
  exact hbody

/-- **A GetTable** answers with the latest version. -/
theorem solo_getTable {r : Pb.GetTableRequest} (hrpc : D.rpc i = .getTable r)
    (hraw : checkRawTableUri (D.srv (D.home i)) r.tableUri = .ok ())
    (hres : D.resolve i r.tableUri = .ok url)
    (hurl : checkTableUriAllowed (D.srv (D.home i)) url.asStr = .ok ())
    (hlatest : (w.log url).Latest s.version)
    (hshows : Shows D.view ((w.log url).replay s.version) s)
    (hbuild : buildMetadataAndProtocol D.cr s = .ok (m, p)) :
    Solo D.machine i (D.program i) w
      (⟨.ensureTableUri r.tableUri, .ok url⟩ :: readCalls (D.srv (D.home i)) url s)
      (.ret (.getTable (.ok ⟨s.version.toInt64, some m, some p⟩))) w := by
  unfold program
  rw [hrpc]
  have hbody : Solo D.machine i (getTableChecked D.cr (D.srv (D.home i)) url).run w
      (readCalls (D.srv (D.home i)) url s ++ []) (.ret (.ok ⟨s.version.toInt64, some m, some p⟩)) w := by
    unfold getTableChecked
    exact Solo.fbind (solo_readTable hlatest hshows hbuild) (.refl _ _)
  rw [List.append_nil] at hbody
  exact Solo.map (solo_guarded hraw hres hurl hbody)

/-- The loop over the file stream, if no file fails and the client takes every batch. -/
theorem solo_streamFiles (views : List LogicalFileView) : ∀ batch : List Pb.AddFile,
    ∃ t : List Call, (∀ x ∈ t, x.Smooth) ∧
      Solo D.machine i (streamFiles D.cr (views.map .ok) batch).run w t (.ret (.ok ())) w := by
  induction views with
  | nil =>
    intro batch
    by_cases hbatch : (!batch.isEmpty) = true
    · -- the batch that is left at the end
      refine ⟨[⟨.send (.ok (batchMessage batch)), .ok ()⟩], fun x hx => ?_, ?_⟩
      · rw [List.mem_singleton.1 hx]
        exact smooth_send _
      · rw [List.map_nil, streamFiles, if_pos hbatch]
        exact .step (exec_send _) (.refl _ _)
    · refine ⟨[], fun x hx => absurd hx List.not_mem_nil, ?_⟩
      rw [List.map_nil, streamFiles, if_neg hbatch]
      exact .refl _ _
  | cons view rest ih =>
    intro batch
    by_cases hfull : (batch ++ [fileViewToPb D.cr view]).length ≥ fileBatchSize
    · obtain ⟨t, hsmooth, hrest⟩ := ih []
      refine ⟨⟨.send (.ok (batchMessage (batch ++ [fileViewToPb D.cr view]))), .ok ()⟩ :: t,
        List.forall_mem_cons.2 ⟨smooth_send _, hsmooth⟩, ?_⟩
      · rw [List.map_cons, streamFiles]
        simp only [if_pos hfull]
        exact .step (exec_send _) hrest
    · obtain ⟨t, hsmooth, hrest⟩ := ih (batch ++ [fileViewToPb D.cr view])
      refine ⟨t, hsmooth, ?_⟩
      rw [List.map_cons, streamFiles]
      simp only [if_neg hfull]
      exact hrest

/-- **A ListActiveFiles** streams the latest version to the end. -/
theorem solo_listActiveFiles {r : Pb.ListActiveFilesRequest} (hrpc : D.rpc i = .listActiveFiles r)
    (hraw : checkRawTableUri (D.srv (D.home i)) r.tableUri = .ok ())
    (hres : D.resolve i r.tableUri = .ok url)
    (hurl : checkTableUriAllowed (D.srv (D.home i)) url.asStr = .ok ())
    (hlatest : (w.log url).Latest s.version)
    (hshows : Shows D.view ((w.log url).replay s.version) s)
    (hbuild : buildMetadataAndProtocol D.cr s = .ok (m, p)) {views : List LogicalFileView}
    (hviews : s.fileViews = views.map .ok) :
    ∃ t : List Call, (∀ x ∈ t, x.Smooth) ∧
      (⟨.send (.ok ⟨some (.header ⟨s.version.toInt64, some m, some p⟩)⟩), .ok ()⟩ : Call) ∈ t ∧
      (streamChannel.sent t).head? = some (.ok ⟨some (.header ⟨s.version.toInt64, some m, some p⟩)⟩) ∧
      Solo D.machine i (D.program i) w t (.ret (.listActiveFiles (.ok ()))) w := by
  obtain ⟨t, hsmooth, hfiles⟩ := solo_streamFiles (D := D) (i := i) (w := w) views []
  rw [← hviews] at hfiles
  have hinner : Solo D.machine i (streamActiveFilesInner D.cr (D.srv (D.home i)) url).run w
      (readCalls (D.srv (D.home i)) url s ++
        ⟨.send (.ok (headerMessage s m p)), .ok ()⟩ :: t) (.ret (.ok ())) w := by
    unfold streamActiveFilesInner
    exact Solo.fbind (solo_readTable hlatest hshows hbuild) (.step (exec_send _) hfiles)
  have htask : Solo D.machine i (streamActiveFiles D.cr (D.srv (D.home i)) url) w
      ((readCalls (D.srv (D.home i)) url s ++
        ⟨.send (.ok (headerMessage s m p)), .ok ()⟩ :: t) ++ []) (.ret ()) w := by
    unfold streamActiveFiles
    exact Solo.bind hinner (.refl _ _)
  rw [List.append_nil] at htask
  have hprogram : Solo D.machine i (D.program i) w
      (⟨.ensureTableUri r.tableUri, .ok url⟩ :: (readCalls (D.srv (D.home i)) url s ++
        ⟨.send (.ok (headerMessage s m p)), .ok ()⟩ :: t))
      (.ret (.listActiveFiles (.ok ()))) w := by
    unfold program
    rw [hrpc]
    change Solo D.machine i (Reply.listActiveFiles <$>
      (listActiveFilesAndStream D.cr (D.srv (D.home i)) r).run) w _ _ w
    rw [listActiveFilesAndStream_eq]
    have hguarded : Solo D.machine i (normalizeAndCheckTableUri (D.srv (D.home i)) r.tableUri >>=
        fun url => (liftM (streamActiveFiles D.cr (D.srv (D.home i)) url) : Eff Status Unit)).run w _
        (.ret (.ok ())) w := solo_guarded hraw hres hurl (Solo.liftProg htask)
    exact hguarded.map
  refine ⟨_, ?_, ?_, rfl, hprogram⟩
  · -- the calls before the header are no sends
    refine List.forall_mem_cons.2 ⟨?_, List.forall_mem_append.2 ⟨?_, ?_⟩⟩
    · exact smooth_of_not_send rfl
    · intro x hx
      simp only [readCalls, List.mem_cons, List.not_mem_nil, or_false] at hx
      rcases hx with rfl | rfl | rfl <;> exact smooth_of_not_send rfl
    · exact List.forall_mem_cons.2 ⟨smooth_send _, hsmooth⟩
  · exact List.mem_cons_of_mem _ (List.mem_append_right _ List.mem_cons_self)

/-! ## Commits -/

/-- The setting of a Commit `r`. -/
def settingOf (D : Deployment ρ ι) (r : Pb.CommitRequest) : Setting ρ ι := { D.setting with req := fun _ => r }

section Commit

variable {r : Pb.CommitRequest} {locks : TableLockManager ι} {n : Version}
  {logged : List Kernel.Action}

/-- A Commit comes for the lock of its table. -/
theorem solo_queue (hraw : checkRawTableUri (D.srv (D.home i)) r.tableUri = .ok ())
    (hres : D.resolve i r.tableUri = .ok url)
    (hurl : checkTableUriAllowed (D.srv (D.home i)) url.asStr = .ok ())
    (hmap : mapActions D.cr r.actions = .ok actions) :
    ∃ t, Solo D.machine i (commit D.cr (D.srv (D.home i)) r).run w t
      (commitQueued (D.srv (D.home i)) r url actions (w.locks (D.home i)).handles.length).run
      (w.setLocks (D.home i) ((w.locks (D.home i)).lockFor i url.asStr)) := by
  have hqueue := (D.settingOf r).solo_queue (i := i) (w := w) hraw hres hurl hmap
  refine ⟨_, solo_of_setting rfl rfl rfl hqueue fun x hx url opts s => ?_⟩
  simp only [List.mem_cons, List.not_mem_nil, or_false] at hx
  rcases hx with rfl | rfl <;> intro heq <;> cases heq

/-- It gets the lock, if nobody has it. -/
theorem solo_lock (hraw : checkRawTableUri (D.srv (D.home i)) r.tableUri = .ok ())
    (hres : D.resolve i r.tableUri = .ok url)
    (hurl : checkTableUriAllowed (D.srv (D.home i)) url.asStr = .ok ())
    (hmap : mapActions D.cr r.actions = .ok actions)
    (hlocks : (w.locks (D.home i)).steps [.lockFor i url.asStr,
      .act (w.locks (D.home i)).handles.length .wait,
      .act (w.locks (D.home i)).handles.length .acquire] = some locks) :
    ∃ t, Solo D.machine i (commit D.cr (D.srv (D.home i)) r).run w t
      (commitLocked (D.srv (D.home i)) r url actions).run (w.setLocks (D.home i) locks) := by
  have hlock := (D.settingOf r).solo_lock (i := i) (w := w) hraw hres hurl hmap hlocks
  refine ⟨_, solo_of_setting rfl rfl rfl hlock fun x hx url opts s => ?_⟩
  simp only [List.mem_cons, List.not_mem_nil, or_false] at hx
  rcases hx with rfl | rfl | rfl <;> intro heq <;> cases heq

/-- **A Commit on a new table** creates it. -/
theorem solo_create {kp : Kernel.Protocol} {km : Kernel.Metadata} (hrpc : D.rpc i = .commit r)
    (hraw : checkRawTableUri (D.srv (D.home i)) r.tableUri = .ok ())
    (hres : D.resolve i r.tableUri = .ok url)
    (hurl : checkTableUriAllowed (D.srv (D.home i)) url.asStr = .ok ())
    (hmap : mapActions D.cr r.actions = .ok actions)
    (hlocks : (w.locks (D.home i)).steps [.lockFor i url.asStr,
      .act (w.locks (D.home i)).handles.length .wait,
      .act (w.locks (D.home i)).handles.length .acquire] = some locks)
    (hempty : ∀ n, w.log url n = none) (hexpected : r.expectedVersion = none)
    (hp : findProtocol actions = some kp) (hm : findMetadata actions = some km)
    (hlogged : Logged actions logged) :
    ∃ t, Solo D.machine i (D.program i) w t (.ret (.commit (.ok ⟨0⟩)))
      ((w.setLocks (D.home i) locks).put url 0 ⟨some i, logged⟩) := by
  obtain ⟨t, hlock⟩ := D.solo_lock hraw hres hurl hmap hlocks
  have hnone : ∀ n, (w.setLocks (D.home i) locks).log url n = none := hempty
  have hfind : Solo (D.settingOf r).machine i (commitLocked (D.srv (D.home i)) r url actions).run _ _ _ _ :=
    (D.settingOf r).solo_notFound hnone
  have hwrite : Solo (D.settingOf r).machine i (commitCreate (D.srv (D.home i)) r url actions).run _ _ _ _ :=
    (D.settingOf r).solo_create (n := 0) hexpected hp hm ⟨hnone 0, Or.inl rfl⟩ hlogged
  have hrest := solo_of_setting (D := D) rfl rfl rfl (hfind.append hwrite) fun x hx url opts s => by
    simp only [List.mem_append, List.mem_cons, List.not_mem_nil, or_false] at hx
    rcases hx with (rfl | rfl) | rfl | rfl <;> intro heq <;> cases heq
  unfold program
  rw [hrpc]
  exact ⟨_, (hlock.append hrest).map⟩

/-- **A Commit on a table** appends to its latest version. -/
theorem solo_update (hrpc : D.rpc i = .commit r)
    (hraw : checkRawTableUri (D.srv (D.home i)) r.tableUri = .ok ())
    (hres : D.resolve i r.tableUri = .ok url)
    (hurl : checkTableUriAllowed (D.srv (D.home i)) url.asStr = .ok ())
    (hmap : mapActions D.cr r.actions = .ok actions)
    (hlocks : (w.locks (D.home i)).steps [.lockFor i url.asStr,
      .act (w.locks (D.home i)).handles.length .wait,
      .act (w.locks (D.home i)).handles.length .acquire] = some locks)
    (hlatest : (w.log url).Latest s.version)
    (hshows : Shows D.view ((w.log url).replay s.version) s)
    (hexpected : checkExpectedVersion r ⟨url, .ok s⟩ = .ok ())
    (hlands : (w.log url).Lands (some s.version) n) (hlogged : Logged actions logged) :
    ∃ t, Solo D.machine i (D.program i) w t (.ret (.commit (.ok ⟨n.toInt64⟩)))
      ((w.setLocks (D.home i) locks).put url n ⟨some i, logged⟩) := by
  obtain ⟨t, hlock⟩ := D.solo_lock hraw hres hurl hmap hlocks
  -- the log is the same with the lock held
  have hlatest' : ((w.setLocks (D.home i) locks).log url).Latest s.version := hlatest
  have hfind : Solo (D.settingOf r).machine i (commitLocked (D.srv (D.home i)) r url actions).run _ _ _ _ :=
    (D.settingOf r).solo_found hlatest'.1
  have hopen : Solo D.machine i (commitUpdate (D.srv (D.home i)) r url actions).run
      (w.setLocks (D.home i) locks) [⟨.openTable url (D.srv (D.home i)).storageOpts, .ok (.ok s)⟩]
      (mapErr DeltaTxnError.toStatus (commitActions ⟨url, .ok s⟩ actions).run >>= fun version =>
        pure (⟨version⟩ : Pb.CommitResponse)).run (w.setLocks (D.home i) locks) := by
    unfold commitUpdate
    exact Solo.fbind (Solo.mapErr (solo_openTable _ hlatest' hshows))
      (Solo.fbind (Solo.lift hexpected) (.refl _ _))
  have hexec : (D.settingOf r).machine.exec i
      (.commitBuilder url (some s.version) actions (buildOperation actions)) (.ok n)
      (w.setLocks (D.home i) locks) ((w.setLocks (D.home i) locks).put url n ⟨some i, logged⟩) :=
    (D.settingOf r).exec_commitBuilder _ hlands hlogged
  have hwrite := (D.settingOf r).solo_write hexec
  have hfind' := solo_of_setting (D := D) rfl rfl rfl hfind fun x hx url opts s => by
    simp only [List.mem_cons, List.not_mem_nil, or_false] at hx
    rcases hx with rfl | rfl <;> intro heq <;> cases heq
  have hwrite' := solo_of_setting (D := D) rfl rfl rfl hwrite fun x hx url opts s => by
    rw [List.mem_singleton.1 hx]
    intro heq
    cases heq
  unfold program
  rw [hrpc]
  exact ⟨_, (hlock.append (hfind'.append (hopen.append hwrite'))).map⟩

end Commit

end Deployment

/-! ## A table of orders -/

/-- Two Commits, a GetTable and two ListActiveFiles. -/
inductive OrdersRequest
  | create | append | get | list | relist
  deriving DecidableEq

instance : Fintype OrdersRequest where
  elems := {.create, .append, .get, .list, .relist}
  complete := by
    intro i
    cases i <;> decide

/-- The location of the table. -/
def ordersUrl : Url := ⟨"s3://bucket/orders"⟩

/-- The request that creates it, with one file. -/
def ordersCreate : Pb.CommitRequest where
  tableUri := "s3://bucket/orders"
  expectedVersion := none
  actions := [⟨some (.commitInfo ⟨"orders-writer", "1.0", Pb.CommitOperation.write.toI32, ∅, ∅, 1⟩)⟩,
    ⟨some (.protocol ⟨1, 2⟩)⟩, ⟨some (.metaData ordersDefinition)⟩,
    ⟨some (.add ⟨"year=2024/part-0.parquet", 1, 1, (∅ : HashMap String).insert "year" "2024", 1, none, ∅⟩)⟩]

/-- The request that removes this file, from version 0. -/
def ordersAppend : Pb.CommitRequest where
  tableUri := "s3://bucket/orders"
  expectedVersion := some 0
  actions := [⟨some (.commitInfo ⟨"orders-writer", "1.0", Pb.CommitOperation.delete.toI32, ∅, ∅, 2⟩)⟩,
    ⟨some (.remove ⟨"year=2024/part-0.parquet", none, 1⟩)⟩]

/-- The CommitInfo of the one, or of the other. -/
def ordersCommitInfo (timestamp : Int64) (operation : String) : Kernel.CommitInfo :=
  ⟨some timestamp, some operation, none, some "orders-writer/1.0", none⟩

/-- The definition of the table, as it is in the log. -/
def ordersKernelMetadata : Kernel.Metadata where
  id := "test-table-orders"
  name := some "orders"
  description := none
  format := ⟨"parquet", ∅⟩
  schemaString := spacedSchema
  partitionColumns := ["year"]
  configuration := (∅ : HashMap String).insert "delta.checkpointInterval" "20"
  createdTime := none

/-- The file of the table, as it is in the log. -/
def ordersAdd : Kernel.Add where
  path := "year=2024/part-0.parquet"
  partitionValues := (∅ : HashMap (Option String)).insert "year" (some "2024")
  size := 1
  modificationTime := 1
  dataChange := true
  stats := none
  tags := none
  deletionVector := none
  baseRowId := none
  defaultRowCommitVersion := none
  clusteringProvider := none

/-- Version 0 of the table. -/
def ordersActions : List Kernel.Action :=
  [.commitInfo (ordersCommitInfo 1 "WRITE"), .protocol ⟨1, 2, none, none⟩, .metadata ordersKernelMetadata,
    .add ordersAdd]

/-- Version 1, which removes it. -/
def ordersRemoval : List Kernel.Action :=
  [.commitInfo (ordersCommitInfo 2 "DELETE"),
    .remove ⟨"year=2024/part-0.parquet", true, none, none, none, none, none, none, none, none⟩]

theorem logged_orders : Logged ordersActions ordersActions := .asHanded _ List.mem_cons_self

theorem logged_removal : Logged ordersRemoval ordersRemoval := .asHanded _ List.mem_cons_self

/-- How the file is listed. -/
def ordersView (a : Kernel.Add) : LogicalFileView where
  path := a.path
  size := a.size
  modificationTime := a.modificationTime
  partitionValues := some (["year"], [((a.partitionValues["year"]?).bind id).elim .null .value])
  stats := a.stats

/-- The snapshot of the table at version 0. -/
def ordersSnapshot : DeltaTableState :=
  ⟨0, ordersKernelMetadata, ⟨1, 2, none, none⟩, [.ok (ordersView ordersAdd)]⟩

/-- Each request at a replica of its own. -/
def ordersDeployment : Deployment OrdersRequest OrdersRequest where
  cr := ordersCrates
  srv _ := ⟨∅, none⟩
  home := id
  resolve _ _ := .ok ordersUrl
  rpc
    | .create => .commit ordersCreate
    | .append => .commit ordersAppend
    | .get => .getTable ⟨"s3://bucket/orders"⟩
    | .list | .relist => .listActiveFiles ⟨"s3://bucket/orders"⟩
  view _ a := ordersView a

/-- No tables. -/
def ordersLog (_ : Url) (_ : Version) : Option (List Kernel.Action) := none

theorem ordersLog_contiguous : LogsContiguous ordersLog := by
  intro url m n _ hn
  cases hn

/-- The definition of the table, as it is shown. -/
def ordersShown : Pb.TableMetadata := { ordersDefinition with schemaString := compactSchema }

theorem orders_active (a : Kernel.Add) : ActiveIn ordersActions a ↔ a = ordersAdd := by
  constructor
  · rintro ⟨before, after, hactions, -⟩
    have hmem : Kernel.Action.add a ∈ ordersActions := by
      rw [hactions]
      simp
    simpa [ordersActions] using hmem
  · rintro rfl
    refine ⟨[.commitInfo (ordersCommitInfo 1 "WRITE"), .protocol ⟨1, 2, none, none⟩,
      .metadata ordersKernelMetadata], [], rfl, ?_⟩
    -- what comes before the file is about no file
    simp [Kernel.Action.file]

/-- The snapshot shows version 0. -/
theorem orders_shows : Shows ordersDeployment.view ordersActions ordersSnapshot where
  protocol := rfl
  metadata := rfl
  files := ⟨[ordersAdd], by simp, fun a => by rw [orders_active, List.mem_singleton], Or.inl rfl⟩

/-- A world in which the table is at version 0, and no request at the replica of the second Commit has
a lock. -/
structure OrdersAtZero (w : World OrdersRequest OrdersRequest) : Prop where
  entry : w.log ordersUrl 0 = some ⟨some .create, ordersActions⟩
  last : ∀ n, n ≠ 0 → w.log ordersUrl n = none
  locks : w.locks .append = .empty

theorem OrdersAtZero.latest {w : World OrdersRequest OrdersRequest} (h : OrdersAtZero w) :
    (w.log ordersUrl).Latest ordersSnapshot.version := by
  refine ⟨by rw [show ordersSnapshot.version = 0 from rfl, h.entry]; rfl, fun n hn => h.last n ?_⟩
  rintro rfl
  exact absurd hn (by decide)

theorem OrdersAtZero.shows {w : World OrdersRequest OrdersRequest} (h : OrdersAtZero w) :
    Shows ordersDeployment.view ((w.log ordersUrl).replay ordersSnapshot.version) ordersSnapshot := by
  have hactions : (w.log ordersUrl).replay ordersSnapshot.version = ordersActions := by
    have hzero : UInt64.ofNat 0 = 0 := rfl
    simp [Log.replay, ordersSnapshot, hzero, h.entry]
  rw [hactions]
  exact orders_shows

/-- From `c` to `c'` request `i` has run by itself, from its beginning to its answer. -/
structure OrdersServed (c c' : ordersDeployment.State) (i : OrdersRequest) (t : List Call) (a : Reply)
    (w : World OrdersRequest OrdersRequest) : Prop where
  reach : Reach ordersDeployment.machine c c'
  answered : c'.Answered i a
  calls : c'.callsOf i = c.callsOf i ++ t
  others : ∀ j, j ≠ i → c'.task j = c.task j ∧ c'.callsOf j = c.callsOf j
  world : c'.shared = w

section

variable {c c' : ordersDeployment.State} {i : OrdersRequest} {t : List Call} {a : Reply}
  {w : World OrdersRequest OrdersRequest}

theorem orders_serve (hi : c.task i = .running (ordersDeployment.program i))
    (hs : Solo ordersDeployment.machine i (ordersDeployment.program i) c.shared t (.ret a) w) :
    ∃ c', OrdersServed c c' i t a w := by
  obtain ⟨c', hreach, -, ha, hcalls, hothers, hw⟩ := Config.Reach.serve .refl hi hs
  exact ⟨c', hreach, ha, hcalls, hothers, hw⟩

/-- A request is not there yet. -/
def OrdersWaiting (c : ordersDeployment.State) (i : OrdersRequest) : Prop :=
  c.task i = .running (ordersDeployment.program i) ∧ c.callsOf i = []

theorem OrdersServed.waiting (h : OrdersServed c c' i t a w) {j : OrdersRequest} (hj : j ≠ i)
    (hw : OrdersWaiting c j) : OrdersWaiting c' j :=
  ⟨(h.others j hj).1.trans hw.1, (h.others j hj).2.trans hw.2⟩

theorem OrdersServed.kept (h : OrdersServed c c' i t a w) {j : OrdersRequest} (hj : j ≠ i) {b : Reply}
    (hb : c.Answered j b) : c'.Answered j b :=
  (h.others j hj).1.trans hb

/-- The first Commit creates the table. -/
theorem orders_created : ∃ c t w, OrdersServed (ordersDeployment.init ordersLog) c .create t
    (.commit (.ok ⟨0⟩)) w ∧ OrdersAtZero c.shared := by
  have hmap : mapActions ordersDeployment.cr ordersCreate.actions = .ok ordersActions := rfl
  obtain ⟨m, hm⟩ : ∃ m, (TableLockManager.empty : TableLockManager OrdersRequest).steps
      [.lockFor .create ordersUrl.asStr, .act 0 .wait, .act 0 .acquire] = some m := ⟨_, rfl⟩
  obtain ⟨t, hs⟩ := ordersDeployment.solo_create (i := .create) (w := World.start ordersLog)
    (r := ordersCreate) rfl (checkRawTableUri_none rfl _) rfl (checkTableUriAllowed_none rfl _) hmap hm
    (fun _ => rfl) rfl rfl rfl logged_orders
  obtain ⟨c, hc⟩ := orders_serve (c := ordersDeployment.init ordersLog) rfl hs
  refine ⟨c, t, _, hc, ?_⟩
  rw [hc.world]
  refine ⟨?_, fun n hn => ?_, rfl⟩
  · rw [World.put_log, if_pos ⟨rfl, rfl⟩]
  · rw [World.put_log, if_neg fun h => hn h.2]
    rfl

theorem orders_build :
    buildMetadataAndProtocol ordersDeployment.cr ordersSnapshot = .ok (ordersShown, ⟨1, 2⟩) := by
  have hm : mapMetadata ordersCrates ordersDefinition = .ok ordersKernelMetadata := rfl
  have hp : mapProtocol ordersCrates ⟨1, 2⟩ = .ok ⟨1, 2, none, none⟩ := rfl
  exact definition_read ordersCrates_fillsFields hm hp ordersCrates_parse rfl ⟨rfl, rfl⟩

/-- The GetTable reads it. -/
theorem orders_got (hzero : OrdersAtZero c.shared) (hi : OrdersWaiting c .get) : ∃ c' t,
    OrdersServed c c' .get t (.getTable (.ok ⟨0, some ordersShown, some ⟨1, 2⟩⟩)) c.shared := by
  have hs := ordersDeployment.solo_getTable (i := .get) (w := c.shared) (r := ⟨"s3://bucket/orders"⟩)
    rfl (checkRawTableUri_none rfl _) rfl (checkTableUriAllowed_none rfl _) hzero.latest hzero.shows
    orders_build
  obtain ⟨c', hc⟩ := orders_serve hi.1 hs
  exact ⟨c', _, hc⟩

/-- What a listing of version 0 has sent when it has ended. -/
structure OrdersListed (c : ordersDeployment.State) (i : OrdersRequest) : Prop where
  answered : c.Answered i (.listActiveFiles (.ok ()))
  smooth : ∀ x ∈ c.callsOf i, Call.Smooth x
  header : (i, (⟨.send (.ok ⟨some (.header ⟨0, some ordersShown, some ⟨1, 2⟩⟩)⟩), .ok ()⟩ : Call)) ∈ c.calls
  head : (streamChannel.sent (c.callsOf i)).head? =
    some (.ok ⟨some (.header ⟨0, some ordersShown, some ⟨1, 2⟩⟩)⟩)

theorem OrdersListed.kept (h : OrdersListed c i) {j : OrdersRequest} (hs : OrdersServed c c' j t a w)
    (hij : i ≠ j) : OrdersListed c' i where
  answered := hs.kept hij h.answered
  smooth := by
    rw [(hs.others i hij).2]
    exact h.smooth
  header := by
    rw [← mem_callsOf, (hs.others i hij).2]
    exact mem_callsOf.2 h.header
  head := by
    rw [(hs.others i hij).2]
    exact h.head

/-- A ListActiveFiles lists it. -/
theorem orders_listed (hzero : OrdersAtZero c.shared) (hi : OrdersWaiting c i)
    (hrpc : ordersDeployment.rpc i = .listActiveFiles ⟨"s3://bucket/orders"⟩) : ∃ c' t,
    OrdersServed c c' i t (.listActiveFiles (.ok ())) c.shared ∧ OrdersListed c' i := by
  have hviews : ordersSnapshot.fileViews = [ordersView ordersAdd].map .ok := rfl
  obtain ⟨t, hsmooth, hheader, hhead, hs⟩ := ordersDeployment.solo_listActiveFiles (i := i) (w := c.shared) hrpc
    (checkRawTableUri_none rfl _) rfl (checkTableUriAllowed_none rfl _) hzero.latest hzero.shows orders_build
    hviews
  obtain ⟨c', hc⟩ := orders_serve hi.1 hs
  have hcalls : c'.callsOf i = t := by
    rw [hc.calls, hi.2, List.nil_append]
  refine ⟨c', t, hc, hc.answered, ?_, ?_, ?_⟩
  · rw [hcalls]
    exact hsmooth
  · rw [← mem_callsOf, hcalls]
    exact hheader
  · rw [hcalls]
    exact hhead

/-- The second Commit appends to it. -/
theorem orders_appended (hzero : OrdersAtZero c.shared) (hi : OrdersWaiting c .append) : ∃ c' t w,
    OrdersServed c c' .append t (.commit (.ok ⟨1⟩)) w ∧
      c'.shared.log ordersUrl 0 = some ⟨some .create, ordersActions⟩ := by
  obtain ⟨m, hm⟩ : ∃ m, (c.shared.locks .append).steps [.lockFor .append ordersUrl.asStr,
      .act (c.shared.locks .append).handles.length .wait,
      .act (c.shared.locks .append).handles.length .acquire] = some m := by
    rw [hzero.locks]
    exact ⟨_, rfl⟩
  have hmap : mapActions ordersDeployment.cr ordersAppend.actions = .ok ordersRemoval := rfl
  obtain ⟨t, hs⟩ := ordersDeployment.solo_update (i := .append) (w := c.shared) (r := ordersAppend) (n := 1)
    rfl (checkRawTableUri_none rfl _) rfl (checkTableUriAllowed_none rfl _) hmap hm hzero.latest hzero.shows rfl
    ⟨hzero.last 1 (by decide), Or.inl rfl⟩ logged_removal
  obtain ⟨c', hc⟩ := orders_serve hi.1 hs
  refine ⟨c', t, _, hc, ?_⟩
  rw [hc.world, World.put_log, if_neg fun h => absurd h.2 (by decide)]
  exact hzero.entry

end

/-- The table is created, read, listed twice and then changed, each by one request after the other.
`c₁` is when it has been created, `c₂` is at the end. -/
structure OrdersRun (c₁ c₂ : ordersDeployment.State) : Prop where
  first : ordersDeployment.Reachable ordersLog c₁
  rest : Reach ordersDeployment.machine c₁ c₂
  created : c₁.Answered .create (.commit (.ok ⟨0⟩))
  waiting : c₁.callsOf .append = []
  entry : c₂.shared.log ordersUrl 0 = some ⟨some .create, ordersActions⟩
  got : c₂.Answered .get (.getTable (.ok ⟨0, some ordersShown, some ⟨1, 2⟩⟩))
  listed : OrdersListed c₂ .list
  relisted : OrdersListed c₂ .relist
  appended : c₂.Answered .append (.commit (.ok ⟨1⟩))

theorem orders_run : ∃ c₁ c₂, OrdersRun c₁ c₂ := by
  obtain ⟨c₁, t₁, w₁, s₁, hzero⟩ := orders_created
  have hwaiting : ∀ j, j ≠ .create → OrdersWaiting c₁ j := fun j hj => s₁.waiting hj ⟨rfl, rfl⟩
  obtain ⟨c₂, t₂, s₂⟩ := orders_got hzero (hwaiting .get (by decide))
  rw [← s₂.world] at hzero
  obtain ⟨c₃, t₃, s₃, h₃⟩ := orders_listed (i := .list) hzero
    (s₂.waiting (by decide) (hwaiting .list (by decide))) rfl
  rw [← s₃.world] at hzero
  obtain ⟨c₄, t₄, s₄, h₄⟩ := orders_listed (i := .relist) hzero
    (s₃.waiting (by decide) (s₂.waiting (by decide) (hwaiting .relist (by decide)))) rfl
  rw [← s₄.world] at hzero
  obtain ⟨c₅, t₅, w₅, s₅, hentry⟩ := orders_appended hzero (s₄.waiting (by decide)
    (s₃.waiting (by decide) (s₂.waiting (by decide) (hwaiting .append (by decide)))))
  refine ⟨c₁, c₅, ?_⟩
  exact {
    first := s₁.reach
    rest := s₂.reach.trans (s₃.reach.trans (s₄.reach.trans s₅.reach))
    created := s₁.answered
    waiting := (hwaiting .append (by decide)).2
    entry := hentry
    got := s₅.kept (by decide) (s₄.kept (by decide) (s₃.kept (by decide) s₂.answered))
    listed := (h₃.kept s₄ (by decide)).kept s₅ (by decide)
    relisted := h₄.kept s₅ (by decide)
    appended := s₅.answered }

end DeltaTxn
