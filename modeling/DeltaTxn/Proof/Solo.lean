import DeltaTxn.Proof.CommitRuns
import DeltaTxn.Spec.World

/-!
# What an undisturbed request can do

The converse of `Proof/CommitRuns`: from a world that allows it, each part of a Commit can run
without another request in between, to where the next part starts. Schedules of several
requests are put together from these pieces.
-/

namespace DeltaTxn

open Conc Conc.Config
open Conc.Prog (mapErr)

variable {ρ ι : Type} [DecidableEq ρ] {S : Setting ρ ι} {i : ι} {w : World ρ ι} {url : Url}
  {actions : List Kernel.Action}

/-- Without an allowlist every URI is allowed. -/
theorem checkTableUriAllowed_none {srv : DeltaTxnGrpcServer}
    (h : srv.allowedTablePrefixes = none) (uri : String) : checkTableUriAllowed srv uri = .ok () := by
  unfold checkTableUriAllowed
  rw [h]
  rfl

theorem checkRawTableUri_none {srv : DeltaTxnGrpcServer}
    (h : srv.allowedTablePrefixes = none) (uri : String) : checkRawTableUri srv uri = .ok () := by
  unfold checkRawTableUri
  split
  · exact checkTableUriAllowed_none h uri
  · rfl

theorem World.setLocks_setLocks (w : World ρ ι) (k : ρ) (m m' : TableLockManager ι) :
    (w.setLocks k m).setLocks k m' = w.setLocks k m' := by
  simp [World.setLocks]

@[simp] theorem World.locks_setLocks (w : World ρ ι) (k : ρ) (m : TableLockManager ι) :
    (w.setLocks k m).locks k = m := by
  simp [World.setLocks]

/-- What is left of a Commit that has its `TableLock`. -/
def commitQueued (srv : DeltaTxnGrpcServer) (r : Pb.CommitRequest) (url : Url)
    (actions : List Kernel.Action) (lock : ℕ) : Eff Status Pb.CommitResponse := do
  perform (.lock lock)
  commitLocked srv r url actions

namespace Setting

/-! ## Single calls -/

theorem exec_ensureTableUri {raw : String} {b : Except DeltaTableError Url}
    (h : S.resolve i raw = b) : S.machine.exec i (.ensureTableUri raw) b w w :=
  ⟨h.symm, rfl⟩

theorem exec_lockFor (key : String) :
    S.machine.exec i (.lockFor key) (w.locks (S.home i)).handles.length w
      (w.setLocks (S.home i) ((w.locks (S.home i)).lockFor i key)) :=
  ⟨rfl, rfl⟩

theorem exec_lock {h : ℕ} {m : TableLockManager ι}
    (hm : (w.locks (S.home i)).steps [.act h .wait, .act h .acquire] = some m) :
    S.machine.exec i (.lock h) () w (w.setLocks (S.home i) m) :=
  ⟨m, hm, rfl⟩

theorem exec_buildTable (opts : HashMap String) :
    S.machine.exec i (.buildTable url opts) (.ok ()) w w :=
  rfl

theorem exec_isDeltaTableLocation {x : Bool}
    (h : x = true ↔ ∃ n, (w.log url n).isSome = true) :
    S.machine.exec i (.isDeltaTableLocation url) (.ok x) w w :=
  ⟨rfl, fun y hy => by cases hy; exact h⟩

theorem exec_openTable {s : DeltaTableState} (opts : HashMap String)
    (h : (w.log url).Latest s.version) :
    S.machine.exec i (.openTable url opts) (.ok (.ok s)) w w :=
  ⟨rfl, fun s' hs => by cases hs; exact h⟩

theorem exec_commitBuilder {base : Option Version} {n : Version} {logged : List Kernel.Action}
    (op : DeltaOperation) (h : (w.log url).Lands base n) (hlogged : Logged actions logged) :
    S.machine.exec i (.commitBuilder url base actions op) (.ok n) w (w.put url n ⟨some i, logged⟩) :=
  ⟨h, logged, hlogged, rfl⟩

theorem exec_commitBuilder_error {base : Option Version} {e : DeltaTableError} (op : DeltaOperation)
    (h : e.isConflict = true → (w.log url (Log.firstTry base)).isSome = true) :
    S.machine.exec i (.commitBuilder url base actions op) (.error e) w w :=
  Or.inl ⟨rfl, h⟩

/-! ## The parts of a Commit -/

theorem solo_normalize (hraw : checkRawTableUri (S.srv (S.home i)) (S.req i).tableUri = .ok ())
    (hres : S.resolve i (S.req i).tableUri = .ok url)
    (hurl : checkTableUriAllowed (S.srv (S.home i)) url.asStr = .ok ()) :
    Solo S.machine i (normalizeAndCheckTableUri (S.srv (S.home i)) (S.req i).tableUri).run w
      [⟨.ensureTableUri (S.req i).tableUri, .ok url⟩] (.ret (.ok url)) w := by
  unfold normalizeAndCheckTableUri
  exact Solo.fbind (Solo.lift hraw)
    (Solo.fbind (Solo.mapErr (Solo.call (S.exec_ensureTableUri hres)))
      (Solo.fbind (Solo.lift hurl) (.refl _ _)))

/-- From the start to having a `TableLock`. -/
theorem solo_queue (hraw : checkRawTableUri (S.srv (S.home i)) (S.req i).tableUri = .ok ())
    (hres : S.resolve i (S.req i).tableUri = .ok url)
    (hurl : checkTableUriAllowed (S.srv (S.home i)) url.asStr = .ok ())
    (hmap : mapActions S.cr (S.req i).actions = .ok actions) :
    Solo S.machine i (S.program i) w
      [⟨.ensureTableUri (S.req i).tableUri, .ok url⟩,
        ⟨.lockFor url.asStr, (w.locks (S.home i)).handles.length⟩]
      (commitQueued (S.srv (S.home i)) (S.req i) url actions (w.locks (S.home i)).handles.length).run
      (w.setLocks (S.home i) ((w.locks (S.home i)).lockFor i url.asStr)) := by
  have hmap' : (mapActions S.cr (S.req i).actions).mapError Status.invalidArgument =
      .ok actions := by
    rw [hmap]
    rfl
  unfold program commit
  exact Solo.fbind (solo_normalize hraw hres hurl) (Solo.fbind (Solo.lift hmap')
    (Solo.fbind (Solo.liftProg (Solo.call (S.exec_lockFor url.asStr))) (.refl _ _)))

/-- From having a `TableLock` to holding the lock. -/
theorem solo_acquire {srv : DeltaTxnGrpcServer} {r : Pb.CommitRequest} {h : ℕ} {m : TableLockManager ι}
    (hm : (w.locks (S.home i)).steps [.act h .wait, .act h .acquire] = some m) :
    Solo S.machine i (commitQueued srv r url actions h).run w [⟨.lock h, ()⟩]
      (commitLocked srv r url actions).run (w.setLocks (S.home i) m) := by
  unfold commitQueued
  exact Solo.fbind (Solo.liftProg (Solo.call (S.exec_lock hm))) (.refl _ _)

/-- From the start to holding the lock. -/
theorem solo_lock {m : TableLockManager ι}
    (hraw : checkRawTableUri (S.srv (S.home i)) (S.req i).tableUri = .ok ())
    (hres : S.resolve i (S.req i).tableUri = .ok url)
    (hurl : checkTableUriAllowed (S.srv (S.home i)) url.asStr = .ok ())
    (hmap : mapActions S.cr (S.req i).actions = .ok actions)
    (hm : (w.locks (S.home i)).steps [.lockFor i url.asStr,
      .act (w.locks (S.home i)).handles.length .wait,
      .act (w.locks (S.home i)).handles.length .acquire] = some m) :
    Solo S.machine i (S.program i) w
      [⟨.ensureTableUri (S.req i).tableUri, .ok url⟩,
        ⟨.lockFor url.asStr, (w.locks (S.home i)).handles.length⟩,
        ⟨.lock (w.locks (S.home i)).handles.length, ()⟩]
      (commitLocked (S.srv (S.home i)) (S.req i) url actions).run (w.setLocks (S.home i) m) := by
  have hm' : ((w.setLocks (S.home i) ((w.locks (S.home i)).lockFor i url.asStr)).locks
      (S.home i)).steps [.act (w.locks (S.home i)).handles.length .wait,
        .act (w.locks (S.home i)).handles.length .acquire] = some m := by
    rw [World.locks_setLocks]
    exact hm
  have hlock := (S.solo_queue (w := w) hraw hres hurl hmap).append (S.solo_acquire hm')
  rw [World.setLocks_setLocks] at hlock
  exact hlock

theorem solo_tableExists {x : Bool} (opts : HashMap String)
    (h : x = true ↔ ∃ n, (w.log url n).isSome = true) :
    Solo S.machine i (tableExists url opts).run w
      [⟨.buildTable url opts, .ok ()⟩, ⟨.isDeltaTableLocation url, .ok x⟩] (.ret (.ok x)) w := by
  unfold tableExists
  exact Solo.fbind (Solo.mapErr (Solo.call (S.exec_buildTable opts)))
    (Solo.mapErr (Solo.call (S.exec_isDeltaTableLocation h)))

theorem solo_openTable {s : DeltaTableState} (opts : HashMap String)
    (h : (w.log url).Latest s.version) :
    Solo S.machine i (openTable url opts).run w [⟨.openTable url opts, .ok (.ok s)⟩]
      (.ret (.ok ⟨url, .ok s⟩)) w := by
  unfold openTable
  exact Solo.fbind (Solo.mapErr (Solo.call (S.exec_openTable opts h))) (.refl _ _)

/-- With the lock held and a table there, to the update. -/
theorem solo_found {srv : DeltaTxnGrpcServer} {r : Pb.CommitRequest} {n : Version}
    (h : (w.log url n).isSome = true) :
    Solo S.machine i (commitLocked srv r url actions).run w
      [⟨.buildTable url srv.storageOpts, .ok ()⟩, ⟨.isDeltaTableLocation url, .ok true⟩]
      (commitUpdate srv r url actions).run w := by
  unfold commitLocked
  exact Solo.fbind (Solo.mapErr (S.solo_tableExists srv.storageOpts (x := true)
    ⟨fun _ => ⟨n, h⟩, fun _ => rfl⟩)) (.refl _ _)

/-- With the lock held and no table there, to the creation. -/
theorem solo_notFound {srv : DeltaTxnGrpcServer} {r : Pb.CommitRequest}
    (h : ∀ n, w.log url n = none) :
    Solo S.machine i (commitLocked srv r url actions).run w
      [⟨.buildTable url srv.storageOpts, .ok ()⟩, ⟨.isDeltaTableLocation url, .ok false⟩]
      (commitCreate srv r url actions).run w := by
  unfold commitLocked
  exact Solo.fbind (Solo.mapErr (S.solo_tableExists srv.storageOpts (x := false)
    ⟨fun hf => by simp at hf, fun ⟨n, hn⟩ => by simp [h n] at hn⟩)) (.refl _ _)

/-- From the start of the update to its write. -/
theorem solo_open {srv : DeltaTxnGrpcServer} {r : Pb.CommitRequest} {s : DeltaTableState}
    (h : (w.log url).Latest s.version) (hv : checkExpectedVersion r ⟨url, .ok s⟩ = .ok ()) :
    Solo S.machine i (commitUpdate srv r url actions).run w
      [⟨.openTable url srv.storageOpts, .ok (.ok s)⟩]
      (mapErr DeltaTxnError.toStatus (commitActions ⟨url, .ok s⟩ actions).run >>= fun version =>
        pure (⟨version⟩ : Pb.CommitResponse)).run w := by
  unfold commitUpdate
  exact Solo.fbind (Solo.mapErr (S.solo_openTable _ h)) (Solo.fbind (Solo.lift hv) (.refl _ _))

/-- The check that rejects an update. -/
theorem solo_rejected {srv : DeltaTxnGrpcServer} {r : Pb.CommitRequest} {s : DeltaTableState}
    {st : Status} (h : (w.log url).Latest s.version)
    (hv : checkExpectedVersion r ⟨url, .ok s⟩ = .error st) :
    Solo S.machine i (commitUpdate srv r url actions).run w
      [⟨.openTable url srv.storageOpts, .ok (.ok s)⟩] (.ret (.error st)) w := by
  have hrest : Solo S.machine i (liftM (checkExpectedVersion r ⟨url, .ok s⟩) >>= fun _ =>
      mapErr DeltaTxnError.toStatus (commitActions ⟨url, .ok s⟩ actions).run >>= fun version =>
        pure (⟨version⟩ : Pb.CommitResponse) : Eff Status _).run w [] (.ret (.error st)) w := by
    rw [hv]
    exact .refl _ _
  unfold commitUpdate
  exact Solo.fbind (Solo.mapErr (S.solo_openTable _ h)) hrest

/-- The write of an update. -/
theorem solo_write {s : DeltaTableState} {b : Except DeltaTableError Version} {w' : World ρ ι}
    (h : S.machine.exec i
      (.commitBuilder url (some s.version) actions (buildOperation actions)) b w w') :
    Solo S.machine i
      (mapErr DeltaTxnError.toStatus (commitActions ⟨url, .ok s⟩ actions).run >>= fun version =>
        pure (⟨version⟩ : Pb.CommitResponse)).run w
      [⟨.commitBuilder url (some s.version) actions (buildOperation actions), b⟩]
      (.ret (match b with
        | .ok n => .ok ⟨n.toInt64⟩
        | .error e => .error (commitFailed e).toStatus)) w' := by
  cases b with
  | ok n => exact .step h (.refl _ _)
  | error e => exact .step h (.refl _ _)

/-- A creation, up to its answer. -/
theorem solo_create {srv : DeltaTxnGrpcServer} {r : Pb.CommitRequest} {p : Kernel.Protocol}
    {m : Kernel.Metadata} {n : Version} {logged : List Kernel.Action} (hr : r.expectedVersion = none)
    (hp : findProtocol actions = some p) (hm : findMetadata actions = some m)
    (hn : (w.log url).Lands none n) (hlogged : Logged actions logged) :
    Solo S.machine i (commitCreate srv r url actions).run w
      [⟨.buildTable url srv.storageOpts, .ok ()⟩,
        ⟨.commitBuilder url none actions (.create .errorIfExists url p m), .ok n⟩]
      (.ret (((createResult (.ok n)).mapError DeltaTxnError.toStatus).map Pb.CommitResponse.mk))
      (w.put url n ⟨some i, logged⟩) := by
  have hc : commitCreate srv r url actions =
      (mapErr DeltaTxnError.toStatus (createTable url srv.storageOpts actions p m).run >>=
        fun version => pure ⟨version⟩) := by
    unfold commitCreate
    rw [hr, hp, hm]
    rfl
  rw [hc]
  refine .step (S.exec_buildTable srv.storageOpts) (.step (S.exec_commitBuilder _ hn hlogged) ?_)
  simp only [Prog.bind, ExceptT.bindCont, Function.comp, Except.mapError, createResult]
  split
  · exact .refl _ _
  · exact .refl _ _

end Setting

end DeltaTxn
