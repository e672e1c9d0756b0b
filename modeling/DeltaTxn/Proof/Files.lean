import DeltaTxn.Proof.Actions
import DeltaTxn.Proof.Snapshot
import DeltaTxn.Proof.Stats

/-!
# The files of a table, from client to client

What a ListActiveFiles shows of a table that was created here is what the Commits of its clients
say, from the latest version down: a file is listed if the first action about its path in this order
is an AddFile, and it is listed as this AddFile.

* `firstAbout`, `sentReplay`: the table by what its clients have sent.
* `active_iff_sent`, `Reachable.sent_mapped`: the log says the same.
* `deployment_files_round_trip`: what one client lists is what the others have committed.
-/

namespace DeltaTxn

open Conc

variable {ρ ι : Type} {cr : Crates}

/-! ## The first action about a file -/

/-- The path of the file that an action is about. -/
def Pb.Action.filePath (a : Pb.Action) : Option String :=
  match a.action with
  | some (.add a) => some a.path
  | some (.remove r) => some r.path
  | _ => none

/-- The first action about the file at `path`. -/
def firstAbout (sent : List Pb.Action) (path : String) : Option Pb.Action :=
  Related.firstWith Pb.Action.filePath path sent

/-- What is active comes first in the replay. -/
theorem activeIn_iff {actions : List Kernel.Action} {k : Kernel.Add} :
    ActiveIn actions k ↔ Related.firstWith Kernel.Action.file
      (k.path, k.deletionVector.map (·.uniqueId)) actions = some (.add k) := by
  rw [Related.firstWith_eq_some_iff]
  exact (and_iff_right rfl).symm

/-- A mapped action is about the file without a deletion vector at the same path. -/
theorem mapAction_file {a : Pb.Action} {k : Kernel.Action} (h : mapAction cr a = .ok k) :
    k.file = a.filePath.map fun path => (path, none) := by
  obtain ⟨_ | w⟩ := a
  · cases h
  cases w with
  | add a =>
    obtain ⟨b, hb, rfl⟩ := Traverse.map_eq_ok h
    obtain ⟨dc, -, rfl⟩ := Traverse.map_eq_ok hb
    rfl
  | remove r =>
    obtain ⟨s, hs, rfl⟩ := Traverse.map_eq_ok h
    obtain ⟨dc, -, rfl⟩ := Traverse.map_eq_ok hs
    rfl
  | protocol p =>
    obtain ⟨q, -, rfl⟩ := Traverse.map_eq_ok h
    rfl
  | metaData m =>
    obtain ⟨n, -, rfl⟩ := Traverse.map_eq_ok h
    rfl
  | commitInfo ci =>
    obtain ⟨cj, -, rfl⟩ := Traverse.map_eq_ok h
    rfl

/-- Only an AddFile is mapped to an Add. -/
theorem mapAction_add {a : Pb.Action} {k : Kernel.Add} (h : mapAction cr a = .ok (.add k)) :
    ∃ f, a = ⟨some (.add f)⟩ ∧ k.path = f.path ∧ k.deletionVector = none := by
  have hc := mapAction_carried h
  obtain ⟨_ | w⟩ := a
  · cases h
  cases w with
  | add f =>
    have hfile := mapAction_file h
    cases hdv : k.deletionVector with
    | none => exact ⟨f, rfl, hc.1, rfl⟩
    | some d =>
      -- it would be about a file with a deletion vector
      simp only [Kernel.Action.file, hdv, Pb.Action.filePath, Option.map_some, Option.some.injEq,
        Prod.mk.injEq, reduceCtorEq, and_false] at hfile
  | remove r => exact absurd hc id
  | protocol p => exact absurd hc id
  | metaData m => exact absurd hc id
  | commitInfo ci => exact absurd hc id

/-- **A file is active exactly if the first action that was sent about it adds it.** The replay of the
log may have more than what was sent, but nothing about a file. -/
theorem active_iff_sent {sent : List Pb.Action} {handed actions : List Kernel.Action} {k : Kernel.Add}
    (h : List.Forall₂ (fun a k => mapAction cr a = .ok k) sent handed)
    (hsame : ∀ f, Related.firstWith Kernel.Action.file f actions =
      Related.firstWith Kernel.Action.file f handed) :
    ActiveIn actions k ↔ ∃ a : Pb.AddFile, mapAction cr ⟨some (.add a)⟩ = .ok (.add k) ∧
      firstAbout sent a.path = some ⟨some (.add a)⟩ := by
  have hfirst := Related.forall₂_firstWith Pb.Action.filePath Kernel.Action.file (fun path => (path, none))
    (fun p q hpq => congrArg Prod.fst hpq) (fun a k hk => mapAction_file hk) h
  rw [activeIn_iff, hsame]
  constructor
  · intro hk
    have hmem : Kernel.Action.add k ∈ handed := by
      obtain ⟨-, before, after, rfl, -⟩ := Related.firstWith_eq_some_iff.1 hk
      exact List.mem_append_right _ List.mem_cons_self
    obtain ⟨x, -, hx⟩ := Related.forall₂_exists_left h hmem
    obtain ⟨-, -, -, hdv⟩ := mapAction_add hx
    -- the first action of each about this file are partners
    have hrel := hfirst k.path
    rw [hdv, Option.map_none] at hk
    rw [hk] at hrel
    generalize hs : Related.firstWith Pb.Action.filePath k.path sent = first at hrel
    cases hrel with
    | some hy =>
      obtain ⟨a, rfl, hpath, -⟩ := mapAction_add hy
      refine ⟨a, hy, ?_⟩
      rw [firstAbout, ← hpath, hs]
  · rintro ⟨a, ha, hsent⟩
    have hrel := hfirst a.path
    rw [firstAbout] at hsent
    rw [hsent] at hrel
    generalize hs : Related.firstWith Kernel.Action.file (a.path, none) handed = first at hrel
    cases hrel with
    | some hy =>
      cases ha.symm.trans hy
      obtain ⟨f, hf, hpath, hdv⟩ := mapAction_add ha
      cases hf
      rw [hpath, hdv]
      exact hs

/-- What delta-rs adds to the actions of a Commit is about no file. -/
theorem Logged.firstWith_eq {actions logged : List Kernel.Action} (h : Logged actions logged)
    (f : String × Option (String × String × Option Int32)) :
    Related.firstWith Kernel.Action.file f logged = Related.firstWith Kernel.Action.file f actions := by
  cases h with
  | asHanded ci _ => rfl
  | withInfo ci _ => exact List.find?_cons_of_neg (by simp [Kernel.Action.file])

/-! ## The table by what was sent -/

variable [DecidableEq ρ] [DecidableEq ι] {D : Deployment ρ ι}
  {log : Url → Version → Option (List Kernel.Action)} {c : D.State} {i : ι} {url : Url}

namespace Deployment

omit [DecidableEq ρ] [DecidableEq ι] in
/-- The actions that clients have sent for the versions up to `n` of the log `g`, the latest version
first, each version in the order of its Commit. -/
def sentReplay (D : Deployment ρ ι) (g : Log ι) (n : Version) : List Pb.Action :=
  (List.range (n.toNat + 1)).reverse.flatMap fun k =>
    (((g (UInt64.ofNat k)).bind LogEntry.author).map fun j => (D.rpc j).actions).getD []

/-- **A table that was created here** holds what clients have sent, and nothing else about any file. -/
theorem Reachable.sent_mapped (h : D.Reachable log c) (hnew : ∀ n, log url n = none) (n : Version) :
    ∃ handed, List.Forall₂ (fun a k => mapAction D.cr a = .ok k)
        (D.sentReplay (c.shared.log url) n) handed ∧
      ∀ f, Related.firstWith Kernel.Action.file f ((c.shared.log url).replay n) =
        Related.firstWith Kernel.Action.file f handed := by
  -- one version
  have hversion : ∀ k, ∃ handed, List.Forall₂ (fun a k => mapAction D.cr a = .ok k)
      ((((c.shared.log url (UInt64.ofNat k)).bind LogEntry.author).map fun j =>
        (D.rpc j).actions).getD []) handed ∧
      ∀ f, Related.firstWith Kernel.Action.file f
        (((c.shared.log url (UInt64.ofNat k)).map LogEntry.actions).getD []) =
          Related.firstWith Kernel.Action.file f handed := by
    intro k
    cases he : c.shared.log url (UInt64.ofNat k) with
    | none => exact ⟨[], .nil, fun _ => rfl⟩
    | some e =>
      rcases h.entry_cases he with ⟨-, hold⟩ | ⟨j, base, actions, op, b, hj, hlogged, hx⟩
      · -- the table was not there before
        rw [hnew] at hold
        cases hold
      · obtain ⟨r, hrpc, hmap, -⟩ := h.write_serves hx
        refine ⟨actions, ?_, fun f => hlogged.firstWith_eq f⟩
        simp only [Option.bind_some, hj, Option.map_some, Option.getD_some, hrpc]
        exact mapActions_forall₂ hmap
  choose handed hmapped hsame using hversion
  refine ⟨(List.range (n.toNat + 1)).reverse.flatMap handed, Related.forall₂_flatMap hmapped _,
    fun f => ?_⟩
  unfold Log.replay
  rw [Related.firstWith_flatMap, Related.firstWith_flatMap]
  simp only [hsame]

end Deployment

/-! ## How a file is listed -/

/-- The view has what the log has of the file; a partition value may be null where the log has an
empty one. -/
structure LogicalFileView.Presents (v : LogicalFileView) (k : Kernel.Add) : Prop where
  path : v.path = k.path
  size : v.size = k.size
  modificationTime : v.modificationTime = k.modificationTime
  partitionValues : (partitionValuesOf v).map (fun _ x => x.getD "") =
    k.partitionValues.map fun _ x => x.getD ""
  stats : v.stats = k.stats

/-- A file that is presented as it was added is listed as it was sent. -/
theorem LogicalFileView.Presents.readBack {v : LogicalFileView} {k : Kernel.Add} {a : Pb.AddFile}
    (hv : v.Presents k) (ha : mapAction cr ⟨some (.add a)⟩ = .ok (.add k))
    (hjson : ∀ s ∈ a.stats, cr.Reparses (fileStatsJson s)) : fileViewToPb cr v = a.readBack := by
  obtain ⟨b, hb, hkb⟩ := Traverse.map_eq_ok ha
  obtain ⟨dc, -, rfl⟩ := Traverse.map_eq_ok hb
  cases hkb
  unfold fileViewToPb mapActiveFileToPb
  rw [hv.path, hv.size, hv.modificationTime, hv.partitionValues, hv.stats]
  simp only [partitionValues_mapStringMap, mapStatsJsonToPb_mapFileStats hjson]
  rfl

/-- **`f` is how the AddFile `a` is listed**, in a table with the metadata `km`: as its view shows it,
and if this presents the file as it was added, exactly as it was sent. -/
def Deployment.Lists (D : Deployment ρ ι) (km : Kernel.Metadata) (a f : Pb.AddFile) : Prop :=
  ∃ k, mapAction D.cr ⟨some (.add a)⟩ = .ok (.add k) ∧ f = fileViewToPb D.cr (D.view km k) ∧
    ((D.view km k).Presents k → (∀ s ∈ a.stats, D.cr.Reparses (fileStatsJson s)) → f = a.readBack)

/-- The active files of a table that was created here, as they were sent. -/
theorem Deployment.Reachable.active_sent (h : D.Reachable log c) (hnew : ∀ n, log url n = none)
    {n : Version} {adds : List Kernel.Add} (hactive : (c.shared.log url).Active n adds)
    (km : Kernel.Metadata) : ∃ sent : List Pb.AddFile, (sent.map (·.path)).Nodup ∧
      (∀ a, a ∈ sent ↔ firstAbout (D.sentReplay (c.shared.log url) n) a.path = some ⟨some (.add a)⟩) ∧
      List.Forall₂ (D.Lists km) sent (D.listed km adds) := by
  obtain ⟨handed, hmapped, hsame⟩ := h.sent_mapped hnew n
  obtain ⟨sent, hsent⟩ : ∃ sent, List.Forall₂ (fun (a : Pb.AddFile) k =>
      mapAction D.cr ⟨some (.add a)⟩ = .ok (.add k) ∧
        firstAbout (D.sentReplay (c.shared.log url) n) a.path = some ⟨some (.add a)⟩) sent adds :=
    Related.forall₂_exists_list fun k hk => (active_iff_sent hmapped hsame).1 ((hactive.2 k).1 hk)
  refine ⟨sent, ?_, fun a => ⟨fun ha => ?_, fun ha => ?_⟩, ?_⟩
  · -- each path once, as each active file is there once
    have hkeys : (sent.map (·.path)).map (fun path => some (path, none)) =
        adds.map fun k => (Kernel.Action.add k).file := by
      rw [List.map_map, ← List.forall₂_eq_eq_eq, List.forall₂_map_left_iff, List.forall₂_map_right_iff]
      exact hsent.imp fun a k hk => (mapAction_file hk.1).symm
    have hnodup := hactive.1
    rw [← hkeys] at hnodup
    exact hnodup.of_map
  · obtain ⟨k, -, -, hfirst⟩ := Related.forall₂_exists_left hsent.flip ha
    exact hfirst
  · -- it is mapped to an active file, and the AddFile of this one is about the same path
    obtain ⟨-, before, after, hsplit, -⟩ := Related.firstWith_eq_some_iff.1 ha
    have hmem : (⟨some (.add a)⟩ : Pb.Action) ∈ D.sentReplay (c.shared.log url) n := by
      rw [hsplit]
      exact List.mem_append_right _ List.mem_cons_self
    obtain ⟨y, -, hy⟩ := Related.forall₂_exists_left hmapped.flip hmem
    obtain ⟨k, hk, rfl⟩ := Traverse.map_eq_ok hy
    have hka := (hactive.2 k).2 ((active_iff_sent hmapped hsame).2 ⟨a, hy, ha⟩)
    obtain ⟨a', ha', hk', hfirst⟩ := Related.forall₂_exists_left hsent hka
    obtain ⟨f, hf, hpath, -⟩ := mapAction_add hy
    obtain ⟨f', hf', hpath', -⟩ := mapAction_add hk'
    cases hf
    cases hf'
    rw [← hpath', hpath, ha] at hfirst
    cases hfirst
    exact ha'
  · rw [listed, List.forall₂_map_right_iff]
    refine hsent.imp fun a k hk => ⟨k, hk.1, rfl, fun hv hjson => hv.readBack hk.1 hjson⟩

/-- **What one client lists is what the others have committed.** A ListActiveFiles on a table that was
created here has sent nothing, or one error, or the header of a version and then the files that have
an AddFile as the first action about them, from that version down, each once, and as this AddFile. If
it has ended, its client has listened to the end and the last item is no error, these are all of
them. -/
theorem deployment_files_round_trip (hlog : LogsContiguous log) (h : D.Reachable log c)
    {r : Pb.ListActiveFilesRequest} (hrpc : D.rpc i = .listActiveFiles r)
    (hres : D.resolve i r.tableUri = .ok url) (hnew : ∀ n, log url n = none) :
    (streamChannel.sent (c.callsOf i) = [] ∧ ¬ c.Answered i (.listActiveFiles (.ok ()))) ∨
      (∃ st, streamChannel.sent (c.callsOf i) = [.error st]) ∨
      ∃ n m p km sent files, D.Sends c i n m p files ∧ (sent.map Pb.AddFile.path).Nodup ∧
        (∀ a, a ∈ sent ↔ firstAbout (D.sentReplay (c.shared.log url) n) a.path = some ⟨some (.add a)⟩) ∧
        List.Forall₂ (D.Lists km) sent files := by
  rcases h.sends hlog hrpc with hnone | hfailed | ⟨url', n, m, p, km, adds, hres', -, -, hactive, hsends⟩
  · exact Or.inl hnone
  · exact Or.inr (Or.inl hfailed)
  rw [hres] at hres'
  cases hres'
  obtain ⟨sent, hnodup, hfirst, hlists⟩ := h.active_sent hnew hactive km
  exact Or.inr (Or.inr ⟨n, m, p, km, sent, _, hsends, hnodup, hfirst, hlists⟩)

/-- The listing of the table of orders, which has ended. -/
theorem deployment_files_round_trip_orders : ∃ c, ordersDeployment.Reachable ordersLog c ∧
    ((∃ st, streamChannel.sent (c.callsOf .list) = [.error st]) ∨
      ∃ n km sent files,
        (∀ a, a ∈ sent ↔ firstAbout (ordersDeployment.sentReplay (c.shared.log ordersUrl) n) a.path =
          some ⟨some (.add a)⟩) ∧
        List.Forall₂ (ordersDeployment.Lists km) sent files ∧
        (filesOf (streamChannel.sent (c.callsOf .list)) = files ∨
          ∃ st, (streamChannel.sent (c.callsOf .list)).getLast? = some (.error st))) := by
  obtain ⟨c₁, c₂, h⟩ := orders_run
  have hreach : ordersDeployment.Reachable ordersLog c₂ := h.first.trans h.rest
  refine ⟨c₂, hreach, ?_⟩
  have hres : ordersDeployment.resolve .list "s3://bucket/orders" = .ok ordersUrl := rfl
  rcases deployment_files_round_trip (r := ⟨"s3://bucket/orders"⟩) ordersLog_contiguous hreach rfl hres
    fun _ => rfl with ⟨-, hno⟩ | hfailed | ⟨n, m, p, km, sent, files, hsends, -, hfirst, hlists⟩
  · exact absurd h.listed.answered hno
  · exact Or.inl hfailed
  · exact Or.inr ⟨n, km, sent, files, hfirst, hlists,
      hsends.complete h.listed.answered fun x hx => (h.listed.smooth x hx).taken⟩

end DeltaTxn
