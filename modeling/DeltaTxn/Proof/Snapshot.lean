import DeltaTxn.Data.Related
import DeltaTxn.Proof.Creation
import DeltaTxn.Proof.Definition
import DeltaTxn.Proof.Entries

/-!
# What a version looks like

A version of a table looks the same to everyone and at all times: it is made up of the entries up to
it, and these are never changed. So what GetTable answers and what ListActiveFiles sends is a
function of the log and of the version, although the two read the table without any lock, while
others write to it.

* `Reachable.shows`: what was opened at a version still is what the log has up to it.
* `deployment_definition_stable`: one version, one definition.
* `deployment_definition_committed`: it is the one that was committed last.
* `deployment_listing`: the files of a listing are the active files of its version.
* `deployment_listing_stable`: one version, one listing.
-/

namespace DeltaTxn

open Conc

variable {ρ ι : Type}

/-! ## A log up to a version -/

/-- A version on the wire is one version. -/
theorem eq_of_toInt64 {n m : Version} (h : n.toInt64 = m.toInt64) : n = m := by
  rw [← UInt64.toUInt64_toInt64 n, h, UInt64.toUInt64_toInt64]

variable [DecidableEq ρ] [DecidableEq ι] {D : Deployment ρ ι}
  {log : Url → Version → Option (List Kernel.Action)} {c c' : D.State} {i j : ι} {url : Url}
  {n : Version}

/-- **The log up to a version** stays as it is, once there is no gap below that version. -/
theorem Deployment.replay_persists (hc : (c.shared.log url).Contiguous)
    (hn : (c.shared.log url n).isSome = true) (h : Config.Reach D.machine c c') :
    (c'.shared.log url).replay n = (c.shared.log url).replay n := by
  unfold Log.replay
  refine List.flatMap_congr fun k hk => ?_
  have hlt := List.mem_range.1 (List.mem_reverse.1 hk)
  have hnlt := n.toNat_lt_size
  have hk' : (UInt64.ofNat k).toNat = k := Log.ListedBy.toNat_ofNat (by omega)
  have hle : UInt64.ofNat k ≤ n := by
    rw [UInt64.le_iff_toNat_le, hk']
    omega
  obtain ⟨e, he⟩ := Option.isSome_iff_exists.1 (hc _ n hle hn)
  rw [Deployment.entry_persists h he, he]

namespace Deployment

/-- **An opened table** shows what the log has up to its version, also later on. -/
theorem Reachable.shows (hlog : LogsContiguous log) (h : D.Reachable log c) {opts : HashMap String}
    {s : DeltaTableState} (hx : (i, ⟨.openTable url opts, .ok (.ok s)⟩) ∈ c.calls) :
    Shows D.view ((c.shared.log url).replay s.version) s := by
  -- it showed this when it was opened, and there was no gap below its version by then
  obtain ⟨c₁, c₂, h₁, hst, hcalls, h₂⟩ := Config.Reach.at_call h rfl hx
  have h₁' : D.Reachable log c₁ := h₁
  obtain ⟨⟨-, hlatest⟩, hshows⟩ := hst.exec_of_calls hcalls
  rw [replay_persists (h₁'.contiguous hlog url) (hlatest s rfl).1 (.head hst h₂)]
  exact hshows

/-- `m` and `p` are what the table looks like at version `n` of the log. -/
def Defines (D : Deployment ρ ι) (g : Log ι) (n : Version) (m : Pb.TableMetadata) (p : Pb.Protocol) :
    Prop :=
  ∃ s : DeltaTableState, findMetadata (g.replay n) = some s.metadata ∧
    findProtocol (g.replay n) = some s.protocol ∧ buildMetadataAndProtocol D.cr s = .ok (m, p)

/-- Request `i` has told its client that this is version `n` of its table: a GetTable in its answer,
a ListActiveFiles in its header. -/
inductive Shown (c : D.State) (i : ι) (n : Int64) (m : Pb.TableMetadata) (p : Pb.Protocol) : Prop
  | getTable (h : c.Answered i (.getTable (.ok ⟨n, some m, some p⟩)))
  | header (b : Except Unit Unit)
      (h : (i, ⟨.send (.ok ⟨some (.header ⟨n, some m, some p⟩)⟩), b⟩) ∈ c.calls)

/-- A snapshot gives the definition that the log has. -/
theorem defines_of_read (hlog : LogsContiguous log) (h : D.Reachable log c)
    {srv : DeltaTxnGrpcServer} {s : DeltaTableState} {m : Pb.TableMetadata} {p : Pb.Protocol}
    (hread : ∀ y ∈ readCalls srv url s, (i, y) ∈ c.calls)
    (hbuild : buildMetadataAndProtocol D.cr s = .ok (m, p)) :
    D.Defines (c.shared.log url) s.version m p := by
  have hshows := h.shows hlog (hread ⟨.openTable url srv.storageOpts, .ok (.ok s)⟩
    (by simp [readCalls]))
  exact ⟨s, hshows.metadata, hshows.protocol, hbuild⟩

/-- **What a client is shown** is what the log has at that version. -/
theorem Shown.defines (hlog : LogsContiguous log) (h : D.Reachable log c) {v : Int64}
    {m : Pb.TableMetadata} {p : Pb.Protocol} (hs : D.Shown c i v m p) :
    ∃ url n, D.resolve i (D.rpc i).tableUri = .ok url ∧ v = n.toInt64 ∧
      D.Defines (c.shared.log url) n m p := by
  have hmem : ∀ y ∈ c.callsOf i, (i, y) ∈ c.calls := fun y hy => Config.mem_callsOf.1 hy
  cases hs with
  | getTable ha =>
    obtain ⟨r, hrpc, hget⟩ := h.getTable_answered ha
    rcases guarded_parts hget with ⟨-, hno⟩ | ⟨url, calls', hcalls, -, hbody⟩
    · exact absurd rfl (hno _)
    obtain ⟨s, m', p', rfl, hbuild, heq⟩ := getTableChecked_runs hbody
    cases heq
    rw [hcalls] at hmem
    rw [hrpc]
    exact ⟨url, s.version, h.resolved (hmem _ List.mem_cons_self), rfl,
      defines_of_read hlog h (fun y hy => hmem y (List.mem_cons_of_mem _ hy)) hbuild⟩
  | header b hsend =>
    obtain ⟨r, hrpc, url, s, m', p', hres, hread, hbuild, hheader⟩ := h.header_sent hsend
    cases hheader
    rw [hrpc]
    exact ⟨url, s.version, hres, rfl, defines_of_read hlog h hread hbuild⟩

omit [DecidableEq ρ] [DecidableEq ι] in
/-- The log has one definition at a version. -/
theorem Defines.unique {g : Log ι} {m m' : Pb.TableMetadata} {p p' : Pb.Protocol}
    (h : D.Defines g n m p) (h' : D.Defines g n m' p') : m = m' ∧ p = p' := by
  obtain ⟨s, hm, hp, hbuild⟩ := h
  obtain ⟨s', hm', hp', hbuild'⟩ := h'
  have hmetadata : s'.metadata = s.metadata := Option.some.inj (hm'.symm.trans hm)
  have hprotocol : s'.protocol = s.protocol := Option.some.inj (hp'.symm.trans hp)
  -- of a snapshot only these two are read
  have hsame : buildMetadataAndProtocol D.cr s' = buildMetadataAndProtocol D.cr s := by
    unfold buildMetadataAndProtocol
    rw [hmetadata, hprotocol]
  rw [hsame, hbuild] at hbuild'
  cases hbuild'
  exact ⟨rfl, rfl⟩

end Deployment

/-- **One version, one definition.** Whatever two requests show their clients as the same version of
a table, a GetTable in its answer or a ListActiveFiles in its header, is the same, at any replicas
and at any moments, whatever is written in between. -/
theorem deployment_definition_stable (hlog : LogsContiguous log) (h : D.Reachable log c) {v : Int64}
    {m m' : Pb.TableMetadata} {p p' : Pb.Protocol} (hi : D.Shown c i v m p) (hj : D.Shown c j v m' p')
    (hsame : D.resolve i (D.rpc i).tableUri = D.resolve j (D.rpc j).tableUri) : m = m' ∧ p = p' := by
  obtain ⟨url, n, hres, hv, hdef⟩ := hi.defines hlog h
  obtain ⟨url', n', hres', hv', hdef'⟩ := hj.defines hlog h
  rw [hsame, hres'] at hres
  cases hres
  obtain rfl := eq_of_toInt64 (hv.symm.trans hv')
  exact hdef.unique hdef'

/-- What the listing of the table of orders shows as version 0 is what GetTable has answered. -/
theorem deployment_definition_stable_orders : ∃ c, ordersDeployment.Reachable ordersLog c ∧
    ordersDeployment.Shown c .get 0 ordersShown ⟨1, 2⟩ ∧
    ∀ m p, ordersDeployment.Shown c .list 0 m p → m = ordersShown ∧ p = ⟨1, 2⟩ := by
  obtain ⟨c₁, c₂, h⟩ := orders_run
  have hreach : ordersDeployment.Reachable ordersLog c₂ := h.first.trans h.rest
  have hget : ordersDeployment.Shown c₂ .get 0 ordersShown ⟨1, 2⟩ := .getTable h.got
  refine ⟨c₂, hreach, hget, fun m p hlist => ?_⟩
  exact deployment_definition_stable ordersLog_contiguous hreach hlist hget rfl

/-! ## The definition that was committed last -/

/-- A scan of the numbers from `N` down finds at `w` what it does not find above. -/
theorem findSome?_range_reverse {β : Type} {f : ℕ → Option β} {w N : ℕ} {x : β} (hw : f w = some x)
    (hwN : w ≤ N) (habove : ∀ k, w < k → k ≤ N → f k = none) :
    (List.range (N + 1)).reverse.findSome? f = some x := by
  induction N with
  | zero =>
    obtain rfl : w = 0 := by omega
    simpa using hw
  | succ N ih =>
    rw [List.range_succ, List.reverse_append, List.reverse_singleton, List.singleton_append,
      List.findSome?_cons]
    by_cases hlt : w ≤ N
    · rw [habove (N + 1) (by omega) le_rfl]
      exact ih hlt fun k hk hkN => habove k hk (by omega)
    · obtain rfl : w = N + 1 := by omega
      rw [hw]

omit [DecidableEq ι] in
/-- **A scan of the replay** finds in the latest version that has any what it finds there first. -/
theorem Log.findSome?_replay {β : Type} {g : Log ι} {f : Kernel.Action → Option β} {x : β} {w : Version}
    {e : LogEntry ι} (hw : g w = some e) (hwn : w ≤ n) (hx : e.actions.findSome? f = some x)
    (hlater : ∀ w' e', w < w' → w' ≤ n → g w' = some e' → e'.actions.findSome? f = none) :
    (g.replay n).findSome? f = some x := by
  unfold Log.replay
  rw [← List.head?_filterMap, List.filterMap_flatMap, List.head?_flatMap]
  simp only [List.head?_filterMap]
  refine findSome?_range_reverse (w := w.toNat) ?_ (UInt64.le_iff_toNat_le.1 hwn) fun k hlt hle => ?_
  · rw [UInt64.ofNat_toNat, hw]
    exact hx
  · have hn := n.toNat_lt_size
    have hk : (UInt64.ofNat k).toNat = k := Log.ListedBy.toNat_ofNat (by omega)
    cases hg : g (UInt64.ofNat k) with
    | none => rfl
    | some e' =>
      exact hlater _ e' (by rwa [UInt64.lt_iff_toNat_lt, hk]) (by rwa [UInt64.le_iff_toNat_le, hk]) hg

namespace Deployment

variable {α β : Type} {toWire : Pb.Action → Option α} {toKernel : Kernel.Action → Option β}

/-- The latest version up to `n` that has any action of one kind is of a Commit whose first one is `x`.
The kind is `toWire` on the wire and `toKernel` in the log. -/
def Latest (D : Deployment ρ ι) (toWire : Pb.Action → Option α) (toKernel : Kernel.Action → Option β)
    (c : D.State) (url : Url) (n : Version) (x : α) : Prop :=
  ∃ j r w e, D.rpc j = .commit r ∧ (r.actions.filterMap toWire).head? = some x ∧
    c.shared.log url w = some e ∧ e.author = some j ∧ w ≤ n ∧
    ∀ w' e', w < w' → w' ≤ n → c.shared.log url w' = some e' → e'.actions.filterMap toKernel = []

/-- The latest version up to `n` that has any TableMetadata is of a Commit whose first one is `m`. -/
def LatestMetadata (c : D.State) (url : Url) (n : Version) (m : Pb.TableMetadata) : Prop :=
  D.Latest Pb.Action.toMetadata Kernel.Action.toMetadata c url n m

/-- The latest version up to `n` that has any Protocol is of a Commit whose first one is `p`. -/
def LatestProtocol (c : D.State) (url : Url) (n : Version) (p : Pb.Protocol) : Prop :=
  D.Latest Pb.Action.toProtocol Kernel.Action.toProtocol c url n p

/-- An entry has the mapped actions of its Commit. -/
theorem Reachable.entry_maps (h : D.Reachable log c) {r : Pb.CommitRequest} {e : LogEntry ι}
    (hrpc : D.rpc j = .commit r) (he : c.shared.log url n = some e) (hj : e.author = some j) :
    ∃ actions, mapActions D.cr r.actions = .ok actions ∧ Logged actions e.actions := by
  rcases h.entry_cases he with ⟨hnone, -⟩ | ⟨j', base, actions, op, b, hj', hlogged, hx⟩
  · rw [hnone] at hj
    cases hj
  · rw [hj] at hj'
    cases hj'
    obtain ⟨r', hrpc', hmap, -⟩ := h.write_serves hx
    rw [hrpc] at hrpc'
    cases hrpc'
    exact ⟨actions, hmap, hlogged⟩

/-- **What the replay finds first** is what the Commit of that version sent first. -/
theorem Latest.mapped {R : α → β → Prop} (h : D.Reachable log c)
    (hR : ∀ a k, mapAction D.cr a = .ok k → Option.Rel R (toWire a) (toKernel k))
    (hinfo : ∀ ci, toKernel (.commitInfo ci) = none) {x : α} (hx : D.Latest toWire toKernel c url n x) :
    ∃ y, R x y ∧ ((c.shared.log url).replay n).findSome? toKernel = some y := by
  obtain ⟨j, r, w, e, hrpc, hfirst, he, hj, hwn, hlater⟩ := hx
  obtain ⟨actions, hmap, hlogged⟩ := h.entry_maps hrpc he hj
  have hkind : List.Forall₂ R (r.actions.filterMap toWire) (actions.filterMap toKernel) :=
    List.rel_filterMap (fun a k => hR a k) (mapActions_forall₂ hmap)
  obtain ⟨y, hhead, hy⟩ := Related.forall₂_head hkind hfirst
  rw [List.head?_filterMap] at hhead
  refine ⟨y, hy, Log.findSome?_replay he hwn ((hlogged.findSome?_eq hinfo).trans hhead) ?_⟩
  intro w' e' hlt hle he'
  rw [← List.head?_filterMap, hlater w' e' hlt hle he']
  rfl

theorem LatestMetadata.mapped (h : D.Reachable log c) {m : Pb.TableMetadata}
    (hm : D.LatestMetadata c url n m) :
    ∃ km, mapMetadata D.cr m = .ok km ∧ findMetadata ((c.shared.log url).replay n) = some km :=
  Latest.mapped h (fun _ _ hak => (mapAction_definitions hak).2) (fun _ => rfl) hm

theorem LatestProtocol.mapped (h : D.Reachable log c) {p : Pb.Protocol}
    (hp : D.LatestProtocol c url n p) :
    ∃ kp, mapProtocol D.cr p = .ok kp ∧ findProtocol ((c.shared.log url).replay n) = some kp :=
  Latest.mapped h (fun _ _ hak => (mapAction_definitions hak).1) (fun _ => rfl) hp

end Deployment

/-- **What is shown is what was committed last.** At every version, GetTable and ListActiveFiles show
the TableMetadata and the Protocol of the last Commits up to it that had any, as their clients sent
them, the first ones if they sent several; only the schema is written out anew. -/
theorem deployment_definition_committed (hcr : D.cr.FillsFields) (hlog : LogsContiguous log)
    (h : D.Reachable log c) {m m' : Pb.TableMetadata} {p p' : Pb.Protocol} {schema : StructType}
    {text : String} (hres : D.resolve i (D.rpc i).tableUri = .ok url)
    (hi : D.Shown c i n.toInt64 m' p') (hm : D.LatestMetadata c url n m)
    (hp : D.LatestProtocol c url n p)
    (hparse : D.cr.parseSchema m.schemaString = .ok schema)
    (htext : D.cr.schemaToString schema = .ok text) :
    m' = { m with schemaString := text } ∧ p' = p := by
  obtain ⟨url', n', hres', hn, s, hsm, hsp, hbuild⟩ := hi.defines hlog h
  rw [hres] at hres'
  cases hres'
  obtain rfl := eq_of_toInt64 hn
  obtain ⟨km, hkm, hfm⟩ := hm.mapped h
  obtain ⟨kp, hkp, hfp⟩ := hp.mapped h
  have hholds : s.Holds km kp :=
    ⟨Option.some.inj (hsm.symm.trans hfm), Option.some.inj (hsp.symm.trans hfp)⟩
  rw [definition_read hcr hkm hkp hparse htext hholds] at hbuild
  cases hbuild
  exact ⟨rfl, rfl⟩

/-- GetTable shows the table of orders as it was committed, with its schema written out anew. -/
theorem deployment_definition_committed_orders : ∃ c, ordersDeployment.Reachable ordersLog c ∧
    ordersDeployment.LatestMetadata c ordersUrl 0 ordersDefinition ∧
    ∀ m p, ordersDeployment.Shown c .get 0 m p →
      m = { ordersDefinition with schemaString := compactSchema } ∧ p = ⟨1, 2⟩ := by
  obtain ⟨c₁, c₂, h⟩ := orders_run
  have hreach : ordersDeployment.Reachable ordersLog c₂ := h.first.trans h.rest
  have hlast : ∀ w' : Version, 0 < w' → ¬ w' ≤ 0 := fun w' hlt hle => absurd hlt (UInt64.not_lt.2 hle)
  have hm : ordersDeployment.LatestMetadata c₂ ordersUrl 0 ordersDefinition :=
    ⟨.create, ordersCreate, 0, _, rfl, rfl, h.entry, rfl, by decide, fun w' _ hlt hle =>
      absurd hle (hlast w' hlt)⟩
  have hp : ordersDeployment.LatestProtocol c₂ ordersUrl 0 ⟨1, 2⟩ :=
    ⟨.create, ordersCreate, 0, _, rfl, rfl, h.entry, rfl, by decide, fun w' _ hlt hle =>
      absurd hle (hlast w' hlt)⟩
  refine ⟨c₂, hreach, hm, fun m p hshown => ?_⟩
  exact deployment_definition_committed (n := 0) ordersCrates_fillsFields ordersLog_contiguous hreach rfl
    hshown hm hp ordersCrates_parse rfl

/-! ## The files of a listing -/

/-- The files that items of a ListActiveFiles carry. -/
def filesOf (items : List StreamItem) : List Pb.AddFile :=
  items.flatMap fun
    | .ok ⟨some (.batch b)⟩ => b.files
    | _ => []

theorem filesOf_batchItems (batches : List (List Pb.AddFile)) :
    filesOf (batchItems batches) = batches.flatten := by
  unfold filesOf batchItems
  rw [List.flatMap_map]
  exact List.flatMap_id

/-- The files of a listing that is complete, and of one that its file stream has cut short. -/
theorem Framed.files {cr : Crates} {s : DeltaTableState} {header : Pb.ListActiveFilesResponse}
    {full : List StreamItem} {views : List LogicalFileView} (h : Framed cr s header full)
    (hheader : filesOf [.ok header] = []) (hviews : Yields s.fileViews views) :
    (∃ rest, full = .ok header :: rest) ∧ filesOf full <+: views.map (fileViewToPb cr) ∧
      (filesOf full = views.map (fileViewToPb cr) ∨ ∃ st, full.getLast? = some (.error st)) := by
  have hlisting : ∀ batches, filesOf (listing header batches) = batches.flatten := by
    intro batches
    have hcons : filesOf (listing header batches) =
        filesOf [.ok header] ++ filesOf (batchItems batches) := by
      unfold filesOf listing
      rw [← List.flatMap_append, List.singleton_append]
    rw [hcons, hheader, List.nil_append, filesOf_batchItems]
  rcases hviews with hall | ⟨before, e, rest, hbefore, hcut⟩
  · obtain ⟨batches, -, hflat, rfl⟩ := h.complete views hall
    rw [hlisting, hflat]
    exact ⟨⟨_, rfl⟩, List.prefix_rfl, Or.inl rfl⟩
  · obtain ⟨batches, -, hflat, rfl⟩ := h.failed before e rest hcut
    have happend : filesOf (listing header batches ++ [.error streamError]) = batches.flatten := by
      unfold filesOf
      rw [List.flatMap_append]
      exact (List.append_nil _).trans (hlisting batches)
    rw [happend]
    refine ⟨⟨_, rfl⟩, hflat.trans (hbefore.map _), Or.inr ⟨streamError, ?_⟩⟩
    rw [List.getLast?_append]
    rfl

/-- The active files of the table at version `n` of the log, each once. -/
def Log.Active (g : Log ι) (n : Version) (adds : List Kernel.Add) : Prop :=
  (adds.map fun a => (Kernel.Action.add a).file).Nodup ∧
    ∀ a, a ∈ adds ↔ ActiveIn (g.replay n) a

/-- How active files of a table with this metadata are listed. -/
def Deployment.listed (D : Deployment ρ ι) (km : Kernel.Metadata) (adds : List Kernel.Add) :
    List Pb.AddFile :=
  adds.map fun a => fileViewToPb D.cr (D.view km a)

namespace Deployment

/-- **What ListActiveFiles `i` has sent is `files`, at version `n`**: the header of that version and
after it the first of the files. If it has ended, its client has listened to the end and the last item
is no error, these are all of them. -/
structure Sends (c : D.State) (i : ι) (n : Version) (m : Pb.TableMetadata) (p : Pb.Protocol)
    (files : List Pb.AddFile) : Prop where
  header : ∀ item, (streamChannel.sent (c.callsOf i)).head? = some item →
    item = .ok ⟨some (.header ⟨n.toInt64, some m, some p⟩)⟩
  sent : filesOf (streamChannel.sent (c.callsOf i)) <+: files
  complete : c.Answered i (.listActiveFiles (.ok ())) → (∀ x ∈ c.callsOf i, streamChannel.Taken x) →
    filesOf (streamChannel.sent (c.callsOf i)) = files ∨
      ∃ st, (streamChannel.sent (c.callsOf i)).getLast? = some (.error st)

/-- What a ListActiveFiles has sent: nothing, one error, or active files of a version. -/
theorem Reachable.sends (hlog : LogsContiguous log) (h : D.Reachable log c)
    {r : Pb.ListActiveFilesRequest} (hrpc : D.rpc i = .listActiveFiles r) :
    (streamChannel.sent (c.callsOf i) = [] ∧ ¬ c.Answered i (.listActiveFiles (.ok ()))) ∨
      (∃ st, streamChannel.sent (c.callsOf i) = [.error st]) ∨
      ∃ url n m p km adds, D.resolve i r.tableUri = .ok url ∧ D.Defines (c.shared.log url) n m p ∧
        findMetadata ((c.shared.log url).replay n) = some km ∧
        (c.shared.log url).Active n adds ∧ D.Sends c i n m p (D.listed km adds) := by
  rcases h.listing hrpc with hnone | hfailed | ⟨url, s, m, p, full, hres, hread, hbuild, hframed, hinit,
    hfull⟩
  · exact Or.inl hnone
  · exact Or.inr (Or.inl hfailed)
  have hdefines := Deployment.defines_of_read hlog h hread hbuild
  have hopen := hread ⟨.openTable url (D.srv (D.home i)).storageOpts, .ok (.ok s)⟩ (by simp [readCalls])
  have hshows := h.shows hlog hopen
  obtain ⟨adds, hnodup, hactive, hyields⟩ := hshows.files
  obtain ⟨⟨rest, hhead⟩, hfiles, hend⟩ := hframed.files rfl hyields
  rw [List.map_map] at hfiles hend
  refine Or.inr (Or.inr ⟨url, s.version, m, p, s.metadata, adds, hres, hdefines, hshows.metadata,
    ⟨hnodup, hactive⟩, fun item hitem => ?_, (hinit.flatMap _).trans hfiles, fun ha htaken => ?_⟩)
  · -- what was sent begins as the whole listing does
    rw [hhead] at hinit
    generalize streamChannel.sent (c.callsOf i) = items at hinit hitem
    cases items with
    | nil => cases hitem
    | cons first items =>
      cases hitem
      obtain ⟨rfl, -⟩ := List.cons_prefix_cons.1 hinit
      rfl
  · rw [hfull ha htaken]
    exact hend

end Deployment

/-- **The files of a listing are the active files of its version.** While others commit to the table,
and wherever its client stops listening, a ListActiveFiles has sent nothing, or one error, or the
header of a version and after it files that are active there, each once. If it has ended, its client
has listened to the end and the last item is no error, these are all of them. -/
theorem deployment_listing (hlog : LogsContiguous log) (h : D.Reachable log c)
    {r : Pb.ListActiveFilesRequest} (hrpc : D.rpc i = .listActiveFiles r) :
    (streamChannel.sent (c.callsOf i) = [] ∧ ¬ c.Answered i (.listActiveFiles (.ok ()))) ∨
      (∃ st, streamChannel.sent (c.callsOf i) = [.error st]) ∨
      ∃ url n m p km adds, D.resolve i r.tableUri = .ok url ∧ D.Defines (c.shared.log url) n m p ∧
        findMetadata ((c.shared.log url).replay n) = some km ∧
        (c.shared.log url).Active n adds ∧
        (∀ item, (streamChannel.sent (c.callsOf i)).head? = some item →
          item = .ok ⟨some (.header ⟨n.toInt64, some m, some p⟩)⟩) ∧
        filesOf (streamChannel.sent (c.callsOf i)) <+: D.listed km adds ∧
        (c.Answered i (.listActiveFiles (.ok ())) →
          (∀ x ∈ c.callsOf i, streamChannel.Taken x) →
          filesOf (streamChannel.sent (c.callsOf i)) = D.listed km adds ∨
            ∃ st, (streamChannel.sent (c.callsOf i)).getLast? = some (.error st)) := by
  rcases h.sends hlog hrpc with hnone | hfailed | ⟨url, n, m, p, km, adds, hres, hdefines, hmeta, hactive,
    hsends⟩
  · exact Or.inl hnone
  · exact Or.inr (Or.inl hfailed)
  · exact Or.inr (Or.inr ⟨url, n, m, p, km, adds, hres, hdefines, hmeta, hactive, hsends.header,
      hsends.sent, hsends.complete⟩)

/-- The listing of the table of orders, which has ended. -/
theorem deployment_listing_orders : ∃ c, ordersDeployment.Reachable ordersLog c ∧
    ((∃ st, streamChannel.sent (c.callsOf .list) = [.error st]) ∨
      ∃ url n km adds, (c.shared.log url).Active n adds ∧
        (filesOf (streamChannel.sent (c.callsOf .list)) = ordersDeployment.listed km adds ∨
          ∃ st, (streamChannel.sent (c.callsOf .list)).getLast? = some (.error st))) := by
  obtain ⟨c₁, c₂, h⟩ := orders_run
  have hreach : ordersDeployment.Reachable ordersLog c₂ := h.first.trans h.rest
  refine ⟨c₂, hreach, ?_⟩
  rcases deployment_listing (i := .list) ordersLog_contiguous hreach rfl with
    ⟨-, hno⟩ | hfailed | ⟨url, n, m, p, km, adds, -, -, -, hactive, -, -, hfull⟩
  · exact absurd h.listed.answered hno
  · exact Or.inl hfailed
  · exact Or.inr ⟨url, n, km, adds, hactive,
      hfull h.listed.answered fun x hx => (h.listed.smooth x hx).taken⟩

/-! ## Two listings of one version -/

/-- ListActiveFiles `i` has sent a whole listing: it has ended, its client has taken every message, and
none of them is an error. -/
structure Deployment.Whole (c : D.State) (i : ι) : Prop where
  answered : c.Answered i (.listActiveFiles (.ok ()))
  taken : ∀ x ∈ c.callsOf i, streamChannel.Taken x
  noError : ∀ st, .error st ∉ streamChannel.sent (c.callsOf i)

omit [DecidableEq ρ] in
/-- A whole listing has all the files. -/
theorem Deployment.Sends.whole {c : D.State} {m : Pb.TableMetadata} {p : Pb.Protocol}
    {files : List Pb.AddFile} (h : D.Sends c i n m p files) (hw : D.Whole c i) :
    filesOf (streamChannel.sent (c.callsOf i)) = files := by
  rcases h.complete hw.answered hw.taken with hfiles | ⟨st, hlast⟩
  · exact hfiles
  · exact absurd (List.mem_of_getLast? hlast) (hw.noError st)

/-- A listing with a header is one of the version in it. -/
theorem Deployment.Reachable.sends_header (hlog : LogsContiguous log) (h : D.Reachable log c)
    {r : Pb.ListActiveFilesRequest} (hrpc : D.rpc i = .listActiveFiles r) {hd : Pb.ListActiveFilesHeader}
    (hhead : (streamChannel.sent (c.callsOf i)).head? = some (.ok ⟨some (.header hd)⟩)) :
    ∃ url n m p km adds, D.resolve i r.tableUri = .ok url ∧ D.Defines (c.shared.log url) n m p ∧
      findMetadata ((c.shared.log url).replay n) = some km ∧
      (c.shared.log url).Active n adds ∧ D.Sends c i n m p (D.listed km adds) ∧
      hd = ⟨n.toInt64, some m, some p⟩ := by
  rcases h.sends hlog hrpc with ⟨hnone, -⟩ | ⟨st, hfailed⟩ | ⟨url, n, m, p, km, adds, hres, hdef, hkm,
    hactive, hs⟩
  · rw [hnone] at hhead
    cases hhead
  · rw [hfailed] at hhead
    cases hhead
  · have hitem := hs.header _ hhead
    cases hitem
    exact ⟨url, n, m, p, km, adds, hres, hdef, hkm, hactive, hs, rfl⟩

omit [DecidableEq ρ] [DecidableEq ι] in
/-- The active files of a version are the same in any order. -/
theorem Log.Active.perm {g : Log ι} {adds adds' : List Kernel.Add} (h : g.Active n adds)
    (h' : g.Active n adds') : adds.Perm adds' :=
  (List.perm_ext_iff_of_nodup h.1.of_map h'.1.of_map).2 fun a => (h.2 a).trans (h'.2 a).symm

/-- **One version, one listing.** Two ListActiveFiles whose headers name the same version of a table, at
any replicas and at any moments, have the same header. If one of them has sent a whole listing, what
the other has sent is among its files, each as often; and if both have, these are the same files. -/
theorem deployment_listing_stable (hlog : LogsContiguous log) (h : D.Reachable log c)
    {r r' : Pb.ListActiveFilesRequest} (hi : D.rpc i = .listActiveFiles r) (hj : D.rpc j = .listActiveFiles r')
    (hsame : D.resolve i r.tableUri = D.resolve j r'.tableUri) {hd hd' : Pb.ListActiveFilesHeader}
    (hhead : (streamChannel.sent (c.callsOf i)).head? = some (.ok ⟨some (.header hd)⟩))
    (hhead' : (streamChannel.sent (c.callsOf j)).head? = some (.ok ⟨some (.header hd')⟩))
    (hversion : hd.version = hd'.version) :
    hd = hd' ∧ (D.Whole c i → (filesOf (streamChannel.sent (c.callsOf j))).Subperm
        (filesOf (streamChannel.sent (c.callsOf i)))) ∧
      (D.Whole c i → D.Whole c j → (filesOf (streamChannel.sent (c.callsOf j))).Perm
        (filesOf (streamChannel.sent (c.callsOf i)))) := by
  obtain ⟨url, n, m, p, km, adds, hres, hdef, hkm, hactive, hs, rfl⟩ := h.sends_header hlog hi hhead
  obtain ⟨url', n', m', p', km', adds', hres', hdef', hkm', hactive', hs', rfl⟩ := h.sends_header hlog hj hhead'
  rw [hsame, hres'] at hres
  cases hres
  obtain rfl := eq_of_toInt64 hversion
  obtain ⟨rfl, rfl⟩ := hdef.unique hdef'
  cases hkm.symm.trans hkm'
  have hperm : (D.listed km adds').Perm (D.listed km adds) := (hactive'.perm hactive).map _
  refine ⟨rfl, fun hw => ?_, fun hw hw' => ?_⟩
  · rw [hs.whole hw]
    exact hs'.sent.sublist.subperm.trans hperm.subperm
  · rw [hs.whole hw, hs'.whole hw']
    exact hperm

/-- The two listings of the table of orders have sent the same files. -/
theorem deployment_listing_stable_orders : ∃ c, ordersDeployment.Reachable ordersLog c ∧
    ordersDeployment.Whole c .list ∧ ordersDeployment.Whole c .relist ∧
    (filesOf (streamChannel.sent (c.callsOf .relist))).Perm (filesOf (streamChannel.sent (c.callsOf .list))) := by
  obtain ⟨c₁, c₂, h⟩ := orders_run
  have hreach : ordersDeployment.Reachable ordersLog c₂ := h.first.trans h.rest
  have hwhole : ∀ i, OrdersListed c₂ i → ordersDeployment.Whole c₂ i := by
    intro i hi
    refine ⟨hi.answered, fun x hx => (hi.smooth x hx).taken, fun st hst => ?_⟩
    obtain ⟨⟨o, b⟩, hx, hitem⟩ := List.mem_filterMap.1 hst
    cases o with
    | send item =>
      cases hitem
      exact (hi.smooth _ hx).noError st rfl
    | _ => cases hitem
  obtain ⟨-, -, hperm⟩ := deployment_listing_stable (i := .list) (j := .relist) ordersLog_contiguous hreach
    rfl rfl rfl h.listed.head h.relisted.head rfl
  exact ⟨c₂, hreach, hwhole _ h.listed, hwhole _ h.relisted, hperm (hwhole _ h.listed) (hwhole _ h.relisted)⟩

end DeltaTxn
