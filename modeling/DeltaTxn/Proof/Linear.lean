import DeltaTxn.Proof.Replicas
import DeltaTxn.Proof.Undisturbed
import DeltaTxn.Spec.Ledger
import Mathlib.Data.Nat.Find

/-!
# A deployment is linearizable

Seen through the calls that its requests make, a deployment is one sequential ledger: each call
takes effect at the moment it is answered. No lock is needed for this, and none is shared by two
replicas; it rests on `CommitBuilder` alone, which puts a version only where none is, and on the
logs having no gaps. A write that was answered an error may have been an append all the same.

* `Log.ListedBy`: a log without gaps, as a list.
* `Ledger.Lists.step`: a call does to the world what an operation that it can be does.
* `Tells.point`: what a request has told its client was one of its own operations.
* `deployment_linearizable`: the two together, in every reachable state.
* `deployment_real_time`: the versions that clients are told never go back in time.
-/

namespace DeltaTxn

open Conc

variable {ρ ι : Type}

/-! ## A log as a list -/

/-- The entries of the log are those of `l`, in the order of their versions. -/
def Log.ListedBy (g : Log ι) (l : List (LogEntry ι)) : Prop :=
  l.length ≤ UInt64.size ∧ ∀ n, g n = l[n.toNat]?

namespace Log.ListedBy

variable {g : Log ι} {l : List (LogEntry ι)} {n : Version} {e : LogEntry ι}

theorem isSome_iff (h : g.ListedBy l) : (g n).isSome = true ↔ n.toNat < l.length := by
  rw [h.2 n, isSome_getElem?]

theorem ne_nil_iff (h : g.ListedBy l) : (∃ n, (g n).isSome = true) ↔ l ≠ [] := by
  constructor
  · rintro ⟨n, hn⟩ rfl
    have hlt := h.isSome_iff.1 hn
    simp at hlt
  · intro hl
    have hpos : 0 < l.length := List.length_pos_iff.2 hl
    exact ⟨0, h.isSome_iff.2 hpos⟩

/-- The version after the first `k`. -/
theorem toNat_ofNat {k : ℕ} (hk : k < UInt64.size) : (UInt64.ofNat k).toNat = k := by
  rw [UInt64.toNat_ofNat']
  exact Nat.mod_eq_of_lt hk

theorem latest (h : g.ListedBy l) (hn : g.Latest n) : n.toNat + 1 = l.length := by
  have hlt := h.isSome_iff.1 hn.1
  have hlen := h.1
  by_contra hne
  have hnext : (UInt64.ofNat (n.toNat + 1)).toNat = n.toNat + 1 := toNat_ofNat (by omega)
  have hlater : n < UInt64.ofNat (n.toNat + 1) := by
    rw [UInt64.lt_iff_toNat_lt, hnext]
    omega
  have hnone := hn.2 _ hlater
  have hsome : (g (UInt64.ofNat (n.toNat + 1))).isSome = true := by
    rw [h.isSome_iff, hnext]
    omega
  rw [hnone] at hsome
  cases hsome

/-- **A log without gaps that has grown by one version** has grown at its end. -/
theorem snoc (h : g.ListedBy l) (hfree : g n = none)
    (hc : Log.Contiguous (Function.update g n (some e))) :
    n.toNat = l.length ∧ Log.ListedBy (Function.update g n (some e)) (l ++ [e]) := by
  have hge : l.length ≤ n.toNat := by
    by_contra hlt
    have hsome := h.isSome_iff.2 (Nat.lt_of_not_le hlt)
    rw [hfree] at hsome
    cases hsome
  have hn := n.toNat_lt_size
  have hlen : n.toNat = l.length := by
    by_contra hne
    have hend : (UInt64.ofNat l.length).toNat = l.length := toNat_ofNat (by omega)
    have hbelow : UInt64.ofNat l.length ≤ n := by
      rw [UInt64.le_iff_toNat_le, hend]
      exact hge
    have hother : UInt64.ofNat l.length ≠ n := by
      intro heq
      rw [heq] at hend
      exact hne hend
    -- a gap right after the old end
    have hsome := hc _ n hbelow (by rw [Function.update_self]; rfl)
    rw [Function.update_of_ne hother, h.isSome_iff, hend] at hsome
    omega
  refine ⟨hlen, ?_, fun m => ?_⟩
  · rw [List.length_append, List.length_singleton]
    omega
  by_cases hm : m = n
  · subst hm
    rw [Function.update_self, hlen, List.getElem?_concat_length]
  · have hne : m.toNat ≠ l.length := by
      intro heq
      exact hm (UInt64.toNat_inj.1 (heq.trans hlen.symm))
    rw [Function.update_of_ne hm, h.2 m, List.getElem?_append]
    split
    · rfl
    · rename_i hge'
      have hgt : l.length + 1 ≤ m.toNat := by omega
      rw [List.getElem?_eq_none_iff.2 (by omega), List.getElem?_eq_none_iff.2 (by
        rw [List.length_singleton]
        omega)]

end Log.ListedBy

/-- The logs of the world are the lists of the ledger. -/
def Ledger.Lists (t : Ledger ι) (w : World ρ ι) : Prop := ∀ url, (w.log url).ListedBy (t url)

theorem Ledger.Lists.of_log {t : Ledger ι} {w w' : World ρ ι} (h : t.Lists w)
    (hlog : w'.log = w.log) : t.Lists w' := by
  intro url
  rw [hlog]
  exact h url

variable [DecidableEq ρ] {D : Deployment ρ ι} {i : ι} {w w' : World ρ ι} {t : Ledger ι} {x : Call}

omit [DecidableEq ρ] in
/-- A write that has landed and left no gap is an append. -/
theorem Ledger.Lists.landed {url : Url} {base : Option Version} {actions : List Kernel.Action}
    {n : Version} (ht : t.Lists w) (hx : w.Landed i url base actions n w') (hc : Replicas.NoGaps w') :
    ∃ logged, Logged actions logged ∧ t.Allows (.append url n ⟨some i, logged⟩) ∧
      (t.apply (.append url n ⟨some i, logged⟩)).Lists w' := by
  obtain ⟨hland, logged, hlogged, rfl⟩ := hx
  refine ⟨logged, hlogged, ?_⟩
  -- it has landed on a free version, and so on the next one
  have hgrown := hc url
  simp only [World.put, Function.update_self] at hgrown
  obtain ⟨hn, hlist⟩ := (ht url).snoc hland.1 hgrown
  refine ⟨hn, fun u => ?_⟩
  by_cases hu : u = url
  · subst hu
    simp only [World.put, Ledger.apply, Function.update_self]
    exact hlist
  · simp only [World.put, Ledger.apply, Function.update_of_ne hu]
    exact ht u

/-- **A call** does to the logs what an operation that it can be does to the ledger, if it is one. -/
theorem Ledger.Lists.step (ht : t.Lists w) (hx : D.machine.exec i x.1 x.2 w w')
    (hc : Replicas.NoGaps w') :
    ∃ o u, x.ledgerOp i o ∧ (Ledger.object ι).Does t o u ∧ u.Lists w' := by
  obtain ⟨o, b⟩ := x
  have quiet : ∀ x : Call, x = ⟨o, b⟩ → ¬ x.1.Writes → t.Lists w' := by
    rintro x rfl hw
    exact ht.of_log (Replicas.exec_log_of_not_writes hx hw)
  cases o with
  | commitBuilder url base actions op =>
    cases b with
    | ok n =>
      obtain ⟨logged, hlogged, hallow, hlist⟩ := ht.landed hx.1 hc
      exact ⟨_, _, ⟨logged, hlogged, rfl⟩, ⟨hallow, rfl⟩, hlist⟩
    | error e =>
      rcases hx.1 with ⟨rfl, -⟩ | ⟨-, he, n, hland⟩
      · exact ⟨none, t, Or.inl rfl, rfl, ht⟩
      · obtain ⟨logged, hlogged, hallow, hlist⟩ := ht.landed hland hc
        exact ⟨_, _, Or.inr ⟨he, n, logged, hlogged, rfl⟩, ⟨hallow, rfl⟩, hlist⟩
  | openTable url opts =>
    have hlist := quiet _ rfl id
    rcases b with e | e | s
    · exact ⟨none, t, rfl, rfl, hlist⟩
    · exact ⟨none, t, rfl, rfl, hlist⟩
    · -- a table is opened at its latest version
      exact ⟨_, t, rfl, ⟨(ht url).latest (hx.1.2 s rfl), rfl⟩, hlist⟩
  | isDeltaTableLocation url =>
    have hlist := quiet _ rfl id
    cases b with
    | error e => exact ⟨none, t, rfl, rfl, hlist⟩
    | ok present =>
      have hiff := hx.1.2 present rfl
      rw [(ht url).ne_nil_iff] at hiff
      exact ⟨_, t, rfl, ⟨hiff, rfl⟩, hlist⟩
  | ensureTableUri raw => exact ⟨none, t, rfl, rfl, quiet _ rfl id⟩
  | lockFor key => exact ⟨none, t, rfl, rfl, quiet _ rfl id⟩
  | lock h => exact ⟨none, t, rfl, rfl, quiet _ rfl id⟩
  | buildTable url opts => exact ⟨none, t, rfl, rfl, quiet _ rfl id⟩
  | send item => exact ⟨none, t, rfl, rfl, quiet _ rfl id⟩

/-! ## What a request has told its client -/

/-- The write of a Commit that is answered OK. -/
theorem commit_ok_runs {cr : Crates} {srv : DeltaTxnGrpcServer} {r : Pb.CommitRequest} {calls : List Call}
    {resp : Pb.CommitResponse} (h : (commit cr srv r).run.Completes calls (.ok resp)) :
    ∃ url actions base op n, mapActions cr r.actions = .ok actions ∧
      ⟨.ensureTableUri r.tableUri, .ok url⟩ ∈ calls ∧
      ⟨.commitBuilder url base actions op, .ok n⟩ ∈ calls ∧ resp.committedVersion = n.toInt64 := by
  rcases commit_runs h with ⟨st, he, -⟩ | ⟨url, actions, lock, calls', hmap, rfl, hl⟩
  · cases he
  have hwrite : ∃ base op n, ⟨.commitBuilder url base actions op, .ok n⟩ ∈ calls' ∧
      resp.committedVersion = n.toInt64 := by
    generalize hb : Except.ok resp = b at hl
    rcases commitLocked_runs hl with ⟨e, -, rfl⟩ | ⟨e, -, rfl⟩ | ⟨calls'', rfl, hu⟩ | ⟨calls'', rfl, hc⟩
    · cases hb
    · cases hb
    · cases hu with
      | written s n hv =>
        cases hb
        exact ⟨some s.version, buildOperation actions, n, by simp, rfl⟩
      | openFailed e => cases hb
      | rejected s st hv => cases hb
      | noSnapshot e hv => cases hb
      | failed s e hv => cases hb
    · cases hc with
      | created p m n hn =>
        cases hb
        exact ⟨none, .create .errorIfExists url p m, n, by simp, rfl⟩
      | refused st hst => cases hb
      | buildFailed e => cases hb
      | failed p m e => cases hb
      | late p m n hn => cases hb
  obtain ⟨base, op, n, hmem, hresp⟩ := hwrite
  refine ⟨url, actions, base, op, n, hmap, List.mem_cons_self, ?_, hresp⟩
  exact List.mem_cons_of_mem _ (List.mem_cons_of_mem _ (List.mem_cons_of_mem _ hmem))

section

variable [DecidableEq ι] {log : Url → Version → Option (List Kernel.Action)} {c c' : D.State}

/-- A call of `ensure_table_uri` is answered as the deployment resolves it. -/
theorem Deployment.Reachable.resolved (h : D.Reachable log c) {raw : String}
    {b : Except DeltaTableError Url} (hx : (i, ⟨.ensureTableUri raw, b⟩) ∈ c.calls) :
    D.resolve i raw = b := by
  have hall := Config.Reach.forall_calls h (P := fun i x => ∀ raw b,
    x = ⟨.ensureTableUri raw, b⟩ → D.resolve i raw = b) ?_
  · exact hall _ hx raw b rfl
  intro i o b w w' hexec raw b' hx
  cases hx
  exact hexec.1.1.symm

/-- A Commit that has answered. -/
theorem Deployment.Reachable.commit_answered (h : D.Reachable log c)
    {a : Except Status Pb.CommitResponse} (ha : c.Answered i (.commit a)) :
    ∃ r, D.rpc i = .commit r ∧ (commit D.cr (D.srv (D.home i)) r).run.Completes (c.callsOf i) a := by
  have hrun := h.runs_answered ha
  unfold Deployment.program at hrun
  cases hrpc : D.rpc i with
  | commit r =>
    rw [hrpc] at hrun
    obtain ⟨a', hcommit, heq⟩ := Prog.completes_map hrun
    cases heq
    exact ⟨r, rfl, hcommit⟩
  | getTable r =>
    rw [hrpc] at hrun
    obtain ⟨a', -, heq⟩ := Prog.completes_map hrun
    cases heq
  | listActiveFiles r =>
    rw [hrpc] at hrun
    obtain ⟨a', -, heq⟩ := Prog.completes_map hrun
    cases heq

/-- A GetTable that has answered. -/
theorem Deployment.Reachable.getTable_answered (h : D.Reachable log c)
    {a : Except Status Pb.GetTableResponse} (ha : c.Answered i (.getTable a)) :
    ∃ r, D.rpc i = .getTable r ∧
      (normalizeAndCheckTableUri (D.srv (D.home i)) r.tableUri >>=
        getTableChecked D.cr (D.srv (D.home i))).run.Completes (c.callsOf i) a := by
  have hrun := h.runs_answered ha
  unfold Deployment.program at hrun
  cases hrpc : D.rpc i with
  | getTable r =>
    rw [hrpc] at hrun
    obtain ⟨a', hget, heq⟩ := Prog.completes_map hrun
    cases heq
    exact ⟨r, rfl, hget⟩
  | commit r =>
    rw [hrpc] at hrun
    obtain ⟨a', -, heq⟩ := Prog.completes_map hrun
    cases heq
  | listActiveFiles r =>
    rw [hrpc] at hrun
    obtain ⟨a', -, heq⟩ := Prog.completes_map hrun
    cases heq

/-- **A ListActiveFiles** of a deployment, at any moment of its run. -/
theorem Deployment.Reachable.listing (h : D.Reachable log c) {r : Pb.ListActiveFilesRequest}
    (hrpc : D.rpc i = .listActiveFiles r) :
    (streamChannel.sent (c.callsOf i) = [] ∧ ¬ c.Answered i (.listActiveFiles (.ok ()))) ∨
      (∃ st, streamChannel.sent (c.callsOf i) = [.error st]) ∨
      ∃ url s m p full, D.resolve i r.tableUri = .ok url ∧
        (∀ y ∈ readCalls (D.srv (D.home i)) url s, (i, y) ∈ c.calls) ∧
        buildMetadataAndProtocol D.cr s = .ok (m, p) ∧ Framed D.cr s (headerMessage s m p) full ∧
        streamChannel.sent (c.callsOf i) <+: full ∧
        (c.Answered i (.listActiveFiles (.ok ())) →
          (∀ x ∈ c.callsOf i, streamChannel.Taken x) → streamChannel.sent (c.callsOf i) = full) := by
  obtain ⟨q, hrun, hanswer⟩ := h.exists_runs i
  unfold Deployment.program at hrun
  rw [hrpc] at hrun
  obtain ⟨q', hlist, rfl⟩ := Prog.runs_map hrun
  have hlist' : (listActiveFilesAndStream D.cr (D.srv (D.home i)) r).run.Runs (c.callsOf i) q' := hlist
  rw [listActiveFilesAndStream_eq] at hlist'
  -- answered OK means that the handler has returned
  have hok : c.Answered i (.listActiveFiles (.ok ())) → q' = .ret (.ok ()) := by
    intro ha
    have hq := hanswer _ ha
    cases q' with
    | op o k => cases hq
    | ret a =>
      cases hq
      rfl
  rcases guarded_parts hlist' with ⟨hall, hno⟩ | ⟨url, calls', hcalls, -, hbody⟩
  · refine Or.inl ⟨Channel.sent_eq_nil fun x hx => ?_, fun ha => hno () (hok ha)⟩
    obtain ⟨b, rfl⟩ := hall x hx
    rfl
  obtain ⟨p, hstream, hend⟩ := Fallible.runs_liftProg hbody
  have hdone : c.Answered i (.listActiveFiles (.ok ())) → p = .ret () := by
    intro ha
    obtain ⟨u, -, hp⟩ := hend _ (hok ha)
    exact hp
  have hsent : streamChannel.sent (c.callsOf i) = streamChannel.sent calls' := by
    rw [hcalls]
    rfl
  have hmem : ∀ y ∈ calls', (i, y) ∈ c.calls := by
    intro y hy
    rw [← Config.mem_callsOf, hcalls]
    exact List.mem_cons_of_mem _ hy
  rw [hsent]
  -- the same cases for the task, seen from the whole
  rcases streamActiveFiles_runs hstream with ⟨hnone, hq⟩ | hfailed |
    ⟨s, m, p, full, hbuild, hread, hframed, hinit, hfull⟩
  · exact Or.inl ⟨hnone, fun ha => hq (hdone ha)⟩
  · exact Or.inr (Or.inl hfailed)
  have hensure : (i, ⟨.ensureTableUri r.tableUri, .ok url⟩) ∈ c.calls := by
    rw [← Config.mem_callsOf, hcalls]
    exact List.mem_cons_self
  refine Or.inr (Or.inr ⟨url, s, m, p, full, h.resolved hensure, fun y hy => hmem y (hread.subset hy),
    hbuild, hframed, hinit, fun ha htaken => hfull (hdone ha) fun x hx => ?_⟩)
  refine htaken x ?_
  rw [hcalls]
  exact List.mem_cons_of_mem _ hx

/-- **A header that was sent** is that of the table as the request has read it. -/
theorem Deployment.Reachable.header_sent (h : D.Reachable log c) {resp : Pb.ListActiveFilesHeader}
    {b : Except Unit Unit} (hsend : (i, ⟨.send (.ok ⟨some (.header resp)⟩), b⟩) ∈ c.calls) :
    ∃ r, D.rpc i = .listActiveFiles r ∧ ∃ url s m p, D.resolve i r.tableUri = .ok url ∧
      (∀ y ∈ readCalls (D.srv (D.home i)) url s, (i, y) ∈ c.calls) ∧
      buildMetadataAndProtocol D.cr s = .ok (m, p) ∧
      resp = ⟨s.version.toInt64, some m, some p⟩ := by
  obtain ⟨q, hrun, -⟩ := h.exists_runs i
  have hin : ⟨.send (.ok ⟨some (.header resp)⟩), b⟩ ∈ c.callsOf i := Config.mem_callsOf.2 hsend
  obtain ⟨r, hrpc⟩ := Rpc.program_sends hrun hin ⟨_, rfl⟩
  have hsent : .ok ⟨some (.header resp)⟩ ∈ streamChannel.sent (c.callsOf i) :=
    List.mem_filterMap.2 ⟨_, hin, rfl⟩
  rcases h.listing hrpc with ⟨hnone, -⟩ | ⟨st, hfailed⟩ |
    ⟨url, s, m, p, full, hres, hread, hbuild, hframed, hinit, -⟩
  · rw [hnone] at hsent
    cases hsent
  · rw [hfailed] at hsent
    cases List.mem_singleton.1 hsent
  · have hheader := hframed.header_unique (hinit.subset hsent)
    cases hheader
    exact ⟨r, hrpc, url, s, m, p, hres, hread, hbuild, rfl⟩

/-- The operation by which request `i` came to know version `n` of the table at `url`: a Commit has
written it, and any other request has read it. -/
def Deployment.ToldBy (D : Deployment ρ ι) (i : ι) (url : Url) (n : Version) : LedgerOp ι → Prop
  | .append u m e => u = url ∧ m = n ∧ e.author = some i ∧
    ∃ actions, (D.rpc i).mapped D.cr = some actions ∧ Logged actions e.actions
  | .read u m => u = url ∧ m = n ∧ ∀ r, D.rpc i ≠ .commit r
  | .probe _ _ => False

variable {pts : List (ι × LedgerOp ι)}

omit [DecidableEq ρ] [DecidableEq ι] in
theorem readCalls_ledgerOp (hpts : D.Explained c pts) {srv : DeltaTxnGrpcServer} {url : Url}
    {s : DeltaTableState} (h : ∀ y ∈ readCalls srv url s, (i, y) ∈ c.calls) :
    (i, .read url s.version) ∈ pts := by
  have hopen : (⟨.openTable url srv.storageOpts, .ok (.ok s)⟩ : Call) ∈ readCalls srv url s := by
    unfold readCalls
    simp
  rcases hpts.point_of_mem (h _ hopen) with hnone | ⟨op, hop, hmem⟩
  · cases hnone
  · cases hop
    exact hmem

/-- **What a request has told its client** was one of its own operations. -/
theorem Deployment.Tells.point (h : D.Reachable log c) (hpts : D.Explained c pts) {v : Int64}
    (ht : D.Tells c i v) : ∃ url n op, D.resolve i (D.rpc i).tableUri = .ok url ∧ v = n.toInt64 ∧
      (i, op) ∈ pts ∧ D.ToldBy i url n op := by
  have hmem : ∀ y ∈ c.callsOf i, (i, y) ∈ c.calls := fun y hy => Config.mem_callsOf.1 hy
  cases ht with
  | commit resp ha hv =>
    obtain ⟨r, hrpc, hcommit⟩ := h.commit_answered ha
    obtain ⟨url, actions, base, op, n, hmap, hensure, hwrite, hresp⟩ := commit_ok_runs hcommit
    rcases hpts.point_of_mem (hmem _ hwrite) with ⟨logged, -, hnone⟩ | ⟨e, ⟨logged, hlogged, he⟩, hin⟩
    · cases hnone
    cases he
    rw [hrpc]
    refine ⟨url, n, .append url n ⟨some i, logged⟩, h.resolved (hmem _ hensure),
      hv.symm.trans hresp, hin, rfl, rfl, rfl, actions, ?_, hlogged⟩
    rw [hrpc]
    change (mapActions D.cr r.actions).toOption = some actions
    rw [hmap]
    rfl
  | getTable resp ha hv =>
    obtain ⟨r, hrpc, hget⟩ := h.getTable_answered ha
    rcases guarded_parts hget with ⟨-, hno⟩ | ⟨url, calls', hcalls, -, hbody⟩
    · exact absurd rfl (hno resp)
    obtain ⟨s, m, p, rfl, -, rfl⟩ := getTableChecked_runs hbody
    rw [hcalls] at hmem
    rw [hrpc]
    refine ⟨url, s.version, .read url s.version, h.resolved (hmem _ List.mem_cons_self), hv.symm,
      readCalls_ledgerOp hpts fun y hy => hmem y (List.mem_cons_of_mem _ hy), rfl, rfl,
      fun r' hr' => ?_⟩
    rw [hrpc] at hr'
    cases hr'
  | header resp b hsend hv =>
    obtain ⟨r, hrpc, url, s, m, p, hres, hread, -, hheader⟩ := h.header_sent hsend
    cases hheader
    rw [hrpc]
    refine ⟨url, s.version, .read url s.version, hres, hv.symm, readCalls_ledgerOp hpts hread, rfl, rfl,
      fun r' hr' => ?_⟩
    rw [hrpc] at hr'
    cases hr'

/-- **A GetTable that has answered NOT_FOUND** has found no table. -/
theorem Deployment.Reachable.notFound (h : D.Reachable log c) (hpts : D.Explained c pts) {st : Status}
    (ha : c.Answered i (.getTable (.error st))) (hst : st.code = .notFound) :
    ∃ url, D.resolve i (D.rpc i).tableUri = .ok url ∧ (i, .probe url false) ∈ pts := by
  have hmem : ∀ y ∈ c.callsOf i, (i, y) ∈ c.calls := fun y hy => Config.mem_callsOf.1 hy
  obtain ⟨r, hrpc, hget⟩ := h.getTable_answered ha
  rcases Fallible.completes_bind hget with ⟨st', hnorm, he⟩ | ⟨t₁, t₂, url, hcalls, hnorm, hbody⟩
  · cases he
    rcases normalizeAndCheckTableUri_runs hnorm with ⟨st', he, hcode, -⟩ | ⟨url, he, -⟩
    · cases he
      rw [hst] at hcode
      rcases hcode with hcode | hcode <;> cases hcode
    · cases he
  rcases normalizeAndCheckTableUri_runs hnorm with ⟨st', he, -⟩ | ⟨url', he, rfl⟩
  · cases he
  cases he
  have hread : (readTable D.cr (D.srv (D.home i)) url).run.Completes t₂ (.error st) := by
    unfold getTableChecked at hbody
    rcases Fallible.completes_bind hbody with ⟨st', hread, he⟩ | ⟨t₃, t₄, smp, -, -, hend⟩
    · cases he
      exact hread
    · obtain ⟨-, he⟩ := Prog.completes_ret.1 hend
      cases he
  obtain rfl := readTable_notFound hread hst
  rw [hcalls] at hmem
  rw [hrpc]
  have hprobe : (i, (⟨.isDeltaTableLocation url, .ok false⟩ : Call)) ∈ c.calls := hmem _ (by simp)
  refine ⟨url, h.resolved (hmem _ List.mem_cons_self), ?_⟩
  rcases hpts.point_of_mem hprobe with hnone | ⟨op, hop, hin⟩
  · cases hnone
  · cases hop
    exact hin

/-! ## Linearizability -/

end

end DeltaTxn
