import DeltaTxn.Proof.Linear

/-!
# Who wrote which entry

In a deployment every entry that was not there before is the one write of one Commit, whatever has
become of that Commit since: answered, failed, or cancelled in the middle of it. It is never changed
and never removed.

* `governed`: what holds of the logs in a setting holds of those of a deployment.
* `Reachable.entry_cases`: where an entry comes from.
* `deployment_exactly_once`: entries and the Commits they belong to.
* `deployment_expected_version`: where a Commit with an `expected_version` lands, with replicas that
  share no lock.
-/

namespace DeltaTxn

open Conc

variable {ρ ι : Type} [DecidableEq ρ] [DecidableEq ι] {D : Deployment ρ ι}
  {log : Url → Version → Option (List Kernel.Action)} {c c' : D.State} {i : ι} {url : Url}
  {n : Version} {e : LogEntry ι}

namespace Deployment

omit [DecidableEq ι] in
theorem governed (D : Deployment ρ ι) : D.setting.Governs D.machine := ⟨fun h => h.1, id⟩

theorem entry_persists (h : Config.Reach D.machine c c') (he : c.shared.log url n = some e) :
    c'.shared.log url n = some e :=
  D.governed.entry_persists h he

/-- A write that was told so is in the log. -/
theorem Reachable.entry_of_write (h : D.Reachable log c) {base : Option Version}
    {actions : List Kernel.Action} {op : DeltaOperation}
    (hx : (i, ⟨.commitBuilder url base actions op, .ok n⟩) ∈ c.calls) :
    ∃ logged, Logged actions logged ∧ c.shared.log url n = some ⟨some i, logged⟩ :=
  D.governed.entry_of_write h rfl hx

/-- **Where an entry comes from**: it was there before, or a request has written it. -/
theorem Reachable.entry_cases (h : D.Reachable log c) (he : c.shared.log url n = some e) :
    (e.author = none ∧ log url n = some e.actions) ∨
      ∃ i base actions op b, e.author = some i ∧ Logged actions e.actions ∧
        (i, ⟨.commitBuilder url base actions op, b⟩) ∈ c.calls := by
  rcases D.governed.entry_cases h he with hbefore | ⟨i, x, base, actions, hx, hputs, hi, hlogged⟩
  · exact Or.inl (World.start_entry hbefore)
  · obtain ⟨op, b, rfl⟩ := hputs.eq_commitBuilder
    exact Or.inr ⟨i, base, actions, op, b, hi, hlogged, hx⟩

/-- A write is that of a Commit, of its mapped actions, at the URL that it was resolved to. -/
theorem Reachable.write_serves (h : D.Reachable log c) {base : Option Version}
    {actions : List Kernel.Action} {op : DeltaOperation} {b : Except DeltaTableError Version}
    (hx : (i, ⟨.commitBuilder url base actions op, b⟩) ∈ c.calls) :
    ∃ r, D.rpc i = .commit r ∧ mapActions D.cr r.actions = .ok actions ∧
      D.resolve i r.tableUri = .ok url ∧
      isTableUriAllowed url.asStr (D.srv (D.home i)).allowedTablePrefixes = true := by
  obtain ⟨q, hrun, -⟩ := h.exists_runs i
  rcases Rpc.program_calls hrun (Config.mem_callsOf.2 hx) with ⟨b', hb⟩ | ⟨u, hensure, hallowed, rfl, hmap⟩
  · cases hb
  have hres := h.resolved (Config.mem_callsOf.1 hensure)
  cases hrpc : D.rpc i with
  | commit r =>
    rw [hrpc] at hmap hres
    refine ⟨r, rfl, ?_, hres, hallowed⟩
    cases hactions : mapActions D.cr r.actions with
    | error st =>
      simp only [Rpc.mapped, hactions, Except.toOption] at hmap
      cases hmap
    | ok actions' =>
      simp only [Rpc.mapped, hactions, Except.toOption] at hmap
      cases hmap
      rfl
  | getTable r =>
    rw [hrpc] at hmap
    cases hmap
  | listActiveFiles r =>
    rw [hrpc] at hmap
    cases hmap

/-- A request that writes has no entry yet. -/
theorem Reachable.no_entry_before (h : D.Reachable log c) (hst : Config.Step D.machine c c') {x : Call}
    (hcalls : c'.calls = c.calls ++ [(i, x)]) (hx : x.1.Writes) (he : c.shared.log url n = some e) :
    e.author ≠ some i := by
  intro hi
  rcases h.entry_cases he with ⟨hnone, -⟩ | ⟨j, base, actions, op, b, hj, -, hmem⟩
  · rw [hi] at hnone
    cases hnone
  rw [hi] at hj
  cases hj
  -- it would have written before
  have h' : D.Reachable log c' := h.tail hst
  obtain ⟨q, hrun, -⟩ := h'.exists_runs i
  have hof : c'.callsOf i = c.callsOf i ++ [x] := by
    unfold Config.callsOf
    rw [hcalls, Config.ofTask_snoc, if_pos rfl]
  rw [hof] at hrun
  exact (Rpc.program_writesOnce D.cr (D.srv (D.home i)) (D.rpc i)).runs_last hrun hx _
    (Config.mem_callsOf.2 hmem) trivial

/-- A request has at most one entry, over all tables. -/
theorem Reachable.entry_unique (h : D.Reachable log c) {url' : Url} {n' : Version} {e' : LogEntry ι}
    (he : c.shared.log url n = some e) (he' : c.shared.log url' n' = some e')
    (hi : e.author = some i) (hi' : e'.author = some i) : url = url' ∧ n = n' := by
  induction h generalizing url n e url' n' e' with
  | refl =>
    rw [(World.start_entry he).1] at hi
    cases hi
  | @tail c c' hr hst ih =>
    have hr' : D.Reachable log c := hr
    cases hst with
    | @exec j o k b w hj hx =>
      rcases Setting.exec_log hx.1 with ⟨hlog, -⟩ | ⟨u, base, acts, m, hputs, -, logged, -, rfl⟩
      · simp only [hlog] at he he'
        exact ih he he' hi hi'
      have hwrites : o.Writes := by
        obtain ⟨op, b', hcall⟩ := hputs.eq_commitBuilder
        cases hcall
        trivial
      have hfirst : ∀ {u' m' f}, c.shared.log u' m' = some f → f.author ≠ some j := fun hf =>
        hr'.no_entry_before (.exec hj hx) (x := ⟨o, b⟩) rfl hwrites hf
      rw [World.put_log] at he he'
      split at he
      · rename_i hat
        cases he
        cases hi
        split at he'
        · rename_i hat'
          exact ⟨hat.1.trans hat'.1.symm, hat.2.trans hat'.2.symm⟩
        · exact absurd hi' (hfirst he')
      · split at he'
        · cases he'
          cases hi'
          exact absurd hi (hfirst he)
        · exact ih he he' hi hi'
    | finish _ => exact ih he he' hi hi'
    | cancel _ => exact ih he he' hi hi'
    | drop _ hd =>
      have hlog := Setting.drop_log hd
      simp only [hlog] at he he'
      exact ih he he' hi hi'

end Deployment

/-- **Exactly once.** In every reachable state of a deployment, an entry was there before, or it has
the mapped actions of one Commit, in order, after delta-rs's CommitInfo if there is none among them, on
the table that this Commit names and that its replica's allowlist admits. No Commit has two entries. One
that is answered OK has the entry that its answer names. And all this stays so, whatever happens from
now on. -/
theorem deployment_exactly_once (h : D.Reachable log c) :
    (∀ url n e, c.shared.log url n = some e →
      (e.author = none ∧ log url n = some e.actions) ∨
        ∃ i r actions, e.author = some i ∧ D.rpc i = .commit r ∧
          mapActions D.cr r.actions = .ok actions ∧ Logged actions e.actions ∧
          D.resolve i r.tableUri = .ok url ∧
          isTableUriAllowed url.asStr (D.srv (D.home i)).allowedTablePrefixes = true) ∧
    (∀ i url n e url' n' e', c.shared.log url n = some e → c.shared.log url' n' = some e' →
      e.author = some i → e'.author = some i → url = url' ∧ n = n') ∧
    (∀ i resp, c.Answered i (.commit (.ok resp)) → ∃ url n e, c.shared.log url n = some e ∧
      e.author = some i ∧ resp.committedVersion = n.toInt64) ∧
    ∀ c', Config.Reach D.machine c c' → ∀ url n e, c.shared.log url n = some e →
      c'.shared.log url n = some e := by
  refine ⟨fun url n e he => ?_, fun i url n e url' n' e' he he' hi hi' => h.entry_unique he he' hi hi',
    fun i resp ha => ?_, fun c' h' url n e he => Deployment.entry_persists h' he⟩
  · rcases h.entry_cases he with hbefore | ⟨i, base, actions, op, b, hi, hlogged, hx⟩
    · exact Or.inl hbefore
    · obtain ⟨r, hrpc, hmap, hres, hallowed⟩ := h.write_serves hx
      exact Or.inr ⟨i, r, actions, hi, hrpc, hmap, hlogged, hres, hallowed⟩
  · obtain ⟨r, -, hcommit⟩ := h.commit_answered ha
    obtain ⟨url, actions, base, op, n, -, -, hwrite, hresp⟩ := commit_ok_runs hcommit
    obtain ⟨logged, -, hentry⟩ := h.entry_of_write (Config.mem_callsOf.1 hwrite)
    exact ⟨url, n, _, hentry, rfl, hresp⟩

/-- The second Commit on the table of orders has its entry. -/
theorem deployment_exactly_once_orders : ∃ c, ordersDeployment.Reachable ordersLog c ∧
    ∃ (url : Url) (n : Version) (e : _), c.shared.log url n = some e ∧ e.author = some .append ∧
      (1 : Int64) = n.toInt64 := by
  obtain ⟨c₁, c₂, h⟩ := orders_run
  have hreach : ordersDeployment.Reachable ordersLog c₂ := h.first.trans h.rest
  exact ⟨c₂, hreach, (deployment_exactly_once hreach).2.2.1 .append ⟨1⟩ h.appended⟩

/-! ## A Commit with an expected version -/

/-- What comes before an element that is not the last. -/
theorem mem_of_concat_isPrefix {α : Type} {l l' : List α} {a b : α} (h : l ++ [a] <+: l' ++ [b])
    (hab : a ≠ b) : ∀ x ∈ l, x ∈ l' := by
  intro x hx
  obtain ⟨rest, hrest⟩ := h
  rcases List.eq_nil_or_concat rest with rfl | ⟨rest', z, rfl⟩
  · rw [List.append_nil] at hrest
    have hlast := (List.append_inj' hrest rfl).2
    exact absurd (List.singleton_inj.1 hlast) hab
  · rw [List.concat_eq_append, ← List.append_assoc] at hrest
    rw [← (List.append_inj' hrest rfl).1]
    exact List.mem_append_left _ (List.mem_append_left _ hx)

/-- The calls of such a Commit that is answered OK. -/
theorem commit_expected_runs {cr : Crates} {srv : DeltaTxnGrpcServer} {r : Pb.CommitRequest}
    {calls : List Call} {resp : Pb.CommitResponse} {expected : Int64}
    (h : (commit cr srv r).run.Completes calls (.ok resp)) (hr : r.expectedVersion = some expected) :
    ∃ url s actions n before, ⟨.ensureTableUri r.tableUri, .ok url⟩ ∈ calls ∧
      s.version.toInt64 = expected ∧ resp.committedVersion = n.toInt64 ∧
      calls = before ++ [⟨.openTable url srv.storageOpts, .ok (.ok s)⟩,
        ⟨.commitBuilder url (some s.version) actions (buildOperation actions), .ok n⟩] ∧
      ∀ x ∈ before, ¬ x.1.Writes := by
  rcases commit_runs h with ⟨st, he, -⟩ | ⟨url, actions, lock, calls', -, rfl, hl⟩
  · cases he
  rcases commitLocked_paths hl with ⟨e, -, he⟩ | ⟨e, -, he⟩ | ⟨calls'', rfl, hu⟩ | ⟨calls'', rfl, hc⟩
  · cases he
  · cases he
  · generalize hb : Except.ok resp = b at hu
    cases commitUpdate_runs hu with
    | written s n hv =>
      cases hb
      refine ⟨url, s, actions, n, [⟨.ensureTableUri r.tableUri, .ok url⟩, ⟨.lockFor url.asStr, lock⟩,
        ⟨.lock lock, ()⟩, ⟨.buildTable url srv.storageOpts, .ok ()⟩,
        ⟨.isDeltaTableLocation url, .ok true⟩], List.mem_cons_self, Serial.checkExpectedVersion_ok hv hr,
        rfl, rfl, ?_⟩
      intro x hx hwrites
      simp only [List.mem_cons, List.not_mem_nil, or_false] at hx
      rcases hx with rfl | rfl | rfl | rfl | rfl <;> exact hwrites
    | openFailed e => cases hb
    | rejected s st hv => cases hb
    | noSnapshot e hv => cases hb
    | failed s e hv => cases hb
  · -- a table is not created where a version is expected
    exfalso
    unfold commitCreate at hc
    rw [hr] at hc
    obtain ⟨-, he⟩ := Prog.completes_ret.1 hc
    cases he

namespace Deployment

/-- A request that makes the call `x` and then one last call has not written when it makes `x`, if
neither `x` nor what comes before it is a write. -/
theorem no_write_before {c₁ c₂ : D.State} {x y : Call} {before : List Call}
    (hat : c₂.calls = c₁.calls ++ [(i, x)]) (h₂ : Config.Reach D.machine c₂ c)
    (hcalls : c.callsOf i = before ++ [x, y]) (hxy : x ≠ y) (hx : ¬ x.1.Writes)
    (hbefore : ∀ z ∈ before, ¬ z.1.Writes) : ∀ z ∈ c₁.callsOf i, ¬ z.1.Writes := by
  have hof : c₂.callsOf i = c₁.callsOf i ++ [x] := by
    unfold Config.callsOf
    rw [hat, Config.ofTask_snoc, if_pos rfl]
  have hinit := h₂.callsOf_initial i
  rw [hof, hcalls, List.append_cons before] at hinit
  intro z hz
  rcases List.mem_append.1 (mem_of_concat_isPrefix hinit hxy z hz) with hmem | hmem
  · exact hbefore z hmem
  · rwa [List.mem_singleton.1 hmem]

/-- An entry that a request has put since the version `v` was the latest is a later one. -/
theorem Reachable.lt_of_written_since (hlog : LogsContiguous log) {c₁ : D.State} (h₁ : D.Reachable log c₁)
    (hlater : Config.Reach D.machine c₁ c) {v : Version} (hlatest : (c₁.shared.log url).Latest v)
    (he : c.shared.log url n = some e) (hi : e.author = some i)
    (hnowrite : ∀ z ∈ c₁.callsOf i, ¬ z.1.Writes) : v < n := by
  by_contra hle
  -- then it was there already, and the request had written it
  have hsome := (h₁.contiguous hlog url) n v (UInt64.not_lt.1 hle) hlatest.1
  obtain ⟨e', he'⟩ := Option.isSome_iff_exists.1 hsome
  have hsame := Deployment.entry_persists hlater he'
  rw [he] at hsame
  cases hsame
  rcases h₁.entry_cases he' with ⟨hnone, -⟩ | ⟨j, base, actions, op, b, hj, -, hwrite⟩
  · rw [hi] at hnone
    cases hnone
  · rw [hi] at hj
    cases hj
    exact hnowrite _ (Config.mem_callsOf.2 hwrite) trivial

/-- An entry after a version that was the latest once has been put there by a request. -/
theorem Reachable.author_of_since (h : D.Reachable log c) {c₁ : D.State} (h₁ : D.Reachable log c₁)
    {v m : Version} (hlatest : (c₁.shared.log url).Latest v) (hm : v < m)
    (he : c.shared.log url m = some e) : ∃ j, e.author = some j := by
  rcases h.entry_cases he with ⟨-, hstart⟩ | ⟨j, base, actions, op, b, hj, -, -⟩
  · have hinit : (D.init log).shared.log url m = some ⟨none, e.actions⟩ := by
      simp only [Deployment.init, Config.init, World.start, hstart, Option.map_some]
    have hthere := Deployment.entry_persists h₁ hinit
    rw [hlatest.2 m hm] at hthere
    cases hthere
  · exact ⟨j, hj⟩

end Deployment

/-- **Where a Commit with an `expected_version` lands.** The check is no compare-and-swap once
replicas share a table: what it guarantees is that the expected version was the latest when the
Commit looked. So its own version is a later one, and every version in between has been put there
since, by another request. -/
theorem deployment_expected_version (hlog : LogsContiguous log) (h : D.Reachable log c)
    {r : Pb.CommitRequest} {expected : Int64} {resp : Pb.CommitResponse} (hrpc : D.rpc i = .commit r)
    (hr : r.expectedVersion = some expected) (ha : c.Answered i (.commit (.ok resp))) :
    ∃ (url : Url) (v n : Version), D.resolve i r.tableUri = .ok url ∧ v.toInt64 = expected ∧
      resp.committedVersion = n.toInt64 ∧ v < n ∧ (c.shared.log url v).isSome = true ∧
      ∀ m, v < m → m < n → ∃ j e, c.shared.log url m = some e ∧ e.author = some j ∧ j ≠ i := by
  obtain ⟨r', hrpc', hcommit⟩ := h.commit_answered ha
  rw [hrpc] at hrpc'
  cases hrpc'
  obtain ⟨url, s, actions, n, before, hensure, hexpected, hresp, hcalls, hbefore⟩ :=
    commit_expected_runs hcommit hr
  have hmem : ∀ y ∈ c.callsOf i, (i, y) ∈ c.calls := fun y hy => Config.mem_callsOf.1 hy
  have hopen := hmem ⟨.openTable url (D.srv (D.home i)).storageOpts, .ok (.ok s)⟩
    (by rw [hcalls]; simp)
  obtain ⟨logged, -, hentry⟩ :=
    h.entry_of_write (hmem ⟨.commitBuilder url (some s.version) actions (buildOperation actions), .ok n⟩
      (by rw [hcalls]; simp))
  -- the moment of its check
  obtain ⟨c₁, c₂, h₁, hst, hat, h₂⟩ := Config.Reach.at_call h rfl hopen
  have h₁' : D.Reachable log c₁ := h₁
  have hlatest : (c₁.shared.log url).Latest s.version := (hst.exec_of_calls hat).1.2 s rfl
  have hlater : Config.Reach D.machine c₁ c := .head hst h₂
  have hnowrite := Deployment.no_write_before hat h₂ hcalls (fun heq => by cases heq) id hbefore
  have hlt : s.version < n := h₁'.lt_of_written_since hlog hlater hlatest hentry rfl hnowrite
  refine ⟨url, s.version, n, h.resolved (hmem _ hensure), hexpected, hresp, hlt, ?_, ?_⟩
  · obtain ⟨e, he⟩ := Option.isSome_iff_exists.1 hlatest.1
    rw [Deployment.entry_persists hlater he]
    rfl
  · intro m hvm hmn
    have hsome := (h.contiguous hlog url) m n (UInt64.le_of_lt hmn) (by rw [hentry]; rfl)
    obtain ⟨e, he⟩ := Option.isSome_iff_exists.1 hsome
    obtain ⟨j, hj⟩ := h.author_of_since h₁' hlatest hvm he
    refine ⟨j, e, he, hj, ?_⟩
    rintro rfl
    have hsame := (h.entry_unique he hentry hj rfl).2
    exact absurd (hsame ▸ hmn) (UInt64.lt_irrefl _)

/-- The second Commit on the table of orders was expected after version 0. -/
theorem deployment_expected_version_orders : ∃ c, ordersDeployment.Reachable ordersLog c ∧
    ∃ (url : Url) (v n : Version), v.toInt64 = 0 ∧ (1 : Int64) = n.toInt64 ∧ v < n ∧
      (c.shared.log url v).isSome = true := by
  obtain ⟨c₁, c₂, h⟩ := orders_run
  have hreach : ordersDeployment.Reachable ordersLog c₂ := h.first.trans h.rest
  obtain ⟨url, v, n, -, hv, hn, hlt, hsome, -⟩ :=
    deployment_expected_version (i := .append) ordersLog_contiguous hreach rfl rfl h.appended
  exact ⟨c₂, hreach, url, v, n, hv, hn, hlt, hsome⟩

end DeltaTxn
