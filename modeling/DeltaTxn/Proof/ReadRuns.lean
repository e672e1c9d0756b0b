import DeltaTxn.Proof.Calls
import DeltaTxn.Proof.CommitRuns
import DeltaTxn.Proof.Listing

/-!
# The runs of GetTable and ListActiveFiles

What the two can have called when they have read their table, and what a ListActiveFiles has sent
by any moment of its run, among other tasks and with a client that may go away.

* `readTable_runs`: the three calls that read a table.
* `getTableChecked_runs`: a GetTable that has answered.
* `streamActiveFiles_runs`: a ListActiveFiles at any moment.
-/

namespace DeltaTxn

open Conc

variable {cr : Crates} {srv : DeltaTxnGrpcServer} {url : Url} {t : List Call}
  {s : DeltaTableState} {m : Pb.TableMetadata} {p : Pb.Protocol}

/-- The calls that read the table at `url` as `s`. -/
def readCalls (srv : DeltaTxnGrpcServer) (url : Url) (s : DeltaTableState) : List Call :=
  [⟨.buildTable url srv.storageOpts, .ok ()⟩, ⟨.isDeltaTableLocation url, .ok true⟩,
    ⟨.openTable url srv.storageOpts, .ok (.ok s)⟩]

/-- **A table that is read.** -/
theorem readTable_runs (h : (readTable cr srv url).run.Completes t (.ok (s, m, p))) :
    t = readCalls srv url s ∧ buildMetadataAndProtocol cr s = .ok (m, p) := by
  unfold readTable at h
  rcases Fallible.completes_mapErr_bind h with ⟨e, -, he⟩ | ⟨t₁, t₂, x, rfl, h₁, h₂⟩
  · cases he
  rcases tableExists_runs h₁ with ⟨e, -, he⟩ | ⟨x', rfl, hx⟩
  · cases he
  cases x' with
  | error e => cases hx
  | ok x' =>
    obtain rfl : x = x' := Except.ok.inj hx
    cases x with
    | false =>
      obtain ⟨-, he⟩ := Prog.completes_ret.1 h₂
      cases he
    | true =>
      rcases Fallible.completes_mapErr_bind h₂ with ⟨e, -, he⟩ | ⟨t₃, t₄, table, rfl, h₃, h₄⟩
      · cases he
      rcases openTable_runs h₃ with ⟨e, -, he⟩ | ⟨s', rfl, he⟩
      · cases he
      cases he
      rcases Fallible.completes_bind h₄ with ⟨e, -, he⟩ | ⟨t₅, t₆, s'', rfl, h₅, h₆⟩
      · cases he
      obtain ⟨rfl, hs⟩ := Fallible.completes_lift h₅
      cases s' with
      | error e => cases hs
      | ok s' =>
        cases hs
        rcases Fallible.completes_bind h₆ with ⟨e, -, he⟩ | ⟨t₇, t₈, ⟨m', p'⟩, rfl, h₇, h₈⟩
        · cases he
        obtain ⟨rfl, hbuild⟩ := Fallible.completes_lift h₇
        obtain ⟨rfl, he⟩ := Prog.completes_ret.1 h₈
        cases he
        exact ⟨rfl, hbuild.symm⟩

theorem openFailed_code (e : DeltaTableError) : (openFailed e).toStatus.code ≠ .notFound := by
  intro h
  cases h

theorem mapOpenOrSnapshotError_code (e : DeltaTableError) :
    (mapOpenOrSnapshotError e).code ≠ .notFound := by
  unfold mapOpenOrSnapshotError
  intro h
  split at h <;> cases h

theorem buildMetadataAndProtocol_code {st : Status}
    (h : buildMetadataAndProtocol cr s = .error st) : st.code ≠ .notFound := by
  intro hst
  have hopen : buildMetadataAndProtocol cr s =
      ((cr.parseSchema s.metadata.schemaString).mapError fun _ =>
        Status.internal "internal error parsing table schema") >>= fun schema =>
      ((cr.schemaToString schema).mapError fun _ =>
        Status.internal "internal error serializing table schema") >>= fun schemaString =>
      pure _ := rfl
  rw [hopen] at h
  cases hparse : cr.parseSchema s.metadata.schemaString with
  | error e =>
    rw [hparse] at h
    cases h
    cases hst
  | ok schema =>
    rw [hparse] at h
    cases htext : cr.schemaToString schema with
    | error e =>
      simp only [Except.mapError, bind, Except.bind, htext] at h
      cases h
      cases hst
    | ok text =>
      simp only [Except.mapError, bind, Except.bind, htext] at h
      cases h

/-- **NOT_FOUND** is answered only where there is no table. -/
theorem readTable_notFound {st : Status} (h : (readTable cr srv url).run.Completes t (.error st))
    (hst : st.code = .notFound) :
    t = [⟨.buildTable url srv.storageOpts, .ok ()⟩, ⟨.isDeltaTableLocation url, .ok false⟩] := by
  unfold readTable at h
  rcases Fallible.completes_mapErr_bind h with ⟨e, h₁, he⟩ | ⟨t₁, t₂, x, rfl, h₁, h₂⟩
  · -- an error of `table_exists` is INTERNAL
    cases he
    rcases tableExists_runs h₁ with ⟨e', -, he⟩ | ⟨x', -, hx⟩
    · cases he
      exact absurd hst (openFailed_code e')
    · cases x' with
      | error e' =>
        cases hx
        exact absurd hst (openFailed_code e')
      | ok x' => cases hx
  rcases tableExists_runs h₁ with ⟨e, -, he⟩ | ⟨x', rfl, hx⟩
  · cases he
  cases x' with
  | error e => cases hx
  | ok x' =>
    obtain rfl : x = x' := Except.ok.inj hx
    cases x with
    | false =>
      obtain ⟨rfl, -⟩ := Prog.completes_ret.1 h₂
      exact List.append_nil _
    | true =>
      -- with a table there, no failure has this code
      exfalso
      rcases Fallible.completes_mapErr_bind h₂ with ⟨e, h₃, he⟩ | ⟨t₃, t₄, table, rfl, -, h₄⟩
      · cases he
        rcases openTable_runs h₃ with ⟨e', -, he⟩ | ⟨s', -, he⟩
        · cases he
          exact openFailed_code e' hst
        · cases he
      rcases Fallible.completes_bind h₄ with ⟨e, h₅, he⟩ | ⟨t₅, t₆, s'', rfl, -, h₆⟩
      · cases he
        obtain ⟨-, hs⟩ := Fallible.completes_lift h₅
        cases hsnap : table.snapshot with
        | error e' =>
          rw [hsnap] at hs
          cases hs
          exact mapOpenOrSnapshotError_code e' hst
        | ok s' =>
          rw [hsnap] at hs
          cases hs
      rcases Fallible.completes_bind h₆ with ⟨e, h₇, he⟩ | ⟨t₇, t₈, mp, rfl, -, h₈⟩
      · cases he
        exact buildMetadataAndProtocol_code (Fallible.completes_lift h₇).2.symm hst
      · obtain ⟨-, he⟩ := Prog.completes_ret.1 h₈
        cases he

/-- **A GetTable that has answered OK.** -/
theorem getTableChecked_runs {resp : Pb.GetTableResponse}
    (h : (getTableChecked cr srv url).run.Completes t (.ok resp)) :
    ∃ s m p, t = readCalls srv url s ∧ buildMetadataAndProtocol cr s = .ok (m, p) ∧
      resp = ⟨s.version.toInt64, some m, some p⟩ := by
  unfold getTableChecked at h
  rcases Fallible.completes_bind h with ⟨st, -, he⟩ | ⟨t₁, t₂, ⟨s, m, p⟩, rfl, h₁, h₂⟩
  · cases he
  obtain ⟨rfl, hbuild⟩ := readTable_runs h₁
  obtain ⟨rfl, he⟩ := Prog.completes_ret.1 h₂
  cases he
  exact ⟨s, m, p, List.append_nil _, hbuild, rfl⟩

/-! ## ListActiveFiles -/

theorem send_eq_none {o : Op} (h : ¬ o.Sends) : streamChannel.send o = none := by
  cases o with
  | send item => exact absurd ⟨item, rfl⟩ h
  | _ => rfl

/-- Reading a table sends nothing. -/
theorem readTable_silentOps :
    (readTable cr srv url).run.All (fun o => streamChannel.send o = none) fun _ => True := by
  have hreads : (readTable cr srv url).run.All (Op.Reads srv url (some [])) fun _ => True :=
    readTable_reads
  refine hreads.mono (fun o ho => send_eq_none ?_) fun _ h => h
  rintro ⟨item, rfl⟩
  cases ho.1

/-- A task whose client is gone has nothing to report. -/
abbrev Quits (r : Except Status Unit) : Prop := r = .ok ()

/-- The loop over the files stops when the client is gone. -/
theorem streamFiles_stops : ∀ views batch,
    streamChannel.StopsRefused Quits (streamFiles cr views batch).run
  | [], batch => by
    unfold streamFiles
    split
    · exact ⟨fun _ _ _ _ => rfl, fun _ => trivial⟩
    · trivial
  | .error e :: _, _ => trivial
  | .ok view :: rest, batch => by
    unfold streamFiles
    simp only
    split
    · refine ⟨fun s b hs hb => ?_, fun b => ?_⟩
      · cases hs
        cases b with
        | error e => rfl
        | ok u => exact absurd rfl hb
      · cases b with
        | error e => trivial
        | ok u => exact streamFiles_stops rest []
    · exact streamFiles_stops rest _

theorem streamActiveFiles_stops :
    streamChannel.StopsRefused (fun _ => True) (streamActiveFiles cr srv url) := by
  have hinner : streamChannel.StopsRefused Quits (streamActiveFilesInner cr srv url).run := by
    refine Channel.StopsRefused.bind (R := fun _ => False) (.of_all readTable_silentOps)
      (fun _ h => h.elim) fun r => ?_
    cases r with
    | error st => trivial
    | ok smp =>
      -- the header, and the loop only if it was taken
      refine ⟨fun s b hs hb => ?_, fun b => ?_⟩
      · cases hs
        cases b with
        | error e => rfl
        | ok u => exact absurd rfl hb
      · cases b with
        | error e => trivial
        | ok u => exact streamFiles_stops _ _
  refine hinner.bind (fun r hr => ?_) fun r => ?_
  · subst hr
    trivial
  · cases r with
    | error st => exact ⟨fun _ _ _ _ => trivial, fun _ => trivial⟩
    | ok u => trivial

theorem sent_append (t t' : List Call) :
    streamChannel.sent (t ++ t') = streamChannel.sent t ++ streamChannel.sent t' :=
  List.filterMap_append

/-- Until its table is read the task has sent nothing. Then it only sends. -/
theorem streamActiveFilesInner_parts {q : Prog Op Ans (Except Status Unit)}
    (h : (streamActiveFilesInner cr srv url).run.Runs t q) :
    (streamChannel.sent t = [] ∧ ∀ a, q ≠ .ret (.ok a)) ∨
      ∃ s m p t', buildMetadataAndProtocol cr s = .ok (m, p) ∧ t = readCalls srv url s ++ t' ∧
        ∀ x ∈ t', Op.Sends x.1 := by
  rcases Fallible.runs_bind h with ⟨q', hread, hq⟩ | ⟨t₁, t₂, ⟨s, m, p⟩, rfl, hread, hrest⟩
  · exact Or.inl ⟨Channel.sent_eq_nil (readTable_silentOps.runs hread), hq⟩
  obtain ⟨rfl, hbuild⟩ := readTable_runs hread
  refine Or.inr ⟨s, m, p, t₂, hbuild, rfl, ?_⟩
  rcases Prog.runs_op hrest with rfl | ⟨b, t', rfl, hfiles⟩
  · intro x hx
    cases hx
  rw [List.forall_mem_cons]
  refine ⟨⟨_, rfl⟩, ?_⟩
  cases b with
  | error e =>
    obtain rfl := Prog.runs_ret hfiles
    intro x hx
    cases hx
  | ok u => exact (streamFiles_sends s.fileViews []).runs hfiles

/-- The same for the whole task, which sends its error at the end. -/
theorem streamActiveFiles_parts {q : Prog Op Ans Unit}
    (h : (streamActiveFiles cr srv url).Runs t q) :
    (streamChannel.sent t = [] ∧ q ≠ .ret ()) ∨ (∃ st, streamChannel.sent t = [.error st]) ∨
      ∃ s m p t', buildMetadataAndProtocol cr s = .ok (m, p) ∧ t = readCalls srv url s ++ t' ∧
        ∀ x ∈ t', Op.Sends x.1 := by
  rcases Prog.runs_bind h with ⟨p', hinner, rfl⟩ | ⟨t₁, t₂, r, rfl, hinner, hlast⟩
  · rcases streamActiveFilesInner_parts hinner with ⟨hsent, hp⟩ | hread
    · refine Or.inl ⟨hsent, ?_⟩
      cases p' with
      | op o k => exact fun hq => by cases hq
      | ret r =>
        cases r with
        | error st => exact fun hq => by cases hq
        | ok u => exact absurd rfl (hp u)
    · exact Or.inr (Or.inr hread)
  rcases streamActiveFilesInner_parts hinner with ⟨hsent, hr⟩ | ⟨s, m, p, t', hbuild, rfl, hsends⟩
  · -- the table could not be read: its error is the only item
    cases r with
    | ok u => exact absurd rfl (hr u)
    | error st =>
      rw [sent_append, hsent, List.nil_append]
      rcases Prog.runs_op hlast with rfl | ⟨b, t', rfl, hend⟩
      · refine Or.inl ⟨rfl, fun hq => ?_⟩
        subst hq
        cases hlast
      · obtain rfl := Prog.runs_ret hend
        exact Or.inr (Or.inl ⟨st, rfl⟩)
  · refine Or.inr (Or.inr ⟨s, m, p, t' ++ t₂, hbuild, List.append_assoc _ _ _, ?_⟩)
    intro x hx
    rcases List.mem_append.1 hx with hmem | hmem
    · exact hsends x hmem
    cases r with
    | ok u =>
      obtain rfl := Prog.runs_ret hlast
      cases hmem
    | error st =>
      have hall : (do let _ ← perform (.send (.error st)); return () : Prog Op Ans Unit).All Op.Sends
          fun _ => True := ⟨⟨_, rfl⟩, fun _ => trivial⟩
      exact hall.runs hlast x hmem

/-- The answers of a table that is read as `s`. -/
def readEnv (s : DeltaTableState) : (o : Op) → Ans o
  | .ensureTableUri uri => .ok ⟨uri⟩
  | .lockFor _ => 0
  | .lock _ => ()
  | .buildTable _ _ => .ok ()
  | .isDeltaTableLocation _ => .ok true
  | .openTable _ _ => .ok (.ok s)
  | .commitBuilder _ _ _ _ => .ok 0
  | .send _ => .ok ()

/-- **A ListActiveFiles at any moment of its run.** It has sent nothing, or one error, or it has
read the table, and what it has sent is an initial segment of the header and the batches of its
files; all of them if it has ended and its client has not gone away. -/
theorem streamActiveFiles_runs {q : Prog Op Ans Unit}
    (h : (streamActiveFiles cr srv url).Runs t q) :
    (streamChannel.sent t = [] ∧ q ≠ .ret ()) ∨ (∃ st, streamChannel.sent t = [.error st]) ∨
      ∃ s m p full, buildMetadataAndProtocol cr s = .ok (m, p) ∧ readCalls srv url s <+: t ∧
        Framed cr s (headerMessage s m p) full ∧ streamChannel.sent t <+: full ∧
        (q = .ret () → (∀ x ∈ t, streamChannel.Taken x) → streamChannel.sent t = full) := by
  rcases streamActiveFiles_parts h with hnone | hfailed | ⟨s, m, p, t', hbuild, rfl, hsends⟩
  · exact Or.inl hnone
  · exact Or.inr (Or.inl hfailed)
  -- seen from this snapshot on, it is the run of a task alone, with these answers
  have hreadable : Readable cr srv url (readEnv s) s m p := ⟨rfl, rfl, rfl, hbuild⟩
  have henv : ∀ x ∈ readCalls srv url s ++ t', streamChannel.send x.1 = none → x.2 = readEnv s x.1 := by
    intro x hx hsend
    rcases List.mem_append.1 hx with hmem | hmem
    · simp only [readCalls, List.mem_cons, List.not_mem_nil, or_false] at hmem
      rcases hmem with rfl | rfl | rfl <;> rfl
    · obtain ⟨o, b⟩ := x
      obtain ⟨item, rfl⟩ := hsends _ hmem
      cases hsend
  obtain ⟨hinit, hall⟩ := Channel.sent_initial streamActiveFiles_stops h henv
  exact Or.inr (Or.inr ⟨s, m, p, _, hbuild, List.prefix_append _ _,
    streamActiveFiles_framed hreadable, hinit, fun hq htaken => (hall () hq htaken).1⟩)

/-- The file stream of a snapshot, up to its first error. -/
theorem exists_views (items : List (Except DeltaTableError LogicalFileView)) :
    ∃ views : List LogicalFileView, items = views.map .ok ∨
      ∃ e rest, items = views.map .ok ++ .error e :: rest := by
  induction items with
  | nil => exact ⟨[], Or.inl rfl⟩
  | cons item items ih =>
    cases item with
    | error e => exact ⟨[], Or.inr ⟨e, items, rfl⟩⟩
    | ok view =>
      obtain ⟨views, h | ⟨e, rest, h⟩⟩ := ih
      · exact ⟨view :: views, Or.inl (by rw [h]; rfl)⟩
      · exact ⟨view :: views, Or.inr ⟨e, rest, by rw [h]; rfl⟩⟩

/-- A listing has one header. -/
theorem Framed.header_unique {header : Pb.ListActiveFilesResponse} {full : List StreamItem}
    {resp : Pb.ListActiveFilesHeader} (h : Framed cr s header full)
    (hmem : .ok ⟨some (.header resp)⟩ ∈ full) : header = ⟨some (.header resp)⟩ := by
  have hbatch : ∀ batches : List (List Pb.AddFile),
      (.ok ⟨some (.header resp)⟩ : StreamItem) ∉ batchItems batches := by
    intro batches hin
    obtain ⟨b, -, hb⟩ := List.mem_map.1 hin
    cases hb
  obtain ⟨views, hv | ⟨e, rest, hv⟩⟩ := exists_views s.fileViews
  · obtain ⟨batches, -, -, rfl⟩ := h.complete views hv
    rcases List.mem_cons.1 hmem with heq | hin
    · exact (Except.ok.inj heq).symm
    · exact absurd hin (hbatch batches)
  · obtain ⟨batches, -, -, rfl⟩ := h.failed views e rest hv
    rcases List.mem_append.1 hmem with hlist | herr
    · rcases List.mem_cons.1 hlist with heq | hin
      · exact (Except.ok.inj heq).symm
      · exact absurd hin (hbatch batches)
    · cases List.mem_singleton.1 herr

end DeltaTxn
