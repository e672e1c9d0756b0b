import DeltaTxn.Spec.Server

/-!
# The framing of ListActiveFiles

What the streaming task sends is a function of what the table answers: one header and the
batches of its files, or one error. The channel between the task and the client adds
nothing to that and takes nothing away.

* `streamFiles_views`: the loop over the file stream, as full batches and a rest.
* `streamActiveFiles_unreadable`, `streamActiveFiles_output`: the whole message sequence.
* `listing_framing`: what a client gets, whether it keeps receiving or stops.
-/

namespace DeltaTxn

open Conc

variable {cr : Crates} {srv : DeltaTxnGrpcServer} {url : Url} {env : (o : Op) → Ans o}

/-! ## Reading the table -/

/-- The answers with which the table is read: it exists, it opens, and its metadata is built. -/
structure Readable (cr : Crates) (srv : DeltaTxnGrpcServer) (url : Url) (env : (o : Op) → Ans o)
    (s : DeltaTableState) (m : Pb.TableMetadata) (p : Pb.Protocol) : Prop where
  builds : env (.buildTable url srv.storageOpts) = .ok ()
  present : env (.isDeltaTableLocation url) = .ok true
  opens : env (.openTable url srv.storageOpts) = .ok (.ok s)
  metadata : buildMetadataAndProtocol cr s = .ok (m, p)

theorem tableExists_silent {r : Except DeltaTableError Bool}
    (hb : env (.buildTable url srv.storageOpts) = .ok ())
    (hd : env (.isDeltaTableLocation url) = r) :
    streamChannel.Silent env (tableExists url srv.storageOpts).run (r.mapError openFailed) :=
  (Channel.Silent.call rfl hb).mapErr.fbind (Channel.Silent.call rfl hd).mapErr

theorem tableExists_silent_error {e : DeltaTableError}
    (hb : env (.buildTable url srv.storageOpts) = .error e) :
    streamChannel.Silent env (tableExists url srv.storageOpts).run (.error (openFailed e)) :=
  (Channel.Silent.call rfl hb).mapErr.fbind_error

theorem openTable_silent {s : Except DeltaTableError DeltaTableState}
    (ho : env (.openTable url srv.storageOpts) = .ok s) :
    streamChannel.Silent env (openTable url srv.storageOpts).run (.ok ⟨url, s⟩) :=
  (Channel.Silent.call rfl ho).mapErr.fbind (.ret _)

theorem openTable_silent_error {e : DeltaTableError}
    (ho : env (.openTable url srv.storageOpts) = .error e) :
    streamChannel.Silent env (openTable url srv.storageOpts).run (.error (openFailed e)) :=
  (Channel.Silent.call rfl ho).mapErr.fbind_error

/-- A readable table is read. -/
theorem readTable_silent {s : DeltaTableState} {m : Pb.TableMetadata} {p : Pb.Protocol}
    (h : Readable cr srv url env s m p) :
    streamChannel.Silent env (readTable cr srv url).run (.ok (s, m, p)) := by
  refine (tableExists_silent h.builds h.present).mapErr.fbind ?_
  refine (openTable_silent h.opens).mapErr.fbind ?_
  exact (Channel.Silent.lift rfl).fbind ((Channel.Silent.lift h.metadata).fbind (.ret _))

/-- Any other table is not. -/
theorem readTable_silent_error (h : ∀ s m p, ¬ Readable cr srv url env s m p) :
    ∃ st, streamChannel.Silent env (readTable cr srv url).run (.error st) := by
  unfold readTable
  -- the calls in order; the first that fails decides
  cases hb : env (.buildTable url srv.storageOpts) with
  | error e => exact ⟨_, (tableExists_silent_error hb).mapErr.fbind_error⟩
  | ok u =>
  cases hd : env (.isDeltaTableLocation url) with
  | error e => exact ⟨_, (tableExists_silent hb hd).mapErr.fbind_error⟩
  | ok b =>
  have hexists := (tableExists_silent hb hd).mapErr (h := DeltaTxnError.toStatus)
  cases b with
  | false => exact ⟨_, hexists.fbind (.ret _)⟩
  | true =>
  cases ho : env (.openTable url srv.storageOpts) with
  | error e => exact ⟨_, hexists.fbind (openTable_silent_error ho).mapErr.fbind_error⟩
  | ok snapshot =>
  have hopen := (openTable_silent ho).mapErr (h := DeltaTxnError.toStatus)
  cases snapshot with
  | error e => exact ⟨_, hexists.fbind (hopen.fbind (.ret _))⟩
  | ok s =>
  cases hm : buildMetadataAndProtocol cr s with
  | ok x => exact absurd ⟨hb, hd, ho, hm⟩ (h s x.1 x.2)
  | error st =>
    refine ⟨st, hexists.fbind (hopen.fbind ?_)⟩
    exact (Channel.Silent.lift rfl).fbind (Channel.Silent.lift hm).fbind_error

/-! ## The loop over the file stream -/

section Loop

variable {view : LogicalFileView} {batch : List Pb.AddFile}
  {rest : List (Except DeltaTableError LogicalFileView)}

/-- A file that does not fill the batch. -/
theorem streamFiles_more (h : batch.length + 1 < fileBatchSize) :
    streamFiles cr (.ok view :: rest) batch = streamFiles cr rest (batch ++ [fileViewToPb cr view]) := by
  have hlen : ¬ (batch ++ [fileViewToPb cr view]).length ≥ fileBatchSize := by
    rw [List.length_append, List.length_singleton]
    omega
  rw [streamFiles]
  exact if_neg hlen

/-- A file that fills the batch: the batch is sent. -/
theorem streamFiles_flush (env : (o : Op) → Ans o) (h : batch.length + 1 ≥ fileBatchSize) :
    streamChannel.output env (streamFiles cr (.ok view :: rest) batch).run =
        .ok (batchMessage (batch ++ [fileViewToPb cr view])) ::
          streamChannel.output env (streamFiles cr rest []).run ∧
      streamChannel.result env (streamFiles cr (.ok view :: rest) batch).run =
        streamChannel.result env (streamFiles cr rest []).run := by
  have hlen : (batch ++ [fileViewToPb cr view]).length ≥ fileBatchSize := by
    rw [List.length_append, List.length_singleton]
    exact h
  rw [streamFiles, if_pos hlen]
  exact ⟨rfl, rfl⟩

/-- **The loop**, over the files that come before the end of the stream or before an error:
full batches, and a rest that fills none. -/
theorem streamFiles_views (cr : Crates) (env : (o : Op) → Ans o)
    (rest : List (Except DeltaTableError LogicalFileView)) :
    ∀ (views : List LogicalFileView) (batch : List Pb.AddFile), batch.length < fileBatchSize →
      ∃ (batches : List (List Pb.AddFile)) (left : List Pb.AddFile),
        (∀ b ∈ batches, b.length = fileBatchSize) ∧ left.length < fileBatchSize ∧
        batches.flatten ++ left = batch ++ views.map (fileViewToPb cr) ∧
        streamChannel.output env (streamFiles cr (views.map .ok ++ rest) batch).run =
          batches.map (fun b => .ok (batchMessage b)) ++
            streamChannel.output env (streamFiles cr rest left).run ∧
        streamChannel.result env (streamFiles cr (views.map .ok ++ rest) batch).run =
          streamChannel.result env (streamFiles cr rest left).run := by
  intro views
  induction views with
  | nil => exact fun batch hb => ⟨[], batch, by simp, hb, by simp, rfl, rfl⟩
  | cons view views ih =>
    intro batch hb
    -- the file fills the batch or it does not
    by_cases hfull : batch.length + 1 < fileBatchSize
    · obtain ⟨batches, left, hlen, hleft, hflat, hout, hres⟩ :=
        ih (batch ++ [fileViewToPb cr view]) (by simpa using hfull)
      refine ⟨batches, left, hlen, hleft, by simpa using hflat, ?_, ?_⟩
      · rw [List.map_cons, List.cons_append, streamFiles_more hfull, hout]
      · rw [List.map_cons, List.cons_append, streamFiles_more hfull, hres]
    · obtain ⟨batches, left, hlen, hleft, hflat, hout, hres⟩ := ih [] (by decide)
      obtain ⟨ho, hr⟩ := streamFiles_flush env (Nat.not_lt.1 hfull)
      refine ⟨(batch ++ [fileViewToPb cr view]) :: batches, left, ?_, hleft, ?_, ?_, ?_⟩
      · rw [List.forall_mem_cons]
        exact ⟨by rw [List.length_append, List.length_singleton]; omega, hlen⟩
      · simpa using hflat
      · rw [List.map_cons, List.cons_append, ho, hout]
        rfl
      · rw [List.map_cons, List.cons_append, hr, hres]

end Loop

/-- Batches as the client may rely on them: none empty, none too large, and all but the last
full. -/
structure Batched (batches : List (List Pb.AddFile)) : Prop where
  nonempty : ∀ b ∈ batches, b ≠ []
  bounded : ∀ b ∈ batches, b.length ≤ fileBatchSize
  full : ∀ b ∈ batches.dropLast, b.length = fileBatchSize

/-- Full batches, and a last one that is not empty. -/
theorem Batched.of_full {batches : List (List Pb.AddFile)}
    (h : ∀ b ∈ batches, b.length = fileBatchSize) : Batched batches where
  nonempty b hb := by
    rintro rfl
    exact absurd (h [] hb) (by decide)
  bounded b hb := (h b hb).le
  full b hb := h b (List.dropLast_subset _ hb)

theorem Batched.snoc {batches : List (List Pb.AddFile)} {left : List Pb.AddFile}
    (h : ∀ b ∈ batches, b.length = fileBatchSize) (hne : left ≠ []) (hleft : left.length < fileBatchSize) :
    Batched (batches ++ [left]) where
  nonempty b hb := by
    rcases List.mem_append.1 hb with hb | hb
    · exact (Batched.of_full h).nonempty b hb
    · rwa [List.mem_singleton.1 hb]
  bounded b hb := by
    rcases List.mem_append.1 hb with hb | hb
    · exact (h b hb).le
    · rw [List.mem_singleton.1 hb]
      exact hleft.le
  full b hb := by
    rw [List.dropLast_concat] at hb
    exact h b hb

/-- The items of the batches. -/
def batchItems (batches : List (List Pb.AddFile)) : List StreamItem :=
  batches.map fun b => .ok (batchMessage b)

/-- The loop without an error: all files are sent. -/
theorem streamFiles_complete (cr : Crates) (env : (o : Op) → Ans o) (views : List LogicalFileView) :
    ∃ batches, Batched batches ∧ batches.flatten = views.map (fileViewToPb cr) ∧
      streamChannel.output env (streamFiles cr (views.map .ok) []).run = batchItems batches ∧
      streamChannel.result env (streamFiles cr (views.map .ok) []).run = .ok () := by
  obtain ⟨batches, left, hlen, hleft, hflat, hout, hres⟩ :=
    streamFiles_views cr env [] views [] (by decide)
  rw [List.append_nil] at hout hres
  rw [List.nil_append] at hflat
  rw [hout, hres]
  cases left with
  -- no files are left over: there is no tail to send
  | nil => exact ⟨batches, .of_full hlen, by simpa using hflat, List.append_nil _, rfl⟩
  | cons f fs =>
    refine ⟨batches ++ [f :: fs], .snoc hlen (List.cons_ne_nil _ _) hleft, by simpa using hflat, ?_, rfl⟩
    rw [batchItems, List.map_append]
    rfl

/-- The status of a file stream that fails. -/
def streamError : Status := .internal "internal error streaming active files"

/-- The loop with an error: full batches are sent, and then it fails. -/
theorem streamFiles_failed (cr : Crates) (env : (o : Op) → Ans o)
    (views : List LogicalFileView) (e : DeltaTableError) (rest : List (Except DeltaTableError LogicalFileView)) :
    ∃ batches, Batched batches ∧ batches.flatten <+: views.map (fileViewToPb cr) ∧
      streamChannel.output env (streamFiles cr (views.map .ok ++ .error e :: rest) []).run =
        batchItems batches ∧
      streamChannel.result env (streamFiles cr (views.map .ok ++ .error e :: rest) []).run =
        .error streamError := by
  obtain ⟨batches, left, hlen, -, hflat, hout, hres⟩ :=
    streamFiles_views cr env (.error e :: rest) views [] (by decide)
  rw [List.nil_append] at hflat
  exact ⟨batches, .of_full hlen, ⟨left, hflat⟩, hout.trans (List.append_nil _), hres⟩

/-! ## The whole message sequence -/

/-- A table that cannot be read: one error, and no header. -/
theorem streamActiveFiles_unreadable (h : ∀ s m p, ¬ Readable cr srv url env s m p) :
    ∃ st, streamChannel.output env (streamActiveFiles cr srv url) = [.error st] := by
  obtain ⟨st, hread⟩ := readTable_silent_error h
  have hinner : streamChannel.Silent env (streamActiveFilesInner cr srv url).run (.error st) :=
    hread.fbind_error
  exact ⟨st, hinner.run_bind.1⟩

/-- A table that can be read: the header, what the loop sends, and its error if it fails. -/
theorem streamActiveFiles_output {s : DeltaTableState} {m : Pb.TableMetadata} {p : Pb.Protocol}
    (h : Readable cr srv url env s m p) :
    streamChannel.output env (streamActiveFiles cr srv url) =
      .ok (headerMessage s m p) :: (streamChannel.output env (streamFiles cr s.fileViews []).run ++
        match streamChannel.result env (streamFiles cr s.fileViews []).run with
        | .error st => [.error st]
        | .ok () => []) := by
  have hinner : streamChannel.output env (streamActiveFilesInner cr srv url).run =
        .ok (headerMessage s m p) :: streamChannel.output env (streamFiles cr s.fileViews []).run ∧
      streamChannel.result env (streamActiveFilesInner cr srv url).run =
        streamChannel.result env (streamFiles cr s.fileViews []).run :=
    (readTable_silent h).run_bind
  unfold streamActiveFiles
  rw [Channel.output_bind, hinner.1, hinner.2, List.cons_append]
  cases streamChannel.result env (streamFiles cr s.fileViews []).run <;> rfl

/-! ## What a client gets -/

/-- A listing: the header, and after it the batches. -/
def listing (header : Pb.ListActiveFilesResponse) (batches : List (List Pb.AddFile)) :
    List StreamItem :=
  .ok header :: batchItems batches

/-- The messages of a table that can be read. A file stream that ends is sent whole; one that
fails is sent in part, and the listing ends with the error. -/
structure Framed (cr : Crates) (s : DeltaTableState) (header : Pb.ListActiveFilesResponse)
    (full : List StreamItem) : Prop where
  complete : ∀ views : List LogicalFileView, s.fileViews = views.map .ok →
    ∃ batches, Batched batches ∧ batches.flatten = views.map (fileViewToPb cr) ∧
      full = listing header batches
  failed : ∀ (views : List LogicalFileView) e rest, s.fileViews = views.map .ok ++ .error e :: rest →
    ∃ batches, Batched batches ∧ batches.flatten <+: views.map (fileViewToPb cr) ∧
      full = listing header batches ++ [.error streamError]

theorem streamActiveFiles_framed {s : DeltaTableState} {m : Pb.TableMetadata} {p : Pb.Protocol}
    (h : Readable cr srv url env s m p) :
    Framed cr s (headerMessage s m p) (streamChannel.output env (streamActiveFiles cr srv url)) where
  complete views hv := by
    obtain ⟨batches, hb, hflat, hout, hres⟩ := streamFiles_complete cr env views
    refine ⟨batches, hb, hflat, ?_⟩
    rw [streamActiveFiles_output h, hv, hout, hres, listing, List.append_nil]
  failed views e rest hv := by
    obtain ⟨batches, hb, hpre, hout, hres⟩ := streamFiles_failed cr env views e rest
    refine ⟨batches, hb, hpre, ?_⟩
    rw [streamActiveFiles_output h, hv, hout, hres, listing, List.cons_append]

/-- The message sequence of ListActiveFiles. -/
def messages (cr : Crates) (srv : DeltaTxnGrpcServer) (url : Url) (env : (o : Op) → Ans o) :
    List StreamItem :=
  streamChannel.output env (streamActiveFiles cr srv url)

/-- **The framing of ListActiveFiles.** The messages are one error for a table that cannot be
read, and else a header and the batches of its files. Wherever a client stops, it has received
an initial segment of them; one that keeps receiving gets all of them, and then the end of the
stream. -/
theorem listing_framing (cr : Crates) (srv : DeltaTxnGrpcServer) (url : Url)
    (env : (o : Op) → Ans o) :
    (∀ s m p, Readable cr srv url env s m p →
      Framed cr s (headerMessage s m p) (messages cr srv url env)) ∧
    ((∀ s m p, ¬ Readable cr srv url env s m p) → ∃ st, messages cr srv url env = [.error st]) ∧
    ∀ c, streamChannel.Reach env (streamActiveFiles cr srv url) c →
      c.received <+: messages cr srv url env ∧
      (c.Ended → c.received = messages cr srv url env) ∧
      (c.connected = true →
        Acc (fun c' c => streamChannel.Listen env c c') c ∧
        ∀ d, Relation.ReflTransGen (streamChannel.Listen env) c d →
          (∀ d', ¬ streamChannel.Listen env d d') →
            d.Ended ∧ d.received = messages cr srv url env) :=
  ⟨fun _ _ _ => streamActiveFiles_framed, streamActiveFiles_unreadable,
    fun _ hc => ⟨hc.received_prefix, hc.ended, hc.complete⟩⟩

end DeltaTxn
