import Mathlib.Data.List.Nodup
import DeltaTxn.Proof.Metrics

/-!
# The accounts of a process

Any number of requests are counted in the same three instruments, each by the recorder that its own
`call` has captured, while all of them are polled in any order. The accounts are those of the
requests one by one.

* `callRecorder_path`: under which service and method a path is counted.
* `Accounts`: the instruments and what has been recorded, with the requests it was recorded of.
* `Tracks`: how far a request has got, by its own events.
* `traffic_accounted`: the accounts after any run.
-/

namespace DeltaTxn

open Conc

/-! ## The labels -/

/-- **A path is counted under its service and its method.** -/
theorem callRecorder_path {service method : String} (hmethod : '/' ∉ method.toList)
    (hservice : service.toList.head? ≠ some '/') (now : Instant) :
    callRecorder ("/" ++ service ++ "/" ++ method) now = ⟨service, method, now⟩ := by
  have hpath : ("/" ++ service ++ "/" ++ method).toList =
      ('/' :: service.toList) ++ '/' :: method.toList := by
    simp [String.toList_append]
  have hsplit : (("/" ++ service ++ "/" ++ method).toList.splitOn '/').reverse =
      method.toList :: (('/' :: service.toList).splitOn '/').reverse := by
    rw [hpath, List.splitOn_append_cons_self, List.splitOn_eq_singleton hmethod, List.reverse_append]
    rfl
  obtain ⟨piece, pieces, hpieces⟩ := List.exists_cons_of_ne_nil
    (mt List.reverse_eq_nil_iff.1 (List.splitOn_ne_nil '/' ('/' :: service.toList)))
  have hbefore : ['/'].intercalate (piece :: pieces).reverse = '/' :: service.toList := by
    rw [← hpieces, List.reverse_reverse, List.intercalate_splitOn]
  have hrsplitn2 : Str.rsplitn2 ("/" ++ service ++ "/" ++ method) '/' =
      [method, String.ofList ('/' :: service.toList)] := by
    unfold Str.rsplitn2
    rw [hsplit, hpieces]
    simp only [hbefore, String.ofList_toList]
  have hrsplit : (Str.rsplit ("/" ++ service ++ "/" ++ method) '/').head? = some method := by
    unfold Str.rsplit Str.split
    rw [← List.map_reverse, hsplit]
    simp
  have htrim : Str.trimStartMatches (String.ofList ('/' :: service.toList)) '/' = service := by
    unfold Str.trimStartMatches
    rw [String.toList_ofList, List.dropWhile_cons_of_pos (by simp)]
    cases hs : service.toList with
    | nil => rw [← String.toList_inj, hs]; simp
    | cons c cs =>
      rw [hs] at hservice
      rw [List.dropWhile_cons_of_neg (by simpa using hservice), ← hs, String.ofList_toList]
  unfold callRecorder
  rw [hrsplit, hrsplitn2]
  simp only [Option.getD_some, List.getLast?_cons_cons, List.getLast?_singleton, htrim]

variable {ι D H P B E F : Type} {fromHeaderMap : H → Option Code}

/-! ## The accounts -/

/-- **The instruments hold `recs`**, the last at the end, and no request twice. -/
structure Accounts (i : Instruments) (recs : List (ι × ℕ × Attributes)) : Prop where
  nodup : (recs.map Prod.fst).Nodup
  latencies : i.latencyHistogram = recs.map Prod.snd
  requests : i.requestCounter = recs.map (·.2.2)
  errors : i.errorCounter = (recs.map (·.2.2)).filter (·.statusCode ≠ .ok)

/-- What a recorder records. -/
def MetricsRecorder.recording (r : MetricsRecorder) (now : Instant) (code : Code) : ℕ × Attributes :=
  (now - r.start, ⟨"grpc", r.service, r.method, code⟩)

theorem Accounts.record {i : Instruments} {recs : List (ι × ℕ × Attributes)} (h : Accounts i recs) {j : ι}
    (hj : j ∉ recs.map Prod.fst) (r : MetricsRecorder) (now : Instant) (code : Code) :
    Accounts (r.record i now code) (recs ++ [(j, r.recording now code)]) where
  nodup := by
    rw [List.map_append, List.map_singleton, ← List.concat_eq_append]
    exact List.Nodup.concat hj h.nodup
  latencies := by
    rw [List.map_append, ← h.latencies]
    rfl
  requests := by
    rw [List.map_append, ← h.requests]
    rfl
  errors := by
    rw [List.map_append, List.filter_append, ← h.errors]
    change (if code ≠ .ok then i.errorCounter ++ [_] else i.errorCounter) = _
    by_cases hc : code = .ok
    · simp [MetricsRecorder.recording, hc]
    · simp [MetricsRecorder.recording, hc]

/-! ## One request -/

/-- What is to be recorded of a request, once it is known: by its path, when it was received, and its
owner's steps. -/
def due (fromHeaderMap : H → Option Code) (received : Option (String × Instant))
    (own : List (LifeEvent D H P B E F)) : Option (ℕ × Attributes) := do
  let (path, start) ← received
  let (now, code) ← firstTerminal fromHeaderMap own
  return (now - start, requestAttributes path code)

/-- **How far a request has got**, by its own events. -/
def Tracks (fromHeaderMap : H → Option Code) (received : Option (String × Instant))
    (own : List (LifeEvent D H P B E F)) : Option (Life B) → Prop
  | none => received = none ∧ own = []
  | some life => ∃ path start, received = some (path, start) ∧
      match life.recorder with
      | some r => r = callRecorder path start ∧ firstTerminal fromHeaderMap own = none
      | none => life = .gone ∨ ∃ x, firstTerminal fromHeaderMap own = some x

theorem firstTerminal_snoc (fromHeaderMap : H → Option Code) (own : List (LifeEvent D H P B E F))
    (e : LifeEvent D H P B E F) :
    firstTerminal fromHeaderMap (own ++ [e]) =
      (firstTerminal fromHeaderMap own).or (e.terminal fromHeaderMap) := by
  unfold firstTerminal
  rw [List.findSome?_append, List.findSome?_singleton]

theorem RequestState.life_of_drop {s t : RequestState D H P B E F}
    (h : s.step fromHeaderMap .drop = some t) : t.life = .gone := by
  simp only [step] at h
  split at h
  · cases h
  · cases h
    rfl

/-- What is due of a request is known once, and not before its first terminal poll. -/
theorem Tracks.step {received : Option (String × Instant)} {own : List (LifeEvent D H P B E F)}
    {life : Life B} {i : Instruments} {e : LifeEvent D H P B E F} {t : RequestState D H P B E F}
    (h : Tracks fromHeaderMap received own (some life))
    (hst : RequestState.step fromHeaderMap ⟨life, i, []⟩ e = some t) :
    Tracks fromHeaderMap received (own ++ [e]) (some t.life) ∧
      ((t.instruments = i ∧ due fromHeaderMap received (own ++ [e]) = due fromHeaderMap received own) ∨
        ∃ (r : MetricsRecorder) (now : Instant) (code : Code), t.instruments = r.record i now code ∧
          due fromHeaderMap received own = none ∧
          due fromHeaderMap received (own ++ [e]) = some (r.recording now code)) := by
  obtain ⟨path, start, rfl, hlife⟩ := h
  cases hr : life.recorder with
  | some r =>
    rw [hr] at hlife
    obtain ⟨rfl, hfirst⟩ := hlife
    have hstep := RequestState.step_armed hst hr
    have hfirst' := firstTerminal_snoc fromHeaderMap own e
    rw [hfirst, Option.none_or] at hfirst'
    cases he : e.terminal fromHeaderMap with
    | some x =>
      -- its first terminal poll: the recorder is used up
      obtain ⟨now, code⟩ := x
      rw [he] at hstep hfirst'
      refine ⟨⟨path, start, rfl, ?_⟩, Or.inr ⟨_, now, code, hstep.2, ?_, ?_⟩⟩
      · rw [hstep.1]
        exact Or.inr ⟨_, hfirst'⟩
      · simp [due, hfirst]
      · simp [due, hfirst', MetricsRecorder.recording, requestAttributes, callRecorder]
    | none =>
      rw [he] at hstep hfirst'
      obtain ⟨hi, hkept⟩ := hstep
      refine ⟨⟨path, start, rfl, ?_⟩, Or.inl ⟨hi, by simp [due, hfirst, hfirst']⟩⟩
      rcases hkept with rfl | hkept
      · have hgone : t.life = .gone := RequestState.life_of_drop hst
        rw [hgone]
        exact Or.inl rfl
      · rw [hkept]
        exact ⟨rfl, hfirst'⟩
  | none =>
    rw [hr] at hlife
    obtain ⟨hnone, hi⟩ := RequestState.step_disarmed hst hr
    rcases hlife with rfl | ⟨x, hfirst⟩
    · -- nothing is left that could be polled
      rcases e with ⟨now, inner | inner⟩ | _ <;> cases hst
    have hfirst' := firstTerminal_snoc fromHeaderMap own e
    rw [hfirst, Option.some_or] at hfirst'
    refine ⟨⟨path, start, rfl, ?_⟩, Or.inl ⟨hi, by simp [due, hfirst, hfirst']⟩⟩
    rw [hnone]
    exact Or.inr ⟨x, hfirst'⟩

/-! ## All of them -/

variable [DecidableEq ι]

/-- The path of request `i` and when it was received, if the event says so. -/
def TrafficEvent.received (i : ι) : TrafficEvent ι D H P B E F → Option (String × Instant)
  | .call j path now => if j = i then some (path, now) else none
  | .owner _ _ => none

/-- The step of the owner of request `i`, if the event is one. -/
def TrafficEvent.ofOwner (i : ι) : TrafficEvent ι D H P B E F → Option (LifeEvent D H P B E F)
  | .call _ _ _ => none
  | .owner j e => if j = i then some e else none

/-- The path of request `i` and when it was received, if it was. -/
def received (i : ι) (es : List (TrafficEvent ι D H P B E F)) : Option (String × Instant) :=
  es.findSome? (TrafficEvent.received i)

/-- The steps of the owner of request `i`. -/
def lifeOf (i : ι) (es : List (TrafficEvent ι D H P B E F)) : List (LifeEvent D H P B E F) :=
  es.filterMap (TrafficEvent.ofOwner i)

variable {es : List (TrafficEvent ι D H P B E F)} {i j : ι}

theorem received_snoc (e : TrafficEvent ι D H P B E F) :
    received i (es ++ [e]) = (received i es).or (e.received i) := by
  unfold received
  rw [List.findSome?_append, List.findSome?_singleton]

theorem lifeOf_snoc (e : TrafficEvent ι D H P B E F) :
    lifeOf i (es ++ [e]) = lifeOf i es ++ (e.ofOwner i).toList := by
  unfold lifeOf
  rw [List.filterMap_append]
  cases h : e.ofOwner i <;> simp [h]

/-! What one event adds to the history of each request. -/

theorem lifeOf_call (j : ι) (path : String) (now : Instant) :
    lifeOf j (es ++ [.call i path now]) = lifeOf j es :=
  (lifeOf_snoc _).trans (List.append_nil _)

theorem received_call_self (path : String) (now : Instant) (hi : received i es = none) :
    received i (es ++ [.call i path now]) = some (path, now) := by
  rw [received_snoc, TrafficEvent.received, if_pos rfl, hi, Option.none_or]

theorem received_call_of_ne (path : String) (now : Instant) (hj : j ≠ i) :
    received j (es ++ [.call i path now]) = received j es := by
  rw [received_snoc, TrafficEvent.received, if_neg (Ne.symm hj), Option.or_none]

theorem received_owner (j : ι) (e : LifeEvent D H P B E F) :
    received j (es ++ [.owner i e]) = received j es :=
  (received_snoc _).trans Option.or_none

theorem lifeOf_owner_self (e : LifeEvent D H P B E F) :
    lifeOf i (es ++ [.owner i e]) = lifeOf i es ++ [e] := by
  rw [lifeOf_snoc, TrafficEvent.ofOwner, if_pos rfl]
  rfl

theorem lifeOf_owner_of_ne (e : LifeEvent D H P B E F) (hj : j ≠ i) :
    lifeOf j (es ++ [.owner i e]) = lifeOf j es := by
  rw [lifeOf_snoc, TrafficEvent.ofOwner, if_neg (Ne.symm hj)]
  exact List.append_nil _

/-- **The accounts are those of the requests**: `recs` is what is recorded in the state `s`, and it is
what is due by the events `es`. -/
structure Balanced (fromHeaderMap : H → Option Code) (es : List (TrafficEvent ι D H P B E F))
    (s : Traffic ι B) (recs : List (ι × ℕ × Attributes)) : Prop where
  accounts : Accounts s.instruments recs
  due : ∀ i x, (i, x) ∈ recs ↔ due fromHeaderMap (received i es) (lifeOf i es) = some x
  tracks : ∀ i, Tracks fromHeaderMap (received i es) (lifeOf i es) (s.life i)

/-- A request is received. -/
theorem Balanced.call {s t : Traffic ι B} {recs : List (ι × ℕ × Attributes)} {path : String} {now : Instant}
    (h : Balanced fromHeaderMap es s recs)
    (hst : s.step fromHeaderMap (.call i path now : TrafficEvent ι D H P B E F) = some t) :
    Balanced fromHeaderMap (es ++ [.call i path now]) t recs := by
  simp only [Traffic.step] at hst
  split at hst
  · rename_i hlife
    cases hst
    have htracks := h.tracks i
    rw [hlife] at htracks
    obtain ⟨hnew, hown⟩ := htracks
    refine ⟨h.accounts, fun j x => ?_, fun j => ?_⟩
    · rw [h.due, lifeOf_call]
      by_cases hj : j = i
      · -- nothing is due of it, before and after
        subst hj
        rw [hown, hnew, received_call_self path now hnew]
        rfl
      · rw [received_call_of_ne path now hj]
    · rw [lifeOf_call]
      by_cases hj : j = i
      · subst hj
        rw [hown, received_call_self path now hnew]
        change Tracks _ _ _ (Function.update s.life j _ j)
        rw [Function.update_self]
        exact ⟨path, now, rfl, rfl, rfl⟩
      · rw [received_call_of_ne path now hj]
        change Tracks _ _ _ (Function.update s.life i _ j)
        rw [Function.update_of_ne hj]
        exact h.tracks j
  · cases hst

/-- What is due of the others does not change by a step of one owner. -/
theorem due_owner {e : LifeEvent D H P B E F} (hj : j ≠ i) :
    due fromHeaderMap (received j (es ++ [.owner i e])) (lifeOf j (es ++ [.owner i e])) =
      due fromHeaderMap (received j es) (lifeOf j es) := by
  rw [received_owner, lifeOf_owner_of_ne e hj]

/-- The owner of a request takes a step. -/
theorem Balanced.owner {s t : Traffic ι B} {recs : List (ι × ℕ × Attributes)}
    {e : LifeEvent D H P B E F} (h : Balanced fromHeaderMap es s recs)
    (hst : s.step fromHeaderMap (.owner i e) = some t) :
    ∃ recs', Balanced fromHeaderMap (es ++ [.owner i e]) t recs' := by
  obtain ⟨life, hlife, hst⟩ := Option.bind_eq_some_iff.1 hst
  obtain ⟨u, hu, hst⟩ := Option.bind_eq_some_iff.1 hst
  cases hst
  have htracks := h.tracks i
  rw [hlife] at htracks
  obtain ⟨htracks', hdue⟩ := htracks.step hu
  rw [← lifeOf_owner_self] at hdue htracks'
  have htracks'' : ∀ j, Tracks fromHeaderMap (received j (es ++ [.owner i e]))
      (lifeOf j (es ++ [.owner i e])) (Function.update s.life i (some u.life) j) := by
    intro j
    by_cases hj : j = i
    · subst hj
      rw [received_owner, Function.update_self]
      exact htracks'
    · rw [received_owner, lifeOf_owner_of_ne e hj, Function.update_of_ne hj]
      exact h.tracks j
  rcases hdue with ⟨hsame, hdue⟩ | ⟨r, now, code, hrecord, hno, hdue⟩
  · -- nothing is recorded, and nothing new is due
    refine ⟨recs, ?_, fun j x => ?_, htracks''⟩
    · change Accounts u.instruments recs
      rw [hsame]
      exact h.accounts
    · rw [h.due]
      by_cases hj : j = i
      · subst hj
        rw [received_owner, hdue]
      · rw [due_owner hj]
  · -- the recording that is due from now on
    have hnew : i ∉ recs.map Prod.fst := by
      intro hmem
      obtain ⟨⟨j, x⟩, hx, rfl⟩ := List.mem_map.1 hmem
      have hx' := (h.due _ _).1 hx
      rw [hno] at hx'
      cases hx'
    refine ⟨recs ++ [(i, r.recording now code)], ?_, fun j x => ?_, htracks''⟩
    · change Accounts u.instruments _
      rw [hrecord]
      exact h.accounts.record hnew r now code
    · rw [List.mem_append, List.mem_singleton, Prod.mk.injEq, h.due]
      by_cases hj : j = i
      · subst hj
        rw [received_owner, hdue, hno]
        simp [eq_comm]
      · rw [due_owner hj]
        simp [hj]

/-- **The accounts of a process.** After any steps of any number of requests, in any order, the three
instruments hold one recording of each request that has had a terminal poll, and nothing else: the
latency up to its first one, and its own labels, the code of that poll among them. The errors are those
whose code is not `Ok`. A request to `/service/method` is counted under this service and this method. -/
theorem traffic_accounted (fromHeaderMap : H → Option Code) (es : List (TrafficEvent ι D H P B E F))
    (s : Traffic ι B) (h : run (Traffic.step fromHeaderMap) .start es = some s) :
    (∃ recs : List (ι × ℕ × Attributes), Accounts s.instruments recs ∧
      ∀ i latency a, (i, latency, a) ∈ recs ↔ ∃ path start now code,
        received i es = some (path, start) ∧ firstTerminal fromHeaderMap (lifeOf i es) = some (now, code) ∧
        latency = now - start ∧ a = requestAttributes path code) ∧
    ∀ service method code, '/' ∉ method.toList → service.toList.head? ≠ some '/' →
      requestAttributes ("/" ++ service ++ "/" ++ method) code = ⟨"grpc", service, method, code⟩ := by
  refine ⟨?_, fun service method code hm hs => by rw [requestAttributes, callRecorder_path hm hs]⟩
  have hbalanced : ∃ recs, Balanced fromHeaderMap es s recs := by
    induction es using List.reverseRecOn generalizing s with
    | nil =>
      cases h
      exact ⟨[], ⟨List.nodup_nil, rfl, rfl, rfl⟩, fun i x => by simp [received, DeltaTxn.due],
        fun i => ⟨rfl, rfl⟩⟩
    | append_singleton es e ih =>
      obtain ⟨u, hu, hst⟩ := run_concat.1 h
      obtain ⟨recs, hrecs⟩ := ih u hu
      cases e with
      | call i path now => exact ⟨recs, hrecs.call hst⟩
      | owner i e => exact hrecs.owner hst
  obtain ⟨recs, hrecs⟩ := hbalanced
  refine ⟨recs, hrecs.accounts, fun i latency a => ?_⟩
  rw [hrecs.due]
  simp only [DeltaTxn.due, Option.bind_eq_bind, Option.bind_eq_some_iff, Option.pure_def, Option.some.injEq,
    Prod.mk.injEq, Prod.exists]
  constructor
  · rintro ⟨path, start, hreceived, now, code, hfirst, rfl, rfl⟩
    exact ⟨path, start, now, code, hreceived, hfirst, rfl, rfl⟩
  · rintro ⟨path, start, now, code, hreceived, hfirst, rfl, rfl⟩
    exact ⟨path, start, hreceived, now, code, hfirst, rfl, rfl⟩

/-- A Commit that fails while a listing is on its way, whose client then goes away. -/
def twoRequests : List (TrafficEvent Bool Unit (HashMap String) Unit Unit Unit Unit) :=
  [.call true "/delta.txn.v1.DeltaTxnService/Commit" 1,
    .call false "/delta.txn.v1.DeltaTxnService/ListActiveFiles" 2,
    .owner false (.poll 3 (.call (.ready (.ok ⟨∅, (), ()⟩)))),
    .owner true (.poll 5 (.call (.ready (.ok ⟨Std.ExtTreeMap.ofList [("grpc-status", "13")] compare, (), ()⟩)))),
    .owner false .drop]

/-- The Commit is counted, as an error after 4 ns, and the listing is not. -/
theorem traffic_accounted_twoRequests : ∃ (s : Traffic Bool Unit) (recs : List (Bool × ℕ × Attributes)),
    run (Traffic.step grpcStatus) .start twoRequests = some s ∧ Accounts s.instruments recs ∧
    (true, 4, ⟨"grpc", "delta.txn.v1.DeltaTxnService", "Commit", .internal⟩) ∈ recs ∧
    ∀ latency a, (false, latency, a) ∉ recs := by
  obtain ⟨⟨recs, haccounts, hrecs⟩, hlabels⟩ := traffic_accounted grpcStatus twoRequests _ rfl
  have hlabel := hlabels "delta.txn.v1.DeltaTxnService" "Commit" .internal (by decide) (by decide)
  refine ⟨_, recs, rfl, haccounts, (hrecs _ _ _).2 ⟨_, 1, 5, .internal, rfl, ?_, rfl, hlabel.symm⟩,
    fun latency a hmem => ?_⟩
  · decide
  · obtain ⟨path, start, now, code, -, hfirst, -⟩ := (hrecs _ _ _).1 hmem
    cases hfirst

end DeltaTxn
