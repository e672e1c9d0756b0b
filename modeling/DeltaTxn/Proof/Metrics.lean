import DeltaTxn.Conc.Steps
import DeltaTxn.Data.HashMap
import DeltaTxn.Spec.Metrics

/-!
# What is recorded of a request

A request is recorded by the first of its polls that is terminal: the one in which the inner
service fails, or answers Trailers-Only, or in which the inner body yields trailers, its end or
an error. The recorder is there until then and gone afterwards.

* `run_armed`, `run_disarmed`: the instruments after a run, with the recorder there and without.
* `run_answers`: the owner is answered what the inner service and its body answered.
* `metrics_record`: the two put together.
* `metrics_complete`: when a request whose future and body are gone was recorded.
-/

namespace DeltaTxn

open Conc

variable {D H P B E F : Type} {fromHeaderMap : H → Option Code}

/-! ## What should be recorded -/

/-- **The code a poll is terminal with**, if it is. -/
def Answer.terminal (fromHeaderMap : H → Option Code) : Answer D H P B E F → Option Code
  | .call (.ready (.error _)) => some .unknown
  | .call (.ready (.ok response)) => fromHeaderMap response.headers
  | .frame (.ready (some (.ok (.trailers h)))) => some ((fromHeaderMap h).getD .unknown)
  | .frame (.ready none) | .frame (.ready (some (.error _))) => some .unknown
  | .call .pending | .frame .pending | .frame (.ready (some (.ok (.data _)))) => none

/-- The same for an event, with the time of the poll. -/
def LifeEvent.terminal (fromHeaderMap : H → Option Code) :
    LifeEvent D H P B E F → Option (Instant × Code)
  | .poll now inner => (inner.terminal fromHeaderMap).map (now, ·)
  | .drop => none

/-- The first terminal poll of a life. -/
def firstTerminal (fromHeaderMap : H → Option Code) (es : List (LifeEvent D H P B E F)) :
    Option (Instant × Code) :=
  es.findSome? (LifeEvent.terminal fromHeaderMap)

/-- An answer with another body in it. -/
def Answer.mapBody {B' : Type} (f : B → B') : Answer D H P B E F → Answer D H P B' E F
  | .call .pending => .call .pending
  | .call (.ready (.error err)) => .call (.ready (.error err))
  | .call (.ready (.ok r)) => .call (.ready (.ok ⟨r.headers, r.rest, f r.body⟩))
  | .frame r => .frame r

/-- What the inner service or its body answered, if the event is a poll. -/
def LifeEvent.inner : LifeEvent D H P B E F → Option (Answer D H P B E F)
  | .poll _ inner => some inner
  | .drop => none

/-- The recorder that is still there. -/
def Life.recorder : Life B → Option MetricsRecorder
  | calling r => some r
  | responded body => body.recorder
  | failed | gone => none

/-! ## One step -/

theorem MetricsBody.takeAndRecord_some {b : MetricsBody B} {r : MetricsRecorder}
    (h : b.recorder = some r) (now : Instant) (code : Code) (i : Instruments) :
    b.takeAndRecord now code i = ({ b with recorder := none }, r.record i now code) := by
  unfold takeAndRecord
  rw [h]

theorem MetricsBody.takeAndRecord_none {b : MetricsBody B} (h : b.recorder = none) (now : Instant)
    (code : Code) (i : Instruments) : b.takeAndRecord now code i = (b, i) := by
  unfold takeAndRecord
  rw [h]

namespace RequestState

variable {s t : RequestState D H P B E F} {e : LifeEvent D H P B E F}
  {es : List (LifeEvent D H P B E F)} {r : MetricsRecorder}

theorem pollFrame_cases (b : MetricsBody B) (inner : FramePoll D H F) (now : Instant)
    (i : Instruments) :
    b.pollFrame fromHeaderMap inner now i =
      match (Answer.frame inner : Answer D H P B E F).terminal fromHeaderMap with
      | some code => (inner, b.takeAndRecord now code i)
      | none => (inner, b, i) := by
  rcases inner with _ | _ | _ | _ | _ <;> rfl

/-- **A step with the recorder there**: it is used by a terminal poll, and kept by any other. -/
theorem step_armed (h : s.step fromHeaderMap e = some t) (hr : s.life.recorder = some r) :
    match e.terminal fromHeaderMap with
    | some (now, code) => t.life.recorder = none ∧ t.instruments = r.record s.instruments now code
    | none => t.instruments = s.instruments ∧ (e = .drop ∨ t.life.recorder = some r) := by
  cases e with
  | drop =>
    simp only [step] at h
    split at h
    · cases h
    · cases h
      exact ⟨rfl, Or.inl rfl⟩
  | poll now inner =>
    cases inner with
    | call inner =>
      simp only [step] at h
      split at h
      · rename_i r' hlife
        rw [hlife] at hr
        cases hr
        cases h
        rcases inner with _ | _ | response
        · exact ⟨rfl, Or.inr rfl⟩
        · exact ⟨rfl, rfl⟩
        · simp only [LifeEvent.terminal, Answer.terminal, pollCall]
          cases fromHeaderMap response.headers with
          | none => exact ⟨rfl, Or.inr rfl⟩
          | some code => exact ⟨rfl, rfl⟩
      · cases h
    | frame inner =>
      simp only [step] at h
      split at h
      · rename_i body hlife
        rw [hlife] at hr
        cases h
        rw [pollFrame_cases (P := P) (E := E)]
        simp only [LifeEvent.terminal]
        cases (Answer.frame inner : Answer D H P B E F).terminal fromHeaderMap with
        | none => exact ⟨rfl, Or.inr hr⟩
        | some code =>
          have htake := MetricsBody.takeAndRecord_some hr now code s.instruments
          dsimp only [Option.map_some]
          rw [htake]
          exact ⟨rfl, rfl⟩
      · cases h

/-- **A step without the recorder** records nothing. -/
theorem step_disarmed (h : s.step fromHeaderMap e = some t) (hr : s.life.recorder = none) :
    t.life.recorder = none ∧ t.instruments = s.instruments := by
  cases e with
  | drop =>
    simp only [step] at h
    split at h
    · cases h
    · cases h
      exact ⟨rfl, rfl⟩
  | poll now inner =>
    cases inner with
    | call inner =>
      simp only [step] at h
      split at h
      · rename_i r' hlife
        rw [hlife] at hr
        cases hr
      · cases h
    | frame inner =>
      simp only [step] at h
      split at h
      · rename_i body hlife
        rw [hlife] at hr
        cases h
        rw [pollFrame_cases (P := P) (E := E)]
        cases (Answer.frame inner : Answer D H P B E F).terminal fromHeaderMap with
        | none => exact ⟨hr, rfl⟩
        | some code =>
          have htake := MetricsBody.takeAndRecord_none hr now code s.instruments
          dsimp only
          rw [htake]
          exact ⟨hr, rfl⟩
      · cases h

/-- A step answers what was answered inside, with the body wrapped. -/
theorem step_answers (h : s.step fromHeaderMap e = some t) :
    t.answers.map (Answer.mapBody MetricsBody.inner) =
      s.answers.map (Answer.mapBody MetricsBody.inner) ++ e.inner.toList := by
  cases e with
  | drop =>
    simp only [step] at h
    split at h
    · cases h
    · cases h
      exact (List.append_nil _).symm
  | poll now inner =>
    cases inner with
    | call inner =>
      simp only [step] at h
      split at h
      · cases h
        simp only [List.map_append, List.map_singleton, LifeEvent.inner, Option.toList_some]
        rcases inner with _ | _ | response
        · rfl
        · rfl
        · simp only [pollCall]
          cases fromHeaderMap response.headers <;> rfl
      · cases h
    | frame inner =>
      simp only [step] at h
      split at h
      · cases h
        rw [pollFrame_cases (P := P) (E := E)]
        simp only [List.map_append, List.map_singleton, LifeEvent.inner, Option.toList_some]
        cases (Answer.frame inner : Answer D H P B E F).terminal fromHeaderMap <;> rfl
      · cases h

/-- After a drop nothing is possible. -/
theorem run_gone (hg : s.life = .gone) (h : run (step fromHeaderMap) s es = some t) : es = [] := by
  cases es with
  | nil => rfl
  | cons e es =>
    obtain ⟨u, hu, -⟩ := Option.bind_eq_some_iff.1 h
    rcases e with ⟨now, inner | inner⟩ | _ <;> simp [step, hg] at hu

/-! ## Runs -/

theorem run_disarmed (h : run (step fromHeaderMap) s es = some t) (hr : s.life.recorder = none) :
    t.instruments = s.instruments := by
  refine (run_inv (P := fun t => t.life.recorder = none ∧ t.instruments = s.instruments) ?_
    ⟨hr, rfl⟩ h).2
  rintro u e v ⟨hu, hi⟩ hs
  obtain ⟨hv, hvi⟩ := step_disarmed hs hu
  exact ⟨hv, hvi.trans hi⟩

/-- **A run with the recorder there** records its first terminal poll, and nothing else. -/
theorem run_armed (h : run (step fromHeaderMap) s es = some t) (hr : s.life.recorder = some r) :
    t.instruments =
      match firstTerminal fromHeaderMap es with
      | some (now, code) => r.record s.instruments now code
      | none => s.instruments := by
  induction es generalizing s with
  | nil =>
    cases h
    rfl
  | cons e es ih =>
    obtain ⟨u, hu, hrest⟩ := Option.bind_eq_some_iff.1 h
    have hstep := step_armed hu hr
    simp only [firstTerminal, List.findSome?_cons]
    cases he : e.terminal fromHeaderMap with
    | some x =>
      rw [he] at hstep
      rw [run_disarmed hrest hstep.1]
      exact hstep.2
    | none =>
      rw [he] at hstep
      obtain ⟨hi, rfl | hur⟩ := hstep
      · -- dropped, so this is the end of the run
        have hgone : u.life = .gone := by
          simp only [step] at hu
          split at hu
          · cases hu
          · cases hu
            rfl
        obtain rfl := run_gone hgone hrest
        cases hrest
        exact hi
      · rw [ih hrest hur, hi]
        rfl

/-- **Transparency**: the answers of a run are those given inside. -/
theorem run_answers (h : run (step fromHeaderMap) s es = some t) :
    t.answers.map (Answer.mapBody MetricsBody.inner) =
      s.answers.map (Answer.mapBody MetricsBody.inner) ++ es.filterMap LifeEvent.inner := by
  induction es generalizing s with
  | nil =>
    cases h
    exact (List.append_nil _).symm
  | cons e es ih =>
    obtain ⟨u, hu, h⟩ := Option.bind_eq_some_iff.1 h
    rw [ih h, step_answers hu, List.append_assoc]
    cases e <;> rfl

end RequestState

/-! ## What is recorded -/

/-- What a request to `path` is counted under. -/
def requestAttributes (path : String) (code : Code) : Attributes where
  rpcSystem := "grpc"
  rpcService := (callRecorder path 0).service
  rpcMethod := (callRecorder path 0).method
  statusCode := code

open RequestState

/-- **What the metrics wrapper does**, whatever the inner service and its body answer, in whatever
order they are polled and wherever the request is dropped: its owner is answered what they
answered; the request is counted once with the code of its first terminal poll, and not at all
before that; and it is counted as an error exactly if that code is not `Ok`. -/
theorem metrics_record (fromHeaderMap : H → Option Code) (path : String) (now : Instant)
    (i : Instruments) (es : List (LifeEvent D H P B E F)) (s : RequestState D H P B E F)
    (h : run (step fromHeaderMap) (start path now i) es = some s) :
    s.answers.map (Answer.mapBody MetricsBody.inner) = es.filterMap LifeEvent.inner ∧
    s.instruments.requestCounter = i.requestCounter ++
      (firstTerminal fromHeaderMap es).toList.map (fun x => requestAttributes path x.2) ∧
    s.instruments.errorCounter = i.errorCounter ++
      ((firstTerminal fromHeaderMap es).toList.filter (fun x => x.2 ≠ .ok)).map
        (fun x => requestAttributes path x.2) ∧
    s.instruments.latencyHistogram = i.latencyHistogram ++
      (firstTerminal fromHeaderMap es).toList.map
        (fun x => (x.1 - now, requestAttributes path x.2)) := by
  refine ⟨run_answers h, ?_⟩
  rw [run_armed h rfl]
  cases firstTerminal fromHeaderMap es with
  | none => simp [start]
  | some x =>
    obtain ⟨t, code⟩ := x
    refine ⟨rfl, ?_, rfl⟩
    change (if code ≠ .ok then i.errorCounter ++ [requestAttributes path code]
      else i.errorCounter) = _
    by_cases hc : code = .ok
    · rw [if_neg (not_not.2 hc)]
      simp [hc]
    · rw [if_pos hc]
      simp [hc]

/-- `from_header_map`, on headers whose `grpc-status` is 0 or 13, or that have none. -/
def grpcStatus (headers : HashMap String) : Option Code :=
  headers["grpc-status"]?.map fun s => if s = "0" then .ok else .internal

/-- A life over header maps, with nothing else in it. -/
abbrev PlainEvent : Type := LifeEvent Unit (HashMap String) Unit Unit Unit Unit

/-- A stream that fails after its first message, and is polled on after its trailers. -/
def failedStream : List PlainEvent :=
  [.poll 1 (.call .pending), .poll 2 (.call (.ready (.ok ⟨∅, (), ()⟩))),
    .poll 3 (.frame (.ready (some (.ok (.data ()))))),
    .poll 4 (.frame (.ready (some (.ok (.trailers (Std.ExtTreeMap.ofList [("grpc-status", "13")] compare)))))),
    .poll 5 (.frame (.ready none)), .drop]

theorem metrics_record_failedStream : ∃ s : RequestState Unit (HashMap String) Unit Unit Unit Unit,
    run (step grpcStatus) (start "/delta.txn.v1.DeltaTxnService/ListActiveFiles" 0 ⟨[], [], []⟩)
      failedStream = some s ∧
    s.instruments.requestCounter =
      [⟨"grpc", "delta.txn.v1.DeltaTxnService", "ListActiveFiles", .internal⟩] := by
  refine ⟨_, rfl, ?_⟩
  refine (metrics_record grpcStatus _ 0 ⟨[], [], []⟩ failedStream _ rfl).2.1.trans ?_
  decide

/-- **When a request is not missing.** At any point of its life, so also once its future and its
body are gone, a request was recorded exactly once if and only if one of its polls was
terminal. -/
theorem metrics_complete (fromHeaderMap : H → Option Code) (path : String) (now : Instant)
    (i : Instruments) (es : List (LifeEvent D H P B E F)) (s : RequestState D H P B E F)
    (h : run (step fromHeaderMap) (start path now i) es = some s) :
    s.instruments.requestCounter.length = i.requestCounter.length + 1 ↔
      ∃ e ∈ es, (e.terminal fromHeaderMap).isSome = true := by
  have hcount : s.instruments.requestCounter.length =
      i.requestCounter.length + (firstTerminal fromHeaderMap es).toList.length := by
    rw [run_armed h rfl]
    cases firstTerminal fromHeaderMap es with
    | none => rfl
    | some x => simp [MetricsRecorder.record, record, start]
  have hfirst : (firstTerminal fromHeaderMap es).isSome = true ↔
      ∃ e ∈ es, (e.terminal fromHeaderMap).isSome = true := List.findSome?_isSome_iff
  rw [← hfirst, hcount]
  cases firstTerminal fromHeaderMap es <;> simp

/-- A stream whose client goes away after the first message. -/
def cancelledStream : List PlainEvent :=
  [.poll 1 (.call (.ready (.ok ⟨∅, (), ()⟩))), .poll 2 (.frame (.ready (some (.ok (.data ()))))), .drop]

/-- **A cancelled request is not counted.** -/
theorem metrics_not_complete :
    ¬ ∀ (es : List PlainEvent) (s : RequestState Unit (HashMap String) Unit Unit Unit Unit),
      run (step grpcStatus) (start "/delta.txn.v1.DeltaTxnService/ListActiveFiles" 0 ⟨[], [], []⟩) es =
        some s → s.life = .gone → s.instruments.requestCounter.length = 1 := by
  intro h
  have hcount := h cancelledStream _ rfl rfl
  exact absurd hcount (by decide)

theorem metrics_complete_failedStream : ∃ s : RequestState Unit (HashMap String) Unit Unit Unit Unit,
    run (step grpcStatus) (start "/delta.txn.v1.DeltaTxnService/ListActiveFiles" 0 ⟨[], [], []⟩)
      failedStream = some s ∧ s.life = .gone ∧ s.instruments.requestCounter.length = 0 + 1 := by
  refine ⟨_, rfl, rfl, ?_⟩
  refine (metrics_complete grpcStatus _ 0 ⟨[], [], []⟩ failedStream _ rfl).2 ?_
  exact ⟨.poll 5 (.frame (.ready none)), by simp [failedStream], rfl⟩

end DeltaTxn
