import DeltaTxn.Conc.Prog
import Mathlib.Order.WellFounded

/-!
# A producer on a bounded channel

A program sends items on a channel of bounded capacity; a client receives them, in step or
not with the producer, and may go away at any point. A send is taken once there is room, and
refused once the client is gone.

* `output_bind`: what a composition sends, if every send is taken.
* `Reach.received_prefix`: a client has received an initial segment of that.
* `listen_wf`, `Reach.complete`: a client that keeps receiving gets all of it.
-/

namespace Conc

/-- An operation that sends: the item, and what it answers when the item is taken or
refused. -/
structure Send (M B : Type) where
  item : M
  taken : B
  refused : B

/-- **A bounded channel**, and which operations send on it. -/
structure Channel (Op : Type) (Ans : Op → Type) (M : Type) where
  capacity : ℕ
  capacity_pos : 0 < capacity
  send : (o : Op) → Option (Send M (Ans o))

namespace Channel

variable {Op M : Type} {Ans : Op → Type} {α β ε E : Type} (ch : Channel Op Ans M)
  (env : (o : Op) → Ans o)

/-! ## A producer alone -/

/-- The answer of an operation while every send is taken. The other operations are answered
by `env`. -/
def answer (o : Op) : Ans o :=
  match ch.send o with
  | some s => s.taken
  | none => env o

/-- **What a program sends**, if every send is taken. -/
def output : Prog Op Ans α → List M
  | .ret _ => []
  | .op o k => ((ch.send o).map Send.item).toList ++ output (k (ch.answer env o))

/-- What the program returns then. -/
def result : Prog Op Ans α → α
  | .ret a => a
  | .op o k => result (k (ch.answer env o))

/-- The number of its operations then. -/
def size : Prog Op Ans α → ℕ
  | .ret _ => 0
  | .op o k => size (k (ch.answer env o)) + 1

@[simp] theorem output_ret (a : α) : ch.output env (.ret a : Prog Op Ans α) = [] := rfl

theorem output_bind (p : Prog Op Ans α) (f : α → Prog Op Ans β) :
    ch.output env (p >>= f) = ch.output env p ++ ch.output env (f (ch.result env p)) := by
  induction p with
  | ret a => rfl
  | op o k ih =>
    rw [Prog.op_bind, output, output, result, ih, List.append_assoc]

theorem result_bind (p : Prog Op Ans α) (f : α → Prog Op Ans β) :
    ch.result env (p >>= f) = ch.result env (f (ch.result env p)) := by
  induction p with
  | ret a => rfl
  | op o k ih => exact ih _

/-- The program sends nothing and returns `a`. -/
structure Silent (p : Prog Op Ans α) (a : α) : Prop where
  output : ch.output env p = []
  result : ch.result env p = a

namespace Silent

variable {ch env} {p : Prog Op Ans α} {f : α → Prog Op Ans β} {a : α} {b : β}

theorem ret (a : α) : ch.Silent env (.ret a : Prog Op Ans α) a := ⟨rfl, rfl⟩

/-- An operation that is no send. -/
theorem call {o : Op} {b : Ans o} (ho : ch.send o = none) (hb : env o = b) :
    ch.Silent env (Prog.call o : Prog Op Ans (Ans o)) b := by
  constructor <;> simp [Prog.call, Channel.output, Channel.result, answer, ho, hb]

/-- What comes after a silent program. -/
theorem run_bind (hp : ch.Silent env p a) :
    ch.output env (p >>= f) = ch.output env (f a) ∧ ch.result env (p >>= f) = ch.result env (f a) := by
  rw [output_bind, result_bind, hp.output, hp.result]
  exact ⟨rfl, rfl⟩

theorem bind (hp : ch.Silent env p a) (hf : ch.Silent env (f a) b) : ch.Silent env (p >>= f) b := by
  obtain ⟨ho, hr⟩ := hp.run_bind (f := f)
  exact ⟨ho.trans hf.output, hr.trans hf.result⟩

variable {x : Fallible Op Ans ε α} {g : α → Fallible Op Ans ε β} {r : Except ε β} {e : ε}

/-- Sequential composition, if the first part succeeds. -/
theorem fbind (hx : ch.Silent env x.run (.ok a)) (hg : ch.Silent env (g a).run r) :
    ch.Silent env (x >>= g).run r := by
  rw [ExceptT.run_bind]
  exact hx.bind hg

/-- Sequential composition, if the first part fails. -/
theorem fbind_error (hx : ch.Silent env x.run (.error e)) :
    ch.Silent env (x >>= g).run (.error e) := by
  rw [ExceptT.run_bind]
  exact hx.bind (ret _)

/-- A computation without operations. -/
theorem lift {r r' : Except ε α} (h : r = r') :
    ch.Silent env (liftM r : Fallible Op Ans ε α).run r' :=
  h ▸ ret r

theorem mapErr {h : E → ε} {p : Prog Op Ans (Except E α)} {r : Except E α}
    (hp : ch.Silent env p r) : ch.Silent env (Prog.mapErr h p).run (r.mapError h) :=
  hp.bind (ret _)

end Silent

/-! ## A producer among other tasks -/

/-- What a list of calls sends, whether it was taken or not. -/
def sent (t : List (Call Op Ans)) : List M := t.filterMap fun x => (ch.send x.1).map Send.item

/-- The call is no send, or one that was taken. -/
def Taken (x : Call Op Ans) : Prop := ∀ s, ch.send x.1 = some s → x.2 = s.taken

/-- After a send that was not taken, the program sends nothing, and its result satisfies `R`. -/
def StopsRefused (R : α → Prop) : Prog Op Ans α → Prop
  | .ret _ => True
  | .op o k => (∀ s b, ch.send o = some s → b ≠ s.taken →
      (k b).All (fun o' => ch.send o' = none) R) ∧ ∀ b, StopsRefused R (k b)

theorem sent_cons (x : Call Op Ans) (t : List (Call Op Ans)) :
    ch.sent (x :: t) = ((ch.send x.1).map Send.item).toList ++ ch.sent t := by
  unfold sent
  rw [List.filterMap_cons]
  cases ch.send x.1 with
  | none => rfl
  | some s => rfl

variable {ch env} in
theorem sent_eq_nil {t : List (Call Op Ans)} (h : ∀ x ∈ t, ch.send x.1 = none) : ch.sent t = [] := by
  unfold sent
  rw [List.filterMap_eq_nil_iff]
  intro x hx
  rw [h x hx]
  rfl

variable {ch env} in
theorem StopsRefused.of_all {R R' : α → Prop} {p : Prog Op Ans α}
    (h : p.All (fun o => ch.send o = none) R') : ch.StopsRefused R p := by
  induction p with
  | ret a => trivial
  | op o k ih =>
    refine ⟨fun s b hs _ => ?_, fun b => ih b (h.2 b)⟩
    rw [h.1] at hs
    cases hs

variable {ch env} in
/-- Sequential composition: the second part sends nothing after a first that was refused. -/
theorem StopsRefused.bind {p : Prog Op Ans α} {f : α → Prog Op Ans β} {R : α → Prop} {R' : β → Prop}
    (hp : ch.StopsRefused R p) (hR : ∀ a, R a → (f a).All (fun o => ch.send o = none) R')
    (hf : ∀ a, ch.StopsRefused R' (f a)) : ch.StopsRefused R' (p >>= f) := by
  induction p with
  | ret a => exact hf a
  | op o k ih =>
    refine ⟨fun s b hs hb => ?_, fun b => ih b (hp.2 b)⟩
    exact Prog.all_bind (hp.1 s b hs hb) hR

variable {ch env} in
/-- **What is sent in a run** in which `env` answers all other operations: an initial segment of
the output. All of it, if the run is complete and every send was taken. -/
theorem sent_initial {R : α → Prop} {p q : Prog Op Ans α} {t : List (Call Op Ans)}
    (hp : ch.StopsRefused R p) (h : p.Runs t q) (henv : ∀ x ∈ t, ch.send x.1 = none → x.2 = env x.1) :
    ch.sent t <+: ch.output env p ∧
      ∀ a, q = .ret a → (∀ x ∈ t, ch.Taken x) → ch.sent t = ch.output env p ∧ a = ch.result env p := by
  induction h with
  | refl p =>
    refine ⟨List.nil_prefix, fun a ha _ => ?_⟩
    subst ha
    exact ⟨rfl, rfl⟩
  | @step o k b t q hr ih =>
    obtain ⟨hfirst, hrest⟩ := List.forall_mem_cons.1 henv
    obtain ⟨hinit, hall⟩ := ih (hp.2 b) hrest
    by_cases hb : b = ch.answer env o
    · -- answered as in the output: a send that was taken, or another operation
      subst hb
      rw [sent_cons, output, result]
      refine ⟨(List.prefix_append_right_inj _).2 hinit, fun a ha htaken => ?_⟩
      obtain ⟨hsent, hresult⟩ := hall a ha (List.forall_mem_cons.1 htaken).2
      exact ⟨congrArg _ hsent, hresult⟩
    cases hs : ch.send o with
    | none =>
      refine absurd ?_ hb
      unfold answer
      rw [hs]
      exact hfirst hs
    | some s =>
      have hrefused : b ≠ s.taken := by
        intro htaken
        refine hb ?_
        unfold answer
        rw [hs]
        exact htaken
      -- the client is gone
      have hnone := sent_eq_nil ((hp.1 s b hs hrefused).runs hr)
      rw [sent_cons, hnone, List.append_nil, output]
      refine ⟨List.prefix_append _ _, fun a _ htaken => ?_⟩
      exact absurd ((List.forall_mem_cons.1 htaken).1 s hs) hrefused

/-! ## The producer and the client -/

/-- A stream on its way: what is left of the producer, the items sent and not received, the
items received, and whether the client is still there. -/
structure Stream (Op : Type) (Ans : Op → Type) (M α : Type) where
  producer : Prog Op Ans α
  queue : List M
  received : List M
  connected : Bool

/-- A step of the producer, or of a client that keeps receiving. -/
inductive Listen : Stream Op Ans M α → Stream Op Ans M α → Prop
  | work {o : Op} {k : Ans o → Prog Op Ans α} {q r : List M} {b : Bool} (ho : ch.send o = none) :
      Listen ⟨.op o k, q, r, b⟩ ⟨k (env o), q, r, b⟩
  | send {o : Op} {k : Ans o → Prog Op Ans α} {q r : List M} {s : Send M (Ans o)}
      (ho : ch.send o = some s) (hq : q.length < ch.capacity) :
      Listen ⟨.op o k, q, r, true⟩ ⟨k s.taken, q ++ [s.item], r, true⟩
  | refuse {o : Op} {k : Ans o → Prog Op Ans α} {q r : List M} {s : Send M (Ans o)}
      (ho : ch.send o = some s) :
      Listen ⟨.op o k, q, r, false⟩ ⟨k s.refused, q, r, false⟩
  | receive {p : Prog Op Ans α} {m : M} {q r : List M} :
      Listen ⟨p, m :: q, r, true⟩ ⟨p, q, r ++ [m], true⟩

/-- A step of the stream: one of those, or the client goes away and the queue is dropped. -/
inductive Step : Stream Op Ans M α → Stream Op Ans M α → Prop
  | listen {c c' : Stream Op Ans M α} (h : ch.Listen env c c') : Step c c'
  | leave {p : Prog Op Ans α} {q r : List M} : Step ⟨p, q, r, true⟩ ⟨p, [], r, false⟩

/-- A stream at its start. -/
def Stream.start (p : Prog Op Ans α) : Stream Op Ans M α := ⟨p, [], [], true⟩

/-- The streams that come about from `p`. -/
def Reach (p : Prog Op Ans α) (c : Stream Op Ans M α) : Prop :=
  Relation.ReflTransGen (ch.Step env) (.start p) c

/-- The producer has ended and everything it sent is received: what the client sees as the
end of the stream. -/
def Stream.Ended (c : Stream Op Ans M α) : Prop :=
  (∃ a, c.producer = .ret a) ∧ c.queue = [] ∧ c.connected = true

/-- What is received, queued and still to be sent makes up the output; of a client that is
gone, what it received is an initial segment. -/
def Accounted (full : List M) (c : Stream Op Ans M α) : Prop :=
  if c.connected then c.received ++ c.queue ++ ch.output env c.producer = full
  else c.received <+: full

variable {ch env}

theorem Accounted.listen {full : List M} {c c' : Stream Op Ans M α} (hc : ch.Accounted env full c)
    (h : ch.Listen env c c') : ch.Accounted env full c' := by
  cases h with
  | @work o k q r b ho =>
    cases b with
    | false => exact hc
    | true =>
      change r ++ q ++ ch.output env (.op o k) = full at hc
      simpa [Accounted, output, answer, ho] using hc
  | @send o k q r s ho hq =>
    change r ++ q ++ ch.output env (.op o k) = full at hc
    simpa [Accounted, output, answer, ho] using hc
  | refuse ho => exact hc
  | @receive p m q r =>
    change r ++ (m :: q) ++ ch.output env p = full at hc
    simpa [Accounted] using hc

theorem Accounted.step {full : List M} {c c' : Stream Op Ans M α} (hc : ch.Accounted env full c)
    (h : ch.Step env c c') : ch.Accounted env full c' := by
  cases h with
  | listen h => exact hc.listen h
  | @leave p q r =>
    change r ++ q ++ ch.output env p = full at hc
    change r <+: full
    rw [← hc, List.append_assoc]
    exact List.prefix_append _ _

variable {p : Prog Op Ans α} {c : Stream Op Ans M α}

theorem Reach.accounted (h : ch.Reach env p c) : ch.Accounted env (ch.output env p) c := by
  induction h with
  | refl => simp [Accounted, Stream.start]
  | tail _ hs ih => exact ih.step hs

/-- **A client has received an initial segment of the output**, wherever it stops. -/
theorem Reach.received_prefix (h : ch.Reach env p c) : c.received <+: ch.output env p := by
  have hacc := h.accounted
  unfold Accounted at hacc
  split at hacc
  · rw [← hacc, List.append_assoc]
    exact List.prefix_append _ _
  · exact hacc

/-- At the end of the stream the client has received all of the output. -/
theorem Reach.ended (h : ch.Reach env p c) (he : c.Ended) : c.received = ch.output env p := by
  obtain ⟨⟨a, hp⟩, hq, hc⟩ := he
  have hacc := h.accounted
  rw [Accounted, if_pos hc, hq, hp, output_ret, List.append_nil, List.append_nil] at hacc
  exact hacc

/-! ## A client that keeps receiving -/

/-- A client that keeps receiving stays. Each step brings the stream nearer its end: an
operation counts two, an item in the queue one. -/
theorem listen_connected {c' : Stream Op Ans M α} (h : ch.Listen env c c')
    (hc : c.connected = true) :
    c'.connected = true ∧
      2 * ch.size env c'.producer + c'.queue.length < 2 * ch.size env c.producer + c.queue.length := by
  cases h with
  | work ho => exact ⟨hc, by simp only [size, answer, ho]; omega⟩
  | send ho hq =>
    refine ⟨rfl, ?_⟩
    simp only [size, answer, ho, List.length_append, List.length_singleton]
    omega
  | refuse ho => cases hc
  | receive => exact ⟨rfl, by simp only [List.length_cons]; omega⟩

/-- A client that keeps receiving is never stuck before the end: the producer waits for room
only while there is something to receive. -/
theorem listen_progress (hc : c.connected = true) : c.Ended ∨ ∃ c', ch.Listen env c c' := by
  obtain ⟨p, q, r, b⟩ := c
  cases hc
  -- with an empty queue there is room for a send
  cases q with
  | cons m q => exact Or.inr ⟨_, .receive⟩
  | nil =>
    cases p with
    | ret a => exact Or.inl ⟨⟨a, rfl⟩, rfl, rfl⟩
    | op o k =>
      cases ho : ch.send o with
      | none => exact Or.inr ⟨_, .work ho⟩
      | some s => exact Or.inr ⟨_, .send ho ch.capacity_pos⟩

/-- **A client that keeps receiving gets all of the output**: from wherever the stream is,
every such run ends, and ends with the whole output received. -/
theorem Reach.complete (h : ch.Reach env p c) (hc : c.connected = true) :
    Acc (fun c' c => ch.Listen env c c') c ∧
      ∀ d, Relation.ReflTransGen (ch.Listen env) c d → (∀ d', ¬ ch.Listen env d d') →
        d.Ended ∧ d.received = ch.output env p := by
  constructor
  · -- the measure of `listen_connected` falls with each step
    induction hn : 2 * ch.size env c.producer + c.queue.length using Nat.strongRecOn generalizing c with
    | _ n ih =>
      refine ⟨_, fun c' hl => ?_⟩
      obtain ⟨hc', hlt⟩ := listen_connected hl hc
      exact ih _ (hn ▸ hlt) (h.tail (.listen hl)) hc' rfl
  · intro d hd
    have hdc : ch.Reach env p d ∧ d.connected = true := by
      induction hd with
      | refl => exact ⟨h, hc⟩
      | tail _ hl ih => exact ⟨ih.1.tail (.listen hl), (listen_connected hl ih.2).1⟩
    intro hstuck
    -- where no step is possible, the stream is at its end
    rcases listen_progress hdc.2 with he | ⟨d', hl⟩
    · exact ⟨he, hdc.1.ended he⟩
    · exact absurd hl (hstuck d')

end Channel

end Conc
