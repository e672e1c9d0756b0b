import DeltaTxn.Spec.Middleware

/-!
# The middlewares call an instance that is not ready

`poll_ready` of a middleware makes its own inner instance ready, but `call` calls a clone of it,
which nobody has polled. So a caller that keeps to the rule of the service can have no request
served without the rule being broken on the inner service.

* `Middleware.lawful`: around any stack of services, one inner call is made, on a clone.
* `Middleware.Held`: the instances of futures that are not polled yet are not the caller's.
* `Middleware.keepsRule_iff`: in which runs the rule is kept on the inner service.
* `middlewares_keep_rule_iff`: the two middlewares, and the stack of the server.
-/

namespace DeltaTxn

open Conc

namespace Middleware

variable {D S F A Req : Type} {I : Service S F A Req} {inst : S → ℕ} {called : F → Prop}

/-- The future has made its inner call. -/
def Called (called : F → Prop) : CallFuture S F Req → Prop
  | .boxed _ _ => False
  | .awaiting f => called f

/-- **A middleware around a service is again such a service**: it may be stacked. -/
theorem lawful (D : Type) (h : I.Lawful inst called) :
    (service D I).Lawful (fun s => inst s.inner) (Called called) where
  pollReady s a w := h.pollReady s.inner a w
  clone s w := h.clone s.inner w
  serve := by
    intro s req w _
    -- the clone is not ready, whether or not the instance it is made from is
    obtain ⟨hinst, hworld⟩ := h.clone s.inner w
    have hready : (I.clone s.inner w).2.ready (inst (I.clone s.inner w).1) = false := by
      rw [hinst, hworld]
      exact Instances.ready_clone_next
    obtain ⟨hcalled, hserve⟩ := h.serve (I.clone s.inner w).1 req (I.clone s.inner w).2 hready
    exact ⟨hcalled, hserve.of_clone hworld⟩
  poll_called := by
    intro f w hf
    cases f with
    | boxed s req => exact hf.elim
    | awaiting f => exact h.poll_called f w hf

/-- A caller of the middleware. -/
abbrev CallerOf (D S F Req : Type) : Type := Caller (Middleware D S) (CallFuture S F Req) Req

/-- **What holds in every state**, by the instances that are held: those of the caller, which may be
ready, and those of futures that are not polled yet, which are other ones and are not. -/
structure Held (inst : S → ℕ) (called : F → Prop) (c : CallerOf D S F Req) : Prop where
  handles : ∀ h ∈ c.handles, inst h.service.inner < c.world.next
  boxed : ∀ s req, .boxed s req ∈ c.futures → inst s < c.world.next ∧
    c.world.ready (inst s) = false ∧ ∀ h ∈ c.handles, inst h.service.inner ≠ inst s
  awaiting : ∀ f, .awaiting f ∈ c.futures → called f
  unready : ∀ x ∈ c.world.calls, x.ready = false
  unpolled : c.world.calls = [] → ∀ f, .awaiting f ∉ c.futures

theorem held_start (s : Middleware D S) (hs : inst s.inner = 0) :
    Held inst called (Caller.start s : CallerOf D S F Req) where
  handles := by
    intro h hh
    rw [List.mem_singleton.1 hh, hs]
    exact Nat.one_pos
  boxed s req h := by cases h
  awaiting f h := by cases h
  unready x h := by cases h
  unpolled _ f h := by cases h

section Step

variable {isReady : A → Bool} {c c' : CallerOf D S F Req} {n m : ℕ} {a : A} {req : Req}

theorem held_pollReady (hI : I.Lawful inst called) (hc : Held inst called c)
    (h : c.step (service D I) isReady (.pollReady n a) = some c') :
    Held inst called c' ∧ c'.world.calls = c.world.calls := by
  obtain ⟨x, b, hx, -, rfl⟩ := Caller.step_pollReady h
  have hx : x ∈ c.handles := List.mem_of_getElem? hx
  obtain ⟨hinst, b', hworld⟩ := (lawful D hI).pollReady x.service a c.world
  generalize (service D I).pollReady x.service a c.world = r at hinst hworld
  obtain ⟨_, s, w⟩ := r
  simp only at hinst hworld
  subst hworld
  refine ⟨⟨?_, ?_, hc.awaiting, hc.unready, hc.unpolled⟩, rfl⟩
  · exact forall_mem_set (hinst ▸ hc.handles x hx) hc.handles
  · intro s' req' hf
    obtain ⟨hnext, hready, hother⟩ := hc.boxed s' req' hf
    refine ⟨hnext, ?_, forall_mem_set (hinst ▸ hother x hx) hother⟩
    -- the instance that was polled is the caller's
    exact (Instances.ready_pollReady (Ne.symm (hother x hx))).trans hready

theorem held_clone (hI : I.Lawful inst called) (hc : Held inst called c)
    (h : c.step (service D I) isReady (.clone n) = some c') :
    Held inst called c' ∧ c'.world.calls = c.world.calls := by
  obtain ⟨x, -, rfl⟩ := Caller.step_clone h
  obtain ⟨hinst, hworld⟩ := (lawful D hI).clone x.service c.world
  generalize (service D I).clone x.service c.world = r at hinst hworld
  obtain ⟨s, w⟩ := r
  simp only at hinst hworld
  subst hworld
  refine ⟨⟨?_, ?_, hc.awaiting, hc.unready, hc.unpolled⟩, rfl⟩
  · intro h' hh
    rcases List.mem_append.1 hh with hh | hh
    · exact Nat.lt_succ_of_lt (hc.handles h' hh)
    · rw [List.mem_singleton.1 hh]
      exact hinst ▸ Nat.lt_succ_self _
  · intro s' req' hf
    obtain ⟨hnext, hready, hother⟩ := hc.boxed s' req' hf
    refine ⟨Nat.lt_succ_of_lt hnext, Instances.ready_clone hready, ?_⟩
    intro h' hh
    rcases List.mem_append.1 hh with hh | hh
    · exact hother h' hh
    · rw [List.mem_singleton.1 hh]
      exact hinst ▸ Nat.ne_of_gt hnext

theorem held_call (hI : I.Lawful inst called) (hc : Held inst called c)
    (h : c.step (service D I) isReady (.call n req) = some c') :
    Held inst called c' ∧ c'.world.calls = c.world.calls := by
  obtain ⟨x, hx, -, rfl⟩ := Caller.step_call h
  have hx : x ∈ c.handles := List.mem_of_getElem? hx
  have hcall : (service D I).call x.service req c.world =
      (.boxed (I.clone x.service.inner c.world).1 req, x.service, (I.clone x.service.inner c.world).2) :=
    rfl
  obtain ⟨hinst, hworld⟩ := hI.clone x.service.inner c.world
  rw [hcall]
  generalize I.clone x.service.inner c.world = r at hinst hworld
  obtain ⟨s, w⟩ := r
  simp only at hinst hworld
  subst hworld
  refine ⟨⟨?_, ?_, ?_, hc.unready, ?_⟩, rfl⟩
  · exact forall_mem_set (Nat.lt_succ_of_lt (hc.handles x hx))
      fun y hy => Nat.lt_succ_of_lt (hc.handles y hy)
  · intro s' req' hf
    rcases List.mem_append.1 hf with hf | hf
    · obtain ⟨hnext, hready, hother⟩ := hc.boxed s' req' hf
      exact ⟨Nat.lt_succ_of_lt hnext, Instances.ready_clone hready, forall_mem_set (hother x hx) hother⟩
    · -- the new future holds the clone, which is a new instance
      cases List.mem_singleton.1 hf
      rw [hinst]
      exact ⟨Nat.lt_succ_self _, Instances.ready_clone_next,
        forall_mem_set (Nat.ne_of_lt (hc.handles x hx)) fun y hy => Nat.ne_of_lt (hc.handles y hy)⟩
  · intro f hf
    rcases List.mem_append.1 hf with hf | hf
    · exact hc.awaiting f hf
    · cases List.mem_singleton.1 hf
  · intro hnil f hf
    rcases List.mem_append.1 hf with hf | hf
    · exact hc.unpolled hnil f hf
    · cases List.mem_singleton.1 hf

theorem held_poll (hI : I.Lawful inst called) (hc : Held inst called c)
    (h : c.step (service D I) isReady (.poll m) = some c') :
    Held inst called c' ∧ c'.world.calls ≠ [] := by
  obtain ⟨f, hf, rfl⟩ := Caller.step_poll h
  have hf : f ∈ c.futures := List.mem_of_getElem? hf
  cases f with
  | boxed s req =>
    obtain ⟨hnext, hready, hother⟩ := hc.boxed s req hf
    obtain ⟨hcalled, hserve⟩ := hI.serve s req c.world hready
    have hpoll : (service D I).poll (.boxed s req) c.world =
        (.awaiting (I.poll (I.call s req c.world).1 (I.call s req c.world).2.2).1,
          (I.poll (I.call s req c.world).1 (I.call s req c.world).2.2).2) := rfl
    rw [hpoll]
    generalize I.poll (I.call s req c.world).1 (I.call s req c.world).2.2 = r at hcalled hserve
    obtain ⟨f, w⟩ := r
    obtain ⟨⟨i, hcalls⟩, hdown, hle⟩ := hserve
    simp only at hcalled hcalls hdown hle
    have hne : w.calls ≠ [] := by
      rw [hcalls]
      simp
    refine ⟨⟨?_, ?_, ?_, ?_, fun hnil => absurd hnil hne⟩, hne⟩
    · exact fun y hy => Nat.lt_of_lt_of_le (hc.handles y hy) hle
    · intro s' req' hf'
      rcases List.mem_or_eq_of_mem_set hf' with hf' | hf'
      · obtain ⟨hnext, hready, hother⟩ := hc.boxed s' req' hf'
        exact ⟨Nat.lt_of_lt_of_le hnext hle, hdown _ hready, hother⟩
      · cases hf'
    · intro f' hf'
      rcases List.mem_or_eq_of_mem_set hf' with hf' | hf'
      · exact hc.awaiting f' hf'
      · cases hf'
        exact hcalled
    · intro y hy
      rw [hcalls] at hy
      rcases List.mem_append.1 hy with hy | hy
      · exact hc.unready y hy
      · rw [List.mem_singleton.1 hy]
  | awaiting f =>
    obtain ⟨hcalled, hworld⟩ := hI.poll_called f c.world (hc.awaiting f hf)
    have hpoll : (service D I).poll (.awaiting f) c.world =
        (.awaiting (I.poll f c.world).1, (I.poll f c.world).2) := rfl
    rw [hpoll, hworld]
    have hne : c.world.calls ≠ [] := fun hnil => hc.unpolled hnil f hf
    refine ⟨⟨hc.handles, ?_, ?_, hc.unready, fun hnil => absurd hnil hne⟩, hne⟩
    · intro s req hf'
      rcases List.mem_or_eq_of_mem_set hf' with hf' | hf'
      · exact hc.boxed s req hf'
      · cases hf'
    · intro f' hf'
      rcases List.mem_or_eq_of_mem_set hf' with hf' | hf'
      · exact hc.awaiting f' hf'
      · cases hf'
        exact hcalled

theorem held_step (hI : I.Lawful inst called) {e : CallerEvent A Req} (hc : Held inst called c)
    (h : c.step (service D I) isReady e = some c') : Held inst called c' := by
  cases e with
  | pollReady n a => exact (held_pollReady hI hc h).1
  | clone n => exact (held_clone hI hc h).1
  | call n req => exact (held_call hI hc h).1
  | poll m => exact (held_poll hI hc h).1

/-- Without a poll of a future no inner call is made. -/
theorem calls_step (hI : I.Lawful inst called) {e : CallerEvent A Req} (hc : Held inst called c)
    (he : ∀ m, e ≠ .poll m) (h : c.step (service D I) isReady e = some c') :
    c'.world.calls = c.world.calls := by
  cases e with
  | pollReady n a => exact (held_pollReady hI hc h).2
  | clone n => exact (held_clone hI hc h).2
  | call n req => exact (held_call hI hc h).2
  | poll m => exact absurd rfl (he m)

end Step

/-- **In which runs the rule is kept on the inner service**: in those where no future that a call
has returned is ever polled. -/
theorem keepsRule_iff (hI : I.Lawful inst called) (isReady : A → Bool) {s : Middleware D S}
    (hs : inst s.inner = 0) (es : List (CallerEvent A Req)) :
    Caller.KeepsRule (service D I) isReady s es ↔ ¬ Caller.Polls (service D I) isReady s es := by
  have hheld : ∀ t, Visits (Caller.step (service D I) isReady) (Caller.start s) es t →
      Held inst called t := by
    intro t ht
    exact ht.inv (held_start s hs) fun t e u _ hc h => held_step hI hc h
  constructor
  · rintro h ⟨t, m, u, ht, hu⟩
    obtain ⟨hu', hne⟩ := held_poll hI (hheld t ht.visits_before) hu
    obtain ⟨x, hx⟩ := List.exists_mem_of_ne_nil _ hne
    have hready := h u (ht.visits hu) x hx
    rw [hu'.unready x hx] at hready
    cases hready
  · intro hno t ht
    have hnil : t.world.calls = [] := by
      refine ht.inv (P := fun c => c.world.calls = []) rfl ?_
      intro t e u he hnil hu
      rw [calls_step hI (hheld t he.visits_before) ?_ hu, hnil]
      rintro m rfl
      exact hno ⟨t, m, u, he, hu⟩
    intro x hx
    rw [hnil] at hx
    cases hx

end Middleware

/-! ## The stacks of the server -/

section

variable {P M E Req : Type}

/-- **When the middlewares keep the rule**, alone or stacked as in `main`. A caller that keeps it
itself keeps it on the inner service in every run, if nothing is in between. With a middleware
in between, it is kept exactly in the runs where no future that a call has returned is ever
polled: every request that is served breaks it. -/
theorem middlewares_keep_rule_iff (propagator : P) (instruments : M)
    (es : List (CallerEvent (ReadyPoll E) Req)) :
    Caller.KeepsRule (.bare ReadyPoll.isReady) ReadyPoll.isReady 0 es ∧
    (Caller.KeepsRule (TraceContextService.service P (.bare ReadyPoll.isReady)) ReadyPoll.isReady
        (TraceContextLayer.layer propagator 0) es ↔
      ¬ Caller.Polls (TraceContextService.service P (.bare ReadyPoll.isReady)) ReadyPoll.isReady
        (TraceContextLayer.layer propagator 0) es) ∧
    (Caller.KeepsRule (GrpcMetricsService.service M (.bare ReadyPoll.isReady)) ReadyPoll.isReady
        (GrpcMetricsLayer.layer instruments 0) es ↔
      ¬ Caller.Polls (GrpcMetricsService.service M (.bare ReadyPoll.isReady)) ReadyPoll.isReady
        (GrpcMetricsLayer.layer instruments 0) es) ∧
    (Caller.KeepsRule (serverStackService P M (.bare ReadyPoll.isReady)) ReadyPoll.isReady
        (serverStack propagator instruments 0) es ↔
      ¬ Caller.Polls (serverStackService P M (.bare ReadyPoll.isReady)) ReadyPoll.isReady
        (serverStack propagator instruments 0) es) := by
  have hbare : (Service.bare ReadyPoll.isReady : Service ℕ Unit (ReadyPoll E) Req).Lawful id
      fun _ => True := Service.bare_lawful _
  refine ⟨Caller.bare_keepsRule es, ?_, ?_, ?_⟩
  · exact Middleware.keepsRule_iff hbare _ rfl es
  · exact Middleware.keepsRule_iff hbare _ rfl es
  · exact Middleware.keepsRule_iff (Middleware.lawful M hbare) _ rfl es

/-- **One request is enough**: the caller polls the stack, is told that it is ready, calls it and
polls the future, and the call reaches the third instance, which nobody has polled. -/
theorem server_stack_breaks_rule : ∃ t,
    run (Caller.step (serverStackService Unit Unit (.bare ReadyPoll.isReady)) ReadyPoll.isReady)
      (Caller.start (serverStack () () 0))
      [.pollReady 0 (.ready (.ok () : Except Unit Unit)), .call 0 (), .poll 0] = some t ∧
    t.world.calls = [⟨2, false, ()⟩] ∧ ¬ t.world.Respected := by
  refine ⟨_, rfl, rfl, fun h => ?_⟩
  have hready := h ⟨2, false, ()⟩ (List.mem_singleton.2 rfl)
  cases hready

end

end DeltaTxn
