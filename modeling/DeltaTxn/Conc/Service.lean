import DeltaTxn.Conc.Steps
import Mathlib.Logic.Function.Basic

/-!
# Services that are polled for readiness

A service may be called only on an instance that has answered that it is ready, and a call uses
this up. A clone is another instance, and is not ready. Services are built around an inner one,
and hold instances of it.

* `Service`: the methods of a service, as they act on the instances of the inner one.
* `Instances.Respected`: every call so far was on an instance that was ready.
* `Caller.step`: what a caller may do that keeps to this rule itself. `Caller.KeepsRule`: the rule
  is kept on the inner service, too.
* `Service.Lawful`: a service that holds one inner instance, and makes one inner call for each call.
* `Caller.bare_keepsRule`: with nothing in between, the caller keeps the rule on the inner service.
-/

namespace Conc

/-- A call on an instance, and whether the instance was ready for it. -/
structure InnerCall (Req : Type) where
  inst : ℕ
  ready : Bool
  req : Req

/-- **The instances** of the inner service, numbered from 0 to `next`, and the calls on them. -/
structure Instances (Req : Type) where
  next : ℕ
  ready : ℕ → Bool
  calls : List (InnerCall Req)

namespace Instances

variable {Req : Type} (w : Instances Req)

/-- One instance, not polled yet. -/
def start : Instances Req := ⟨1, fun _ => false, []⟩

/-- Instance `i` is polled; once it is ready it stays so. -/
def pollReady (i : ℕ) (b : Bool) : Instances Req :=
  { w with ready := Function.update w.ready i (w.ready i || b) }

/-- A new instance. Readiness is not inherited. -/
def clone : Instances Req :=
  { w with next := w.next + 1, ready := Function.update w.ready w.next false }

/-- A call on instance `i`, which uses up its readiness. -/
def call (i : ℕ) (req : Req) : Instances Req :=
  { w with
    ready := Function.update w.ready i false
    calls := w.calls ++ [⟨i, w.ready i, req⟩] }

/-- **The rule**: every call was on an instance that was ready. -/
def Respected : Prop := ∀ x ∈ w.calls, x.ready = true

/-- From `w`, one call was made, with `req`, on an instance that was not ready, and no instance
got ready. -/
structure CalledUnready (w : Instances Req) (req : Req) (w' : Instances Req) : Prop where
  calls : ∃ i, w'.calls = w.calls ++ [⟨i, false, req⟩]
  ready : ∀ i, w.ready i = false → w'.ready i = false
  next : w.next ≤ w'.next

end Instances

/-- **A service**, by its methods: a value of type `S` is one instance, `F` are the futures that
its calls return, and `A` the answers to `poll_ready`. What the inner service answers is given. A
method that changes the instance returns it. -/
structure Service (S F A Req : Type) where
  pollReady : S → A → Instances Req → A × S × Instances Req
  clone : S → Instances Req → S × Instances Req
  call : S → Req → Instances Req → F × S × Instances Req
  poll : F → Instances Req → F × Instances Req

/-- The inner service by itself. -/
def Service.bare {A Req : Type} (isReady : A → Bool) : Service ℕ Unit A Req where
  pollReady i a w := (a, i, w.pollReady i (isReady a))
  clone _ w := (w.next, w.clone)
  call i req w := ((), i, w.call i req)
  poll f w := (f, w)

/-! ## A caller -/

/-- An instance that a caller holds, and whether it was told that it is ready. -/
structure Handle (S : Type) where
  service : S
  ready : Bool

/-- **A caller**: its instances, the futures it has got, and the instances of the inner service. -/
structure Caller (S F Req : Type) where
  handles : List (Handle S)
  futures : List F
  world : Instances Req

/-- What a caller does, by the position of the instance or the future it does it to. -/
inductive CallerEvent (A Req : Type)
  | pollReady (n : ℕ) (a : A)
  | clone (n : ℕ)
  | call (n : ℕ) (req : Req)
  | poll (m : ℕ)

namespace Caller

variable {S F A Req : Type}

/-- One instance, around the first inner one. -/
def start (s : S) : Caller S F Req := ⟨[⟨s, false⟩], [], .start⟩

/-- **One step of a caller that keeps to the rule**: it calls an instance only if it was told that
this instance is ready, and not called it since. -/
def step (I : Service S F A Req) (isReady : A → Bool) (c : Caller S F Req) :
    CallerEvent A Req → Option (Caller S F Req)
  | .pollReady n a => do
    let h ← c.handles[n]?
    let (a, s, w) := I.pollReady h.service a c.world
    some { c with handles := c.handles.set n ⟨s, h.ready || isReady a⟩, world := w }
  | .clone n => do
    let h ← c.handles[n]?
    let (s, w) := I.clone h.service c.world
    some { c with handles := c.handles ++ [⟨s, false⟩], world := w }
  | .call n req => do
    let h ← c.handles[n]?
    if h.ready then
      let (f, s, w) := I.call h.service req c.world
      some ⟨c.handles.set n ⟨s, false⟩, c.futures ++ [f], w⟩
    else none
  | .poll m => do
    let f ← c.futures[m]?
    let (f, w) := I.poll f c.world
    some { c with futures := c.futures.set m f, world := w }

section Step

variable {I : Service S F A Req} {isReady : A → Bool} {c c' : Caller S F Req} {n m : ℕ} {a : A} {req : Req}

theorem step_pollReady (h : step I isReady c (.pollReady n a) = some c') :
    ∃ x b, c.handles[n]? = some x ∧ b = (x.ready || isReady (I.pollReady x.service a c.world).1) ∧ c' =
      { c with
        handles := c.handles.set n ⟨(I.pollReady x.service a c.world).2.1, b⟩
        world := (I.pollReady x.service a c.world).2.2 } := by
  obtain ⟨x, hx, h⟩ := Option.bind_eq_some_iff.1 h
  cases h
  exact ⟨x, _, hx, rfl, rfl⟩

theorem step_clone (h : step I isReady c (.clone n) = some c') :
    ∃ x, c.handles[n]? = some x ∧ c' =
      { c with
        handles := c.handles ++ [⟨(I.clone x.service c.world).1, false⟩]
        world := (I.clone x.service c.world).2 } := by
  obtain ⟨x, hx, h⟩ := Option.bind_eq_some_iff.1 h
  cases h
  exact ⟨x, hx, rfl⟩

theorem step_call (h : step I isReady c (.call n req) = some c') :
    ∃ x, c.handles[n]? = some x ∧ x.ready = true ∧ c' =
      ⟨c.handles.set n ⟨(I.call x.service req c.world).2.1, false⟩,
        c.futures ++ [(I.call x.service req c.world).1], (I.call x.service req c.world).2.2⟩ := by
  obtain ⟨x, hx, h⟩ := Option.bind_eq_some_iff.1 h
  split at h
  · rename_i hr
    cases h
    exact ⟨x, hx, hr, rfl⟩
  · cases h

theorem step_poll (h : step I isReady c (.poll m) = some c') :
    ∃ f, c.futures[m]? = some f ∧ c' =
      { c with futures := c.futures.set m (I.poll f c.world).1, world := (I.poll f c.world).2 } := by
  obtain ⟨f, hf, h⟩ := Option.bind_eq_some_iff.1 h
  cases h
  exact ⟨f, hf, rfl⟩

end Step

/-- In the caller's run `es` around `s`, the rule is kept on the inner service in every state. -/
def KeepsRule (I : Service S F A Req) (isReady : A → Bool) (s : S) (es : List (CallerEvent A Req)) :
    Prop :=
  ∀ t, Visits (step I isReady) (start s) es t → t.world.Respected

/-- In that run, a future that a call has returned is polled. -/
def Polls (I : Service S F A Req) (isReady : A → Bool) (s : S) (es : List (CallerEvent A Req)) :
    Prop :=
  ∃ t m u, Takes (step I isReady) (start s) es t (.poll m) ∧ step I isReady t (.poll m) = some u

end Caller

/-- The members of a list after one was replaced. -/
theorem forall_mem_set {α : Type} {P : α → Prop} {l : List α} {n : ℕ} {x : α} (hx : P x)
    (hl : ∀ y ∈ l, P y) : ∀ y ∈ l.set n x, P y := by
  intro y hy
  rcases List.mem_or_eq_of_mem_set hy with hy | rfl
  · exact hl y hy
  · exact hx

/-! ## Services that hold one inner instance -/

/-- **A service that holds the inner instance `inst`**: it forwards the polls to it and clones it,
and a future of it, once polled, has made one inner call. That call is on an instance that is not
ready if `inst` is not. -/
structure Service.Lawful {S F A Req : Type} (I : Service S F A Req) (inst : S → ℕ)
    (called : F → Prop) : Prop where
  pollReady : ∀ s a w, inst (I.pollReady s a w).2.1 = inst s ∧
    ∃ b, (I.pollReady s a w).2.2 = w.pollReady (inst s) b
  clone : ∀ s w, inst (I.clone s w).1 = w.next ∧ (I.clone s w).2 = w.clone
  serve : ∀ s req w, w.ready (inst s) = false →
    called (I.poll (I.call s req w).1 (I.call s req w).2.2).1 ∧
      w.CalledUnready req (I.poll (I.call s req w).1 (I.call s req w).2.2).2
  poll_called : ∀ f w, called f → called (I.poll f w).1 ∧ (I.poll f w).2 = w

/-! ## The instances -/

namespace Instances

variable {Req : Type} {w w' : Instances Req} {i j : ℕ} {req : Req}

theorem update_false {f : ℕ → Bool} (h : f j = false) : Function.update f i false j = false := by
  by_cases hij : j = i
  · rw [hij, Function.update_self]
  · rwa [Function.update_of_ne hij]

theorem ready_clone (h : w.ready i = false) : w.clone.ready i = false := update_false h

theorem ready_clone_next : w.clone.ready w.next = false := Function.update_self _ _ _

theorem ready_pollReady {b : Bool} (hij : i ≠ j) : (w.pollReady j b).ready i = w.ready i :=
  Function.update_of_ne hij _ _

theorem ready_pollReady_self {b : Bool} : (w.pollReady i b).ready i = (w.ready i || b) :=
  Function.update_self _ _ _

theorem pollReady_keeps {b : Bool} (h : w.ready i = true) : (w.pollReady j b).ready i = true := by
  by_cases hij : i = j
  · subst hij
    rw [ready_pollReady_self, h, Bool.true_or]
  · rw [ready_pollReady hij, h]

/-- A clone before the call. -/
theorem CalledUnready.of_clone {v : Instances Req} (hv : v = w.clone) (h : v.CalledUnready req w') :
    w.CalledUnready req w' := by
  subst hv
  exact ⟨h.calls, fun i hi => h.ready i (ready_clone hi), Nat.le_trans (Nat.le_succ _) h.next⟩

end Instances

theorem Service.bare_lawful {A Req : Type} (isReady : A → Bool) :
    (bare isReady : Service ℕ Unit A Req).Lawful id fun _ => True where
  pollReady i a w := ⟨rfl, isReady a, rfl⟩
  clone i w := ⟨rfl, rfl⟩
  serve := by
    intro i req w hi
    refine ⟨trivial, ⟨i, ?_⟩, fun j hj => Instances.update_false hj, Nat.le_refl _⟩
    change w.calls ++ [⟨i, w.ready i, req⟩] = _
    rw [show w.ready i = false from hi]
  poll_called f w _ := ⟨trivial, rfl⟩

/-! ## A caller of the inner service itself -/

namespace Caller

variable {A Req : Type} {isReady : A → Bool} {c c' : Caller ℕ Unit Req}

/-- The caller's instances are distinct, and those it was told are ready are. -/
structure Informed (c : Caller ℕ Unit Req) : Prop where
  handles : ∀ h ∈ c.handles, h.service < c.world.next
  distinct : (c.handles.map Handle.service).Nodup
  told : ∀ h ∈ c.handles, h.ready = true → c.world.ready h.service = true
  respected : c.world.Respected

theorem informed_start : Informed (start 0 : Caller ℕ Unit Req) where
  handles := by
    intro h hh
    rw [List.mem_singleton.1 hh]
    exact Nat.one_pos
  distinct := List.pairwise_singleton _ _
  told := by
    intro h hh hr
    rw [List.mem_singleton.1 hh] at hr
    cases hr
  respected x hx := by cases hx

/-- Replacing a handle by one of the same instance. -/
theorem map_set_service {n : ℕ} {x : Handle ℕ} {l : List (Handle ℕ)} (h : l[n]? = some x) (b : Bool) :
    (l.set n ⟨x.service, b⟩).map Handle.service = l.map Handle.service := by
  obtain ⟨hn, rfl⟩ := List.getElem?_eq_some_iff.1 h
  rw [List.map_set]
  refine List.ext_getElem? fun j => ?_
  rw [List.getElem?_set]
  split
  · rename_i hj
    subst hj
    simp [hn]
  · rfl

/-- A handle that is there after one was replaced: the new one, or one at another place. -/
theorem mem_set {α : Type} {l : List α} {n : ℕ} {x y : α} (h : y ∈ l.set n x) :
    y = x ∨ ∃ j, j ≠ n ∧ l[j]? = some y := by
  obtain ⟨j, hj⟩ := List.mem_iff_getElem?.1 h
  rw [List.getElem?_set] at hj
  split at hj
  · split at hj
    · exact Or.inl (Option.some_inj.1 hj).symm
    · cases hj
  · rename_i hne
    exact Or.inr ⟨j, Ne.symm hne, hj⟩

theorem informed_pollReady {n : ℕ} {a : A} (hc : Informed c)
    (h : c.step (Service.bare isReady) isReady (.pollReady n a) = some c') : Informed c' := by
  obtain ⟨x, b, hx, hb, rfl⟩ := step_pollReady h
  have hmem := List.mem_of_getElem? hx
  refine ⟨forall_mem_set (hc.handles x hmem) hc.handles,
    (map_set_service hx _).symm ▸ hc.distinct, ?_, hc.respected⟩
  · intro y hy hr
    rcases List.mem_or_eq_of_mem_set hy with hy | rfl
    · exact Instances.pollReady_keeps (hc.told y hy hr)
    · -- it was told so by now, or before
      refine Instances.ready_pollReady_self.trans ?_
      rw [show b = true from hr] at hb
      rcases Bool.or_eq_true_iff.1 hb.symm with hx' | ha
      · rw [hc.told x hmem hx', Bool.true_or]
      · rw [show isReady a = true from ha, Bool.or_true]

theorem informed_clone {n : ℕ} (hc : Informed c)
    (h : c.step (Service.bare isReady) isReady (.clone n) = some c') : Informed c' := by
  obtain ⟨x, -, rfl⟩ := step_clone h
  refine ⟨?_, ?_, ?_, hc.respected⟩
  · intro y hy
    rcases List.mem_append.1 hy with hy | hy
    · exact Nat.lt_succ_of_lt (hc.handles y hy)
    · rw [List.mem_singleton.1 hy]
      exact Nat.lt_succ_self _
  · rw [List.map_append]
    refine List.nodup_append.2 ⟨hc.distinct, List.pairwise_singleton _ _, ?_⟩
    -- the new instance is not one of those there were
    intro i hi j hj
    obtain ⟨y, hy, rfl⟩ := List.mem_map.1 hi
    rw [List.mem_singleton.1 hj]
    exact Nat.ne_of_lt (hc.handles y hy)
  · intro y hy hr
    rcases List.mem_append.1 hy with hy | hy
    · have hne : y.service ≠ c.world.next := Nat.ne_of_lt (hc.handles y hy)
      exact (Function.update_of_ne hne _ _).trans (hc.told y hy hr)
    · rw [List.mem_singleton.1 hy] at hr
      cases hr

theorem informed_call {n : ℕ} {req : Req} (hc : Informed c)
    (h : c.step (Service.bare isReady) isReady (.call n req) = some c') : Informed c' := by
  obtain ⟨x, hx, hr, rfl⟩ := step_call h
  have hmem := List.mem_of_getElem? hx
  refine ⟨forall_mem_set (hc.handles x hmem) hc.handles,
    (map_set_service hx _).symm ▸ hc.distinct, ?_, ?_⟩
  · intro y hy hy'
    rcases mem_set hy with rfl | ⟨j, hj, hget⟩
    · cases hy'
    · -- another handle is of another instance
      have hne : y.service ≠ x.service := by
        intro heq
        obtain ⟨hlt, -⟩ := List.getElem?_eq_some_iff.1 hget
        refine hj ((List.getElem?_inj (by rwa [List.length_map]) hc.distinct).1 ?_)
        rw [List.getElem?_map, List.getElem?_map, hget, hx, Option.map_some, Option.map_some, heq]
      exact (Function.update_of_ne hne _ _).trans (hc.told y (List.mem_of_getElem? hget) hy')
  · intro y hy
    rcases List.mem_append.1 hy with hy | hy
    · exact hc.respected y hy
    · rw [List.mem_singleton.1 hy]
      exact hc.told x hmem hr

theorem informed_step {e : CallerEvent A Req} (hc : Informed c)
    (h : c.step (Service.bare isReady) isReady e = some c') : Informed c' := by
  cases e with
  | pollReady n a => exact informed_pollReady hc h
  | clone n => exact informed_clone hc h
  | call n req => exact informed_call hc h
  | poll m =>
    obtain ⟨f, -, rfl⟩ := step_poll h
    exact ⟨hc.handles, hc.distinct, hc.told, hc.respected⟩

/-- **A caller that keeps to the rule** keeps it on the inner service, if nothing is in between. -/
theorem bare_keepsRule (es : List (CallerEvent A Req)) :
    KeepsRule (Service.bare isReady) isReady 0 es := by
  intro t ht
  exact (ht.inv informed_start fun _ _ _ _ hc h => informed_step hc h).respected

end Caller

end Conc
