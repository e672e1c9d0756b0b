import DeltaTxn.Conc.Prog

/-!
# Tasks that interleave on a shared state

A machine runs one program per task. A step of the whole is one operation of one task, or
the end of a task: by returning, or by being cancelled at any point between two of its
operations. A task that has ended still drops what it owns, one drop at a time, and
interleaved with everything else.

* `Reach.inv`: an assertion kept by every step holds in every reachable state.
* `Reach.runs`: seen alone, each task makes a sequential run of its program.
* `Reach.verified`: rely-guarantee. If every task is verified against what the others may
  do, then the invariant and every task's postcondition hold in every reachable state.
-/

namespace Conc

variable {Tid Op : Type} {Ans : Op → Type} {α S : Type}

/-- How the operations of a task, and its drops after it has ended, act on the shared
state. -/
structure Machine (Tid Op : Type) (Ans : Op → Type) (S : Type) where
  exec : Tid → (o : Op) → Ans o → S → S → Prop
  drop : Tid → S → S → Prop

/-- A task is running, or it has ended: with a result, or cancelled. -/
inductive Task (Op : Type) (Ans : Op → Type) (α : Type) : Type
  | running (p : Prog Op Ans α)
  | ended (r : Option α)

/-- The state of a machine: its tasks, all calls made so far with their answers, and the
shared state. -/
structure Config (Tid Op : Type) (Ans : Op → Type) (α S : Type) where
  task : Tid → Task Op Ans α
  calls : List (Tid × Call Op Ans)
  shared : S

namespace Config

/-! ## One task undisturbed -/

/-- Task `i` goes from `p` to `q` by the calls `t`, with no other task in between. -/
inductive Solo (M : Machine Tid Op Ans S) (i : Tid) :
    Prog Op Ans α → S → List (Call Op Ans) → Prog Op Ans α → S → Prop
  | refl (p : Prog Op Ans α) (s : S) : Solo M i p s [] p s
  | step {o : Op} {k : Ans o → Prog Op Ans α} {b : Ans o} {s s' u : S} {t : List (Call Op Ans)}
      {q : Prog Op Ans α} (hx : M.exec i o b s s') (h : Solo M i (k b) s' t q u) :
      Solo M i (.op o k) s (⟨o, b⟩ :: t) q u

section Solo

variable {M : Machine Tid Op Ans S} {i : Tid} {s s' u : S} {t t' : List (Call Op Ans)} {β ε E : Type}

theorem Solo.call {o : Op} {b : Ans o} (hx : M.exec i o b s s') :
    Solo M i (.call o) s [⟨o, b⟩] (.ret b) s' :=
  .step hx (.refl _ _)

/-- Seen alone, such a piece is a run. -/
theorem Solo.runs {p q : Prog Op Ans α} (h : Solo M i p s t q s') : p.Runs t q := by
  induction h with
  | refl p s => exact .refl p
  | step _ _ ih => exact .step ih

/-- One piece after another. -/
theorem Solo.append {p q r : Prog Op Ans α} (hp : Solo M i p s t q s')
    (hq : Solo M i q s' t' r u) : Solo M i p s (t ++ t') r u := by
  induction hp with
  | refl p s => exact hq
  | step hx _ ih => exact .step hx (ih hq)

/-- Sequential composition, with the first part complete. -/
theorem Solo.bind {p : Prog Op Ans α} {f : α → Prog Op Ans β} {a : α} {q : Prog Op Ans β}
    (hp : Solo M i p s t (.ret a) s') (hf : Solo M i (f a) s' t' q u) :
    Solo M i (p >>= f) s (t ++ t') q u := by
  generalize hr : Prog.ret a = r at hp
  induction hp with
  | refl p s => subst hr; exact hf
  | step hx _ ih => exact .step hx (ih hf hr)

theorem Solo.fbind {x : Fallible Op Ans ε α} {f : α → Fallible Op Ans ε β} {v : α}
    {q : Prog Op Ans (Except ε β)} (hx : Solo M i x.run s t (.ret (.ok v)) s')
    (hf : Solo M i (f v).run s' t' q u) : Solo M i (x >>= f).run s (t ++ t') q u := by
  rw [ExceptT.run_bind]
  exact hx.bind hf

theorem Solo.lift {x : Except ε α} {v : α} (h : x = .ok v) :
    Solo M i (liftM x : Fallible Op Ans ε α).run s [] (.ret (.ok v)) s := by
  subst h
  exact .refl _ _

theorem Solo.liftProg {p : Prog Op Ans α} {v : α} (h : Solo M i p s t (.ret v) s') :
    Solo M i (liftM p : Fallible Op Ans ε α).run s t (.ret (.ok v)) s' := by
  have hb := h.bind (f := fun a => .ret (.ok a : Except ε α)) (.refl _ _)
  rw [List.append_nil] at hb
  exact hb

theorem Solo.mapErr {f : E → ε} {p : Prog Op Ans (Except E α)} {r : Except E α}
    (h : Solo M i p s t (.ret r) s') :
    Solo M i (Prog.mapErr f p).run s t (.ret (r.mapError f)) s' := by
  have hb := h.bind (f := fun r => .ret (r.mapError f)) (.refl _ _)
  rw [List.append_nil] at hb
  exact hb

theorem Solo.map {f : α → β} {p q : Prog Op Ans α} (h : Solo M i p s t q s') :
    Solo M i (f <$> p) s t (f <$> q) s' := by
  induction h with
  | refl p s => exact .refl _ _
  | step hx _ ih => exact .step hx ih

end Solo

/-! ## All tasks -/

/-- Every task at the start of its program. -/
def init (p : Tid → Prog Op Ans α) (s : S) : Config Tid Op Ans α S :=
  ⟨fun i => .running (p i), [], s⟩

/-- Task `i` has returned `a`. -/
def Answered (c : Config Tid Op Ans α S) (i : Tid) (a : α) : Prop := c.task i = .ended (some a)

variable [DecidableEq Tid]

/-- The calls of task `i` in a list of calls. -/
def ofTask (i : Tid) (l : List (Tid × Call Op Ans)) : List (Call Op Ans) :=
  l.filterMap fun x => if x.1 = i then some x.2 else none

theorem ofTask_snoc (i j : Tid) (l : List (Tid × Call Op Ans)) (x : Call Op Ans) :
    ofTask i (l ++ [(j, x)]) = ofTask i l ++ if j = i then [x] else [] := by
  unfold ofTask
  rw [List.filterMap_append]
  by_cases h : j = i <;> simp [h]

/-- The calls of one task. -/
def callsOf (c : Config Tid Op Ans α S) (i : Tid) : List (Call Op Ans) := ofTask i c.calls

theorem mem_callsOf {c : Config Tid Op Ans α S} {i : Tid} {x : Call Op Ans} :
    x ∈ c.callsOf i ↔ (i, x) ∈ c.calls := by
  simp only [callsOf, ofTask, List.mem_filterMap]
  constructor
  · rintro ⟨⟨j, y⟩, hy, h⟩
    split at h
    · rename_i hj; cases h; cases hj; exact hy
    · cases h
  · exact fun h => ⟨(i, x), h, by simp⟩

/-- **One step of a machine.** -/
inductive Step (M : Machine Tid Op Ans S) : Config Tid Op Ans α S → Config Tid Op Ans α S → Prop
  | exec {c : Config Tid Op Ans α S} {i : Tid} {o : Op} {k : Ans o → Prog Op Ans α} {b : Ans o}
      {s : S} (hi : c.task i = .running (.op o k)) (hx : M.exec i o b c.shared s) :
      Step M c ⟨Function.update c.task i (.running (k b)), c.calls ++ [(i, ⟨o, b⟩)], s⟩
  | finish {c : Config Tid Op Ans α S} {i : Tid} {a : α} (hi : c.task i = .running (.ret a)) :
      Step M c { c with task := Function.update c.task i (.ended (some a)) }
  | cancel {c : Config Tid Op Ans α S} {i : Tid} {p : Prog Op Ans α}
      (hi : c.task i = .running p) :
      Step M c { c with task := Function.update c.task i (.ended none) }
  | drop {c : Config Tid Op Ans α S} {i : Tid} {r : Option α} {s : S} (hi : c.task i = .ended r)
      (hd : M.drop i c.shared s) : Step M c { c with shared := s }

/-- A step that makes a call executes it. -/
theorem Step.exec_of_calls {M : Machine Tid Op Ans S} {c c' : Config Tid Op Ans α S} (h : Step M c c')
    {i : Tid} {x : Call Op Ans} (hc : c'.calls = c.calls ++ [(i, x)]) :
    M.exec i x.1 x.2 c.shared c'.shared := by
  cases h with
  | exec hi hx =>
    cases List.append_cancel_left hc
    exact hx
  | finish _ => simp at hc
  | cancel _ => simp at hc
  | drop _ _ => simp at hc

/-- `c'` can be reached from `c`, by any interleaving. -/
def Reach (M : Machine Tid Op Ans S) : Config Tid Op Ans α S → Config Tid Op Ans α S → Prop :=
  Relation.ReflTransGen (Step M)

variable {M : Machine Tid Op Ans S} {c c' : Config Tid Op Ans α S}

/-- **Invariants**: what every step keeps holds in every reachable state. -/
theorem Reach.inv {P : Config Tid Op Ans α S → Prop} (h : Reach M c c') (h0 : P c)
    (hs : ∀ c c', P c → Step M c c' → P c') : P c' := by
  induction h with
  | refl => exact h0
  | tail _ hst ih => exact hs _ _ ih hst

/-- Reachable by steps that all satisfy `P`. -/
def ReachVia (M : Machine Tid Op Ans S)
    (P : Config Tid Op Ans α S → Config Tid Op Ans α S → Prop) :
    Config Tid Op Ans α S → Config Tid Op Ans α S → Prop :=
  Relation.ReflTransGen fun c c' => Step M c c' ∧ P c c'

theorem ReachVia.reach {P : Config Tid Op Ans α S → Config Tid Op Ans α S → Prop}
    (h : ReachVia M P c c') : Reach M c c' := by
  induction h with
  | refl => exact .refl
  | tail _ hs ih => exact ih.tail hs.1

/-! ## Building runs -/

/-- The state after task `i` has made the calls `t`, and is left with `q`. -/
def after (c : Config Tid Op Ans α S) (i : Tid) (t : List (Call Op Ans)) (q : Prog Op Ans α) (s : S) :
    Config Tid Op Ans α S :=
  ⟨Function.update c.task i (.running q), c.calls ++ t.map (i, ·), s⟩

@[simp] theorem task_after (c : Config Tid Op Ans α S) (i : Tid) (t : List (Call Op Ans))
    (q : Prog Op Ans α) (s : S) : (c.after i t q s).task i = .running q :=
  Function.update_self _ _ _

theorem Reach.solo {c₀ : Config Tid Op Ans α S} {i : Tid} {p q : Prog Op Ans α} {s s' : S}
    {t : List (Call Op Ans)} (hs : Solo M i p s t q s') :
    ∀ {c}, Reach M c₀ c → c.task i = .running p → c.shared = s → Reach M c₀ (c.after i t q s') := by
  induction hs with
  | refl p s =>
    intro c h hi hc
    have hself : c.after i [] p s = c := by
      unfold after
      rw [← hi, ← hc, Function.update_eq_self, List.map_nil, List.append_nil]
    rwa [hself]
  | @step o k b s s' u t q hx _ ih =>
    intro c h hi hc
    have hstep : Step M c (c.after i [⟨o, b⟩] (k b) s') := .exec hi (hc ▸ hx)
    have hrest := ih (h.tail hstep) (Function.update_self _ _ _) rfl
    have hcomp : (c.after i [⟨o, b⟩] (k b) s').after i t q u = c.after i (⟨o, b⟩ :: t) q u := by
      simp [after]
    rwa [hcomp] at hrest

theorem Reach.finish {c₀ : Config Tid Op Ans α S} (h : Reach M c₀ c) {i : Tid} {a : α}
    (hi : c.task i = .running (.ret a)) :
    ∃ c', Reach M c₀ c' ∧ c'.Answered i a ∧ c'.calls = c.calls ∧ c'.shared = c.shared :=
  ⟨_, h.tail (.finish hi), Function.update_self _ _ _, rfl, rfl⟩

/-- A task runs to its end without another one in between. -/
theorem Reach.serve {c₀ : Config Tid Op Ans α S} {i : Tid} {p : Prog Op Ans α} {a : α} {s' : S}
    {t : List (Call Op Ans)} (h : Reach M c₀ c) (hi : c.task i = .running p)
    (hs : Solo M i p c.shared t (.ret a) s') :
    ∃ c', Reach M c c' ∧ Reach M c₀ c' ∧ c'.Answered i a ∧ c'.callsOf i = c.callsOf i ++ t ∧
      (∀ j, j ≠ i → c'.task j = c.task j ∧ c'.callsOf j = c.callsOf j) ∧ c'.shared = s' := by
  have hrun : Reach M c (c.after i t (.ret a) s') := Reach.solo hs .refl hi rfl
  have hend := hrun.tail (.finish (task_after c i t (.ret a) s'))
  have hcalls : ∀ j, ofTask j (c.calls ++ t.map (i, ·)) = ofTask j c.calls ++ if i = j then t else [] := by
    intro j
    unfold ofTask
    rw [List.filterMap_append, List.filterMap_map]
    by_cases hij : i = j
    · simp only [Function.comp_def, if_pos hij, List.filterMap_some]
    · simp only [Function.comp_def, if_neg hij, List.filterMap_eq_nil_iff.2 fun _ _ => rfl]
  refine ⟨_, hend, h.trans hend, Function.update_self _ _ _, ?_, fun j hj => ⟨?_, ?_⟩, rfl⟩
  · change ofTask i (c.calls ++ t.map (i, ·)) = _
    rw [hcalls i, if_pos rfl]
    rfl
  · change Function.update (Function.update c.task i _) i _ j = c.task j
    rw [Function.update_of_ne hj, Function.update_of_ne hj]
  · change ofTask j (c.calls ++ t.map (i, ·)) = _
    rw [hcalls j, if_neg (Ne.symm hj), List.append_nil]
    rfl

/-! ## Each task by itself -/

/-- The calls of a task are a run of its program, up to where the task is now. -/
def TaskRuns (p : Prog Op Ans α) (t : List (Call Op Ans)) : Task Op Ans α → Prop
  | .running q => p.Runs t q
  | .ended (some a) => p.Runs t (.ret a)
  | .ended none => ∃ q, p.Runs t q

/-- **The local view**: the calls of each task are a run of its program. -/
theorem Reach.runs {p : Tid → Prog Op Ans α} {s : S} (h : Reach M (init p s) c) :
    ∀ i, TaskRuns (p i) (c.callsOf i) (c.task i) := by
  refine h.inv (P := fun c => ∀ i, TaskRuns (p i) (ofTask i c.calls) (c.task i))
    (fun i => .refl (p i)) ?_
  intro c c' ih hst
  cases hst with
  | @exec j o k b s hj hx =>
    refine (Function.forall_update_iff _
      fun i τ => TaskRuns (p i) (ofTask i (c.calls ++ [(j, ⟨o, b⟩)])) τ).2 ⟨?_, fun i hij => ?_⟩
    · have hr := ih j
      rw [hj] at hr
      rw [ofTask_snoc, if_pos rfl]
      exact Prog.Runs.snoc hr b
    · rw [ofTask_snoc, if_neg (Ne.symm hij), List.append_nil]
      exact ih i
  | @finish j a hj =>
    refine (Function.forall_update_iff _
      fun i τ => TaskRuns (p i) (ofTask i c.calls) τ).2 ⟨?_, fun i _ => ih i⟩
    have hr := ih j
    rwa [hj] at hr
  | @cancel j q hj =>
    refine (Function.forall_update_iff _
      fun i τ => TaskRuns (p i) (ofTask i c.calls) τ).2 ⟨⟨q, ?_⟩, fun i _ => ih i⟩
    have hr := ih j
    rwa [hj] at hr
  | drop _ _ => exact ih

/-- The run of a task so far, complete if it has answered. -/
theorem Reach.exists_runs {p : Tid → Prog Op Ans α} {s : S} (h : Reach M (init p s) c) (i : Tid) :
    ∃ q, (p i).Runs (c.callsOf i) q ∧ ∀ a, c.Answered i a → q = .ret a := by
  have hr := h.runs i
  unfold Answered
  cases hτ : c.task i with
  | running q =>
    rw [hτ] at hr
    exact ⟨q, hr, fun a ha => by cases ha⟩
  | ended r =>
    rw [hτ] at hr
    cases r with
    | none =>
      obtain ⟨q, hr⟩ := hr
      exact ⟨q, hr, fun a ha => by cases ha⟩
    | some a => exact ⟨_, hr, fun a' ha => by cases ha; rfl⟩

theorem Reach.runs_answered {p : Tid → Prog Op Ans α} {s : S} (h : Reach M (init p s) c) {i : Tid}
    {a : α} (ha : c.Answered i a) : (p i).Runs (c.callsOf i) (.ret a) := by
  have hr := h.runs i
  rwa [ha] at hr

/-- What every executed operation satisfies, every call made so far does. -/
theorem Reach.forall_calls {p : Tid → Prog Op Ans α} {s : S} (h : Reach M (init p s) c)
    {P : Tid → Call Op Ans → Prop} (hP : ∀ i o b s s', M.exec i o b s s' → P i ⟨o, b⟩) :
    ∀ x ∈ c.calls, P x.1 x.2 := by
  refine h.inv (P := fun c => ∀ x ∈ c.calls, P x.1 x.2) (fun x hx => absurd hx List.not_mem_nil) ?_
  intro c c' ih hst x hx
  cases hst with
  | @exec i o k b s' _ hexec =>
    rcases List.mem_append.1 hx with hmem | hmem
    · exact ih x hmem
    · rw [List.mem_singleton.1 hmem]
      exact hP i o b _ _ hexec
  | finish _ => exact ih x hx
  | cancel _ => exact ih x hx
  | drop _ _ => exact ih x hx

/-- What the program of a task cannot do, the task has not done. -/
theorem Reach.all {p : Tid → Prog Op Ans α} {s : S} (h : Reach M (init p s) c) {i : Tid}
    {P : Op → Prop} {R : α → Prop} (hp : (p i).All P R) {x : Call Op Ans} (hx : (i, x) ∈ c.calls) :
    P x.1 := by
  have hr := h.runs i
  rw [← mem_callsOf] at hx
  cases hτ : c.task i with
  | running q =>
    rw [hτ] at hr
    exact hp.runs hr x hx
  | ended r =>
    rw [hτ] at hr
    cases r with
    | none =>
      obtain ⟨q, hr⟩ := hr
      exact hp.runs hr x hx
    | some a => exact hp.runs hr x hx

/-! ## Rely-guarantee -/

/-- A proof outline for a machine: an invariant of the shared state, and for each task the
changes that the other tasks may make to the state. -/
structure Outline (M : Machine Tid Op Ans S) where
  inv : S → Prop
  rely : Tid → S → S → Prop
  rely_refl : ∀ i s, rely i s s
  rely_trans : ∀ {i s t u}, rely i s t → rely i t u → rely i s u
  drop_ok : ∀ {i s t}, inv s → M.drop i s t → inv t ∧ ∀ j, j ≠ i → rely j s t

/-- The rules for task `i`: its steps keep the invariant and stay within what every other
task relies on. -/
def Outline.rules (O : Outline M) (i : Tid) : Prog.Rules Op Ans S where
  exec o b s t := O.inv s ∧ M.exec i o b s t
  rely := O.rely i
  guar s t := O.inv t ∧ ∀ j, j ≠ i → O.rely j s t
  rely_refl := O.rely_refl i
  rely_trans := O.rely_trans

/-- What is left of a task is verified. -/
def TaskOK (O : Outline M) (Q : Tid → α → S → Prop) (s : S) (i : Tid) : Task Op Ans α → Prop
  | .running p => p.wp (O.rules i) (Q i) s
  | .ended (some a) => Q i a s
  | .ended none => True

omit [DecidableEq Tid] in
theorem TaskOK.stable {O : Outline M} {Q : Tid → α → S → Prop}
    (hQ : ∀ i a s t, Q i a s → O.rely i s t → Q i a t) {s t : S} {i : Tid} (hst : O.rely i s t) :
    ∀ {τ : Task Op Ans α}, TaskOK O Q s i τ → TaskOK O Q t i τ
  | .running _, h => Prog.wp_stable h hst
  | .ended (some _), h => hQ _ _ _ _ h hst
  | .ended none, _ => trivial

/-- **Rely-guarantee.** If each task's program is verified from the initial state, against
postconditions that interference and the task's own drops keep, then in every reachable
state the invariant holds and each task is still verified. -/
theorem Reach.verified (O : Outline M) {Q : Tid → α → S → Prop}
    (hQ : ∀ i a s t, Q i a s → O.rely i s t → Q i a t)
    (hd : ∀ i a s t, Q i a s → O.inv s → M.drop i s t → Q i a t)
    {p : Tid → Prog Op Ans α} {s : S} (h0 : O.inv s) (hp : ∀ i, (p i).wp (O.rules i) (Q i) s)
    (h : Reach M (init p s) c) : O.inv c.shared ∧ ∀ i, TaskOK O Q c.shared i (c.task i) := by
  refine h.inv (P := fun c => O.inv c.shared ∧ ∀ i, TaskOK O Q c.shared i (c.task i)) ⟨h0, hp⟩ ?_
  rintro c c' ⟨hI, hT⟩ hst
  cases hst with
  | @exec j o k b t hj hx =>
    have hT' := hT j
    rw [hj] at hT'
    obtain ⟨⟨hI', hG⟩, hk⟩ := hT' c.shared (O.rely_refl j _) b t ⟨hI, hx⟩
    refine ⟨hI', (Function.forall_update_iff _ fun i τ => TaskOK O Q t i τ).2 ⟨hk, ?_⟩⟩
    exact fun i hij => (hT i).stable hQ (hG i hij)
  | @finish j a hj =>
    have hT' := hT j
    rw [hj] at hT'
    refine ⟨hI, (Function.forall_update_iff _ fun i τ => TaskOK O Q c.shared i τ).2
      ⟨hT' c.shared (O.rely_refl j _), fun i _ => hT i⟩⟩
  | @cancel j q hj =>
    exact ⟨hI, (Function.forall_update_iff _ fun i τ => TaskOK O Q c.shared i τ).2
      ⟨trivial, fun i _ => hT i⟩⟩
  | @drop j r t hj hdr =>
    obtain ⟨hI', hG⟩ := O.drop_ok hI hdr
    refine ⟨hI', fun i => ?_⟩
    by_cases hij : i = j
    · subst hij
      have hT' := hT i
      rw [hj] at hT' ⊢
      cases r with
      | none => trivial
      | some a => exact hd _ _ _ _ hT' hI hdr
    · exact (hT i).stable hQ (hG i hij)

end Config

end Conc
