import Mathlib.Tactic.Common
import Mathlib.Logic.Relation

/-!
# Programs over an effect signature

A program is a finite tree of operations: each node performs one operation and
continues with its answer. The meaning of the operations is left open, so one
program text serves for sequential runs under arbitrary answers (`Prog.Runs`) and
for tasks that interleave on a shared state (`Conc.Machine`).

* `Prog.completes_bind`: a complete run of a composition, taken apart.
* `Prog.All`: which operations a program can perform, whatever it is answered.
* `Prog.wp`: what has to hold before a program so that it ends in a postcondition,
  each of its steps is allowed by a guarantee, and interference between its steps
  stays within a rely. `Prog.wp_bind`, `Prog.wp_op`, `Prog.wp_mono` are its rules.
-/

namespace Conc

/-- **A program** over operations `Op`, where the operation `o` is answered by a
value of type `Ans o`. -/
inductive Prog (Op : Type) (Ans : Op → Type) (α : Type) : Type
  | ret (a : α)
  | op (o : Op) (k : Ans o → Prog Op Ans α)

/-- An operation together with the answer it got. -/
abbrev Call (Op : Type) (Ans : Op → Type) : Type := Σ o : Op, Ans o

namespace Prog

variable {Op : Type} {Ans : Op → Type} {α β γ : Type}

/-- Sequential composition. -/
def bind : Prog Op Ans α → (α → Prog Op Ans β) → Prog Op Ans β
  | ret a, f => f a
  | op o k, f => op o fun b => (k b).bind f

instance : Monad (Prog Op Ans) where
  pure := ret
  bind := bind

@[simp] theorem op_bind (o : Op) (k : Ans o → Prog Op Ans α) (f : α → Prog Op Ans β) :
    op o k >>= f = op o fun b => k b >>= f := rfl

/-- Returning what was returned changes nothing. -/
theorem bind_ret (p : Prog Op Ans α) : bind p ret = p := by
  induction p with
  | ret a => rfl
  | op o k ih => simp only [bind, ih]

theorem bind_assoc (p : Prog Op Ans α) (f : α → Prog Op Ans β) (g : β → Prog Op Ans γ) :
    bind (bind p f) g = bind p fun a => bind (f a) g := by
  induction p with
  | ret a => rfl
  | op o k ih => simp only [bind, ih]

instance : LawfulMonad (Prog Op Ans) :=
  LawfulMonad.mk' _ (fun p => bind_ret p) (fun _ _ => rfl) (fun p f g => bind_assoc p f g)

/-- One operation, returning its answer. -/
def call (o : Op) : Prog Op Ans (Ans o) := op o ret

/-! ## Sequential runs -/

/-- **A run**: `p` performs the calls `t`, with the answers recorded there, and is then
left with `q`. -/
inductive Runs : Prog Op Ans α → List (Call Op Ans) → Prog Op Ans α → Prop
  | refl (p : Prog Op Ans α) : Runs p [] p
  | step {o : Op} {k : Ans o → Prog Op Ans α} {b : Ans o} {t : List (Call Op Ans)}
      {q : Prog Op Ans α} (h : Runs (k b) t q) : Runs (op o k) (⟨o, b⟩ :: t) q

theorem runs_ret {a : α} {t : List (Call Op Ans)} {q : Prog Op Ans α}
    (h : (ret a : Prog Op Ans α).Runs t q) : t = [] := by
  cases h
  rfl

theorem runs_op {o : Op} {k : Ans o → Prog Op Ans α} {t : List (Call Op Ans)} {q : Prog Op Ans α}
    (h : (op o k).Runs t q) : t = [] ∨ ∃ b t', t = ⟨o, b⟩ :: t' ∧ (k b).Runs t' q := by
  cases h with
  | refl => exact Or.inl rfl
  | step h => exact Or.inr ⟨_, _, rfl, h⟩

/-- A run is extended by the next call of the program it left. -/
theorem Runs.snoc {p : Prog Op Ans α} {t : List (Call Op Ans)} {o : Op}
    {k : Ans o → Prog Op Ans α} (h : Runs p t (op o k)) (b : Ans o) :
    Runs p (t ++ [⟨o, b⟩]) (k b) := by
  generalize hq : op o k = q at h
  induction h with
  | refl p => subst hq; exact .step (.refl _)
  | step _ ih => exact .step (ih hq)

/-- `p` runs to its end, with the calls `t` and the result `a`. -/
def Completes (p : Prog Op Ans α) (t : List (Call Op Ans)) (a : α) : Prop := p.Runs t (ret a)

@[simp] theorem completes_ret {a b : α} {t : List (Call Op Ans)} :
    (ret b : Prog Op Ans α).Completes t a ↔ t = [] ∧ a = b := by
  constructor
  · intro h
    cases h
    exact ⟨rfl, rfl⟩
  · rintro ⟨rfl, rfl⟩
    exact .refl _

theorem completes_op {o : Op} {k : Ans o → Prog Op Ans α} {t : List (Call Op Ans)} {a : α} :
    (op o k).Completes t a ↔ ∃ b t', t = ⟨o, b⟩ :: t' ∧ (k b).Completes t' a := by
  constructor
  · intro h
    cases h with
    | step h => exact ⟨_, _, rfl, h⟩
  · rintro ⟨b, t', rfl, h⟩
    exact .step h

/-- A complete run of a sequential composition is one of each part. -/
theorem completes_bind {p : Prog Op Ans α} {f : α → Prog Op Ans β} {t : List (Call Op Ans)} {a : β} :
    (p >>= f).Completes t a ↔
      ∃ t₁ t₂ x, t = t₁ ++ t₂ ∧ p.Completes t₁ x ∧ (f x).Completes t₂ a := by
  induction p generalizing t with
  | ret x =>
    change (f x).Completes t a ↔ _
    simp
  | op o k ih =>
    simp only [op_bind, completes_op, ih]
    constructor
    · rintro ⟨b, t', rfl, t₁, t₂, x, rfl, h₁, h₂⟩
      exact ⟨⟨o, b⟩ :: t₁, t₂, x, rfl, ⟨b, t₁, rfl, h₁⟩, h₂⟩
    · rintro ⟨_, t₂, x, rfl, ⟨b, t₁, rfl, h₁⟩, h₂⟩
      exact ⟨b, t₁ ++ t₂, rfl, t₁, t₂, x, rfl, h₁, h₂⟩

/-- **A run of a sequential composition** is still in the first part, or it has completed it. -/
theorem runs_bind {p : Prog Op Ans α} {f : α → Prog Op Ans β} {t : List (Call Op Ans)}
    {q : Prog Op Ans β} (h : (p >>= f).Runs t q) :
    (∃ p', p.Runs t p' ∧ q = p' >>= f) ∨
      ∃ t₁ t₂ x, t = t₁ ++ t₂ ∧ p.Completes t₁ x ∧ (f x).Runs t₂ q := by
  induction p generalizing t with
  | ret x => exact Or.inr ⟨[], t, x, rfl, .refl _, h⟩
  | op o k ih =>
    rcases runs_op h with rfl | ⟨b, t', rfl, hrest⟩
    · cases h
      exact Or.inl ⟨op o k, .refl _, rfl⟩
    · rcases ih b hrest with ⟨p', hp, rfl⟩ | ⟨t₁, t₂, x, rfl, hp, hf⟩
      · exact Or.inl ⟨p', .step hp, rfl⟩
      · exact Or.inr ⟨⟨o, b⟩ :: t₁, t₂, x, rfl, .step hp, hf⟩

theorem completes_call {o : Op} {t : List (Call Op Ans)} {b : Ans o} :
    (call o : Prog Op Ans (Ans o)).Completes t b ↔ t = [⟨o, b⟩] := by
  simp only [call, completes_op, completes_ret]
  constructor
  · rintro ⟨b', t', rfl, rfl, rfl⟩
    rfl
  · rintro rfl
    exact ⟨b, [], rfl, rfl, rfl⟩

/-! ## Weakest preconditions -/

/-- What a program is verified against: how an operation acts on the state, the
interference `rely` that may happen between its steps, and the guarantee `guar` that
each of its own steps has to meet. -/
structure Rules (Op : Type) (Ans : Op → Type) (S : Type) where
  exec : (o : Op) → Ans o → S → S → Prop
  rely : S → S → Prop
  guar : S → S → Prop
  rely_refl : ∀ s, rely s s
  rely_trans : ∀ {s t u}, rely s t → rely t u → rely s u

variable {S : Type} {L : Rules Op Ans S}

/-- **Weakest precondition.** From `s`, with any interference within `L.rely` before each
step, every step of the program is within `L.guar`, and if it ends, it ends in `Q`. -/
def wp (L : Rules Op Ans S) : Prog Op Ans α → (α → S → Prop) → S → Prop
  | ret a, Q, s => ∀ s', L.rely s s' → Q a s'
  | op o k, Q, s => ∀ s', L.rely s s' → ∀ b s'', L.exec o b s' s'' →
      L.guar s' s'' ∧ wp L (k b) Q s''

/-- A weakest precondition survives interference. -/
theorem wp_stable {p : Prog Op Ans α} {Q : α → S → Prop} {s s' : S} (h : wp L p Q s)
    (hs : L.rely s s') : wp L p Q s' := by
  cases p with
  | ret a => exact fun u hu => h u (L.rely_trans hs hu)
  | op o k => exact fun u hu => h u (L.rely_trans hs hu)

theorem wp_mono {p : Prog Op Ans α} {Q Q' : α → S → Prop} (hQ : ∀ a s, Q a s → Q' a s) :
    ∀ {s}, wp L p Q s → wp L p Q' s := by
  induction p with
  | ret a => exact fun h s' hs => hQ _ _ (h s' hs)
  | op o k ih =>
    intro s h s' hs b s'' hx
    obtain ⟨hg, hk⟩ := h s' hs b s'' hx
    exact ⟨hg, ih b hk⟩

/-- **Sequential composition**: the first part has to end where the second may start. -/
theorem wp_bind {p : Prog Op Ans α} {f : α → Prog Op Ans β} {Q : β → S → Prop} :
    ∀ {s}, wp L p (fun a => wp L (f a) Q) s → wp L (p >>= f) Q s := by
  induction p with
  | ret a => exact fun h => h _ (L.rely_refl _)
  | op o k ih =>
    intro s h s' hs b s'' hx
    obtain ⟨hg, hk⟩ := h s' hs b s'' hx
    exact ⟨hg, ih b hk⟩

/-- **One operation**, from an assertion `P` that interference keeps. -/
theorem wp_op {o : Op} {k : Ans o → Prog Op Ans α} {Q : α → S → Prop} (P : S → Prop)
    (hst : ∀ s s', P s → L.rely s s' → P s')
    (hop : ∀ s b s', P s → L.exec o b s s' → L.guar s s' ∧ wp L (k b) Q s') {s : S} (hP : P s) :
    wp L (op o k) Q s :=
  fun s' hs b s'' hx => hop s' b s'' (hst s s' hP hs) hx

/-- A program that has ended, in an assertion that interference keeps. -/
theorem wp_ret {a : α} {Q : α → S → Prop} (hst : ∀ s s', Q a s → L.rely s s' → Q a s') {s : S}
    (h : Q a s) : wp L (ret a) Q s :=
  fun s' hs => hst s s' h hs

/-! ## What a program can do under any answers -/

/-- Every operation that `p` can perform satisfies `P`, and every result it can have `R`. -/
def All (P : Op → Prop) (R : α → Prop) : Prog Op Ans α → Prop
  | ret a => R a
  | op o k => P o ∧ ∀ b, All P R (k b)

variable {P : Op → Prop} {R : α → Prop} {R' : β → Prop}

theorem all_call {o : Op} (h : P o) : All P (fun _ => True) (call o : Prog Op Ans (Ans o)) :=
  ⟨h, fun _ => trivial⟩

theorem all_bind {p : Prog Op Ans α} {f : α → Prog Op Ans β} (hp : p.All P R)
    (hf : ∀ a, R a → (f a).All P R') : (p >>= f).All P R' := by
  induction p with
  | ret a => exact hf a hp
  | op o k ih => exact ⟨hp.1, fun b => ih b (hp.2 b)⟩

/-- The calls of any run satisfy `P`. -/
theorem All.runs {p q : Prog Op Ans α} {t : List (Call Op Ans)} (h : p.All P R) (hr : p.Runs t q) :
    ∀ x ∈ t, P x.1 := by
  induction hr with
  | refl p => simp
  | @step o k b t q _ ih =>
    rw [List.forall_mem_cons]
    exact ⟨h.1, ih (h.2 b)⟩

theorem All.mono {P' : Op → Prop} {R₂ : α → Prop} {p : Prog Op Ans α} (h : p.All P R)
    (hP : ∀ o, P o → P' o) (hR : ∀ a, R a → R₂ a) : p.All P' R₂ := by
  induction p with
  | ret a => exact hR a h
  | op o k ih => exact ⟨hP o h.1, fun b => ih b (h.2 b)⟩

/-- **A program that only performs operations which keep an assertion** needs no more than that
assertion. -/
theorem wp_of_all {I : S → Prop} {Q : α → S → Prop} {p : Prog Op Ans α} (hp : p.All P R)
    (hst : ∀ s s', I s → L.rely s s' → I s')
    (hop : ∀ o b s s', P o → I s → L.exec o b s s' → L.guar s s' ∧ I s')
    (hQ : ∀ a s, R a → I s → Q a s) : ∀ {s}, I s → wp L p Q s := by
  induction p with
  | ret a => exact fun h s' hs => hQ a s' hp (hst _ s' h hs)
  | op o k ih =>
    intro s h s' hs b s'' hx
    obtain ⟨hg, hI⟩ := hop o b s' s'' hp.1 (hst s s' h hs) hx
    exact ⟨hg, ih b (hp.2 b) hI⟩

/-- At most `n` operations of `p` satisfy `P`, whatever it is answered. -/
def AtMost (P : Op → Prop) : ℕ → Prog Op Ans α → Prop
  | _, ret _ => True
  | n, op o k => (¬ P o ∧ ∀ b, AtMost P n (k b)) ∨ ∃ m, n = m + 1 ∧ ∀ b, AtMost P m (k b)

theorem AtMost.of_all {p : Prog Op Ans α} (h : p.All (fun o => ¬ P o) R) {n : ℕ} : p.AtMost P n := by
  induction p with
  | ret a => trivial
  | op o k ih => exact Or.inl ⟨h.1, fun b => ih b (h.2 b)⟩

theorem AtMost.mono {p : Prog Op Ans α} {m n : ℕ} (h : p.AtMost P m) (hmn : m ≤ n) :
    p.AtMost P n := by
  induction p generalizing m n with
  | ret a => trivial
  | op o k ih =>
    rcases h with ⟨ho, hk⟩ | ⟨m', rfl, hk⟩
    · exact Or.inl ⟨ho, fun b => ih b (hk b) hmn⟩
    · refine Or.inr ⟨n - 1, by omega, fun b => ih b (hk b) ?_⟩
      omega

/-- Sequential composition adds the bounds. -/
theorem AtMost.bind {p : Prog Op Ans α} {f : α → Prog Op Ans β} {m n : ℕ} (hp : p.AtMost P m)
    (hf : ∀ a, (f a).AtMost P n) : (p >>= f).AtMost P (m + n) := by
  induction p generalizing m with
  | ret a =>
    have hle : n ≤ m + n := by omega
    exact (hf a).mono hle
  | op o k ih =>
    rcases hp with ⟨ho, hk⟩ | ⟨m', rfl, hk⟩
    · exact Or.inl ⟨ho, fun b => ih b (hk b)⟩
    · refine Or.inr ⟨m' + n, by omega, fun b => ih b (hk b)⟩

theorem atMost_call (o : Op) : (call o : Prog Op Ans (Ans o)).AtMost P 1 :=
  Or.inr ⟨0, rfl, fun _ => trivial⟩

/-- What comes after the last such operation has none. -/
theorem AtMost.zero_runs {p q : Prog Op Ans α} {t : List (Call Op Ans)} (h : p.AtMost P 0)
    (hr : p.Runs t q) : ∀ x ∈ t, ¬ P x.1 := by
  induction hr with
  | refl p => simp
  | @step o k b t q _ ih =>
    rcases h with ⟨ho, hk⟩ | ⟨m, hm, -⟩
    · rw [List.forall_mem_cons]
      exact ⟨ho, ih (hk b)⟩
    · omega

/-- **At most one**: if the last call of a run is such a call, none before it is. -/
theorem AtMost.runs_last {p q : Prog Op Ans α} {t : List (Call Op Ans)} {x : Call Op Ans}
    (h : p.AtMost P 1) (hr : p.Runs (t ++ [x]) q) (hx : P x.1) : ∀ y ∈ t, ¬ P y.1 := by
  generalize ht : t ++ [x] = l at hr
  induction hr generalizing t with
  | refl p => exact absurd ht (by simp)
  | @step o k b l q hr ih =>
    cases t with
    | nil => simp
    | cons y t =>
      obtain ⟨rfl, rfl⟩ := List.cons.inj ht
      rcases h with ⟨ho, hk⟩ | ⟨m, hm, hk⟩
      · exact List.forall_mem_cons.2 ⟨ho, ih (hk b) rfl⟩
      · -- this is the one: the rest has none
        obtain rfl : m = 0 := by omega
        exact absurd hx ((hk b).zero_runs hr x (by simp))

/-! ## Results mapped by a function -/

theorem All.map {f : α → β} {p : Prog Op Ans α} (h : p.All P R) (hf : ∀ a, R a → R' (f a)) :
    (f <$> p).All P R' := by
  rw [map_eq_pure_bind]
  exact all_bind h hf

theorem AtMost.map {f : α → β} {p : Prog Op Ans α} {n : ℕ} (h : p.AtMost P n) :
    (f <$> p).AtMost P n := by
  rw [map_eq_pure_bind]
  exact h.bind (n := 0) fun _ => trivial

/-- A run of such a program is one of the program itself. -/
theorem runs_map {f : α → β} {p : Prog Op Ans α} {t : List (Call Op Ans)} {q : Prog Op Ans β}
    (h : (f <$> p).Runs t q) : ∃ q', p.Runs t q' ∧ q = f <$> q' := by
  induction p generalizing t with
  | ret a =>
    have h' : (ret (f a) : Prog Op Ans β).Runs t q := h
    obtain rfl := runs_ret h'
    cases h'
    exact ⟨ret a, .refl _, rfl⟩
  | op o k ih =>
    have h' : (op o fun b => f <$> k b).Runs t q := h
    cases h' with
    | refl => exact ⟨op o k, .refl _, rfl⟩
    | step hr =>
      obtain ⟨q', hq', rfl⟩ := ih _ hr
      exact ⟨q', .step hq', rfl⟩

theorem completes_map {f : α → β} {p : Prog Op Ans α} {t : List (Call Op Ans)} {y : β}
    (h : (f <$> p).Completes t y) : ∃ x, p.Completes t x ∧ y = f x := by
  rw [map_eq_pure_bind] at h
  obtain ⟨t₁, t₂, x, rfl, hp, hx⟩ := completes_bind.1 h
  obtain ⟨rfl, rfl⟩ := completes_ret.1 hx
  exact ⟨x, by rwa [List.append_nil], rfl⟩

end Prog

/-! ## Programs that may fail -/

variable {Op : Type} {Ans : Op → Type} {α β ε E : Type} {S : Type} {L : Prog.Rules Op Ans S}

/-- A program that returns a value or fails with an error. -/
abbrev Fallible (Op : Type) (Ans : Op → Type) (ε : Type) : Type → Type := ExceptT ε (Prog Op Ans)

/-- Run `x` and turn its error by `f`. -/
def Prog.mapErr (f : E → ε) (x : Prog Op Ans (Except E α)) : Fallible Op Ans ε α :=
  ExceptT.mk ((fun r => r.mapError f) <$> x)

namespace Fallible

/-- A complete run of a sequential composition: the first part fails and so does the whole, or
it succeeds and the second part runs. -/
theorem completes_bind {x : Fallible Op Ans ε α} {f : α → Fallible Op Ans ε β} {t : List (Call Op Ans)}
    {a : Except ε β} (h : (x >>= f).run.Completes t a) :
    (∃ e, x.run.Completes t (.error e) ∧ a = .error e) ∨
      ∃ t₁ t₂ v, t = t₁ ++ t₂ ∧ x.run.Completes t₁ (.ok v) ∧ (f v).run.Completes t₂ a := by
  rw [ExceptT.run_bind, Prog.completes_bind] at h
  obtain ⟨t₁, t₂, r, rfl, h₁, h₂⟩ := h
  cases r with
  | error e =>
    obtain ⟨rfl, rfl⟩ := Prog.completes_ret.1 h₂
    exact Or.inl ⟨e, by rwa [List.append_nil], rfl⟩
  | ok v => exact Or.inr ⟨t₁, t₂, v, rfl, h₁, h₂⟩

/-- A run of a sequential composition: it is still in the first part, or that has failed, or it
has succeeded. -/
theorem runs_bind {x : Fallible Op Ans ε α} {f : α → Fallible Op Ans ε β} {t : List (Call Op Ans)}
    {q : Prog Op Ans (Except ε β)} (h : (x >>= f).run.Runs t q) :
    (∃ q', x.run.Runs t q' ∧ ∀ a, q ≠ .ret (.ok a)) ∨
      ∃ t₁ t₂ v, t = t₁ ++ t₂ ∧ x.run.Completes t₁ (.ok v) ∧ (f v).run.Runs t₂ q := by
  rw [ExceptT.run_bind] at h
  rcases Prog.runs_bind h with ⟨p', hp, rfl⟩ | ⟨t₁, t₂, r, rfl, hx, hf⟩
  · cases p' with
    | op o k => exact Or.inl ⟨_, hp, fun a ha => by cases ha⟩
    | ret r =>
      cases r with
      | error e => exact Or.inl ⟨_, hp, fun a ha => by cases ha⟩
      | ok v => exact Or.inr ⟨t, [], v, (List.append_nil t).symm, hp, .refl _⟩
  · cases r with
    | error e =>
      obtain rfl := Prog.runs_ret hf
      have hx' : x.run.Runs (t₁ ++ []) (.ret (.error e)) := by rwa [List.append_nil]
      refine Or.inl ⟨_, hx', fun a ha => ?_⟩
      rw [ha] at hf
      cases hf
    | ok v => exact Or.inr ⟨t₁, t₂, v, rfl, hx, hf⟩

/-- A run of a program that cannot fail. -/
theorem runs_liftProg {x : Prog Op Ans α} {t : List (Call Op Ans)} {q : Prog Op Ans (Except ε α)}
    (h : (liftM x : Fallible Op Ans ε α).run.Runs t q) :
    ∃ x', x.Runs t x' ∧ ∀ r, q = .ret r → ∃ a, r = .ok a ∧ x' = .ret a := by
  have h' : ((Except.ok : α → Except ε α) <$> x).Runs t q := h
  obtain ⟨x', hx, rfl⟩ := Prog.runs_map h'
  refine ⟨x', hx, fun r hr => ?_⟩
  cases x' with
  | ret a =>
    cases hr
    exact ⟨a, rfl, rfl⟩
  | op o k => cases hr

/-- A complete run of a computation that makes no call. -/
theorem completes_lift {r : Except ε α} {t : List (Call Op Ans)} {a : Except ε α}
    (h : (liftM r : Fallible Op Ans ε α).run.Completes t a) : t = [] ∧ a = r :=
  Prog.completes_ret.1 h

/-- A complete run whose first part cannot fail. -/
theorem completes_lift_bind {x : Prog Op Ans α} {f : α → Fallible Op Ans ε β} {t : List (Call Op Ans)}
    {a : Except ε β} (h : ((liftM x : Fallible Op Ans ε α) >>= f).run.Completes t a) :
    ∃ t₁ t₂ v, t = t₁ ++ t₂ ∧ x.Completes t₁ v ∧ (f v).run.Completes t₂ a :=
  Prog.completes_bind.1 (ExceptT.run_bind_lift x f ▸ h)

/-- A complete run of one that turns its error. -/
theorem completes_mapErr {f : E → ε} {x : Prog Op Ans (Except E α)} {t : List (Call Op Ans)}
    {a : Except ε α} (h : (Prog.mapErr f x).run.Completes t a) :
    ∃ r, x.Completes t r ∧ a = r.mapError f := by
  change ((fun r => r.mapError f) <$> x).Completes t a at h
  rw [map_eq_pure_bind, Prog.completes_bind] at h
  obtain ⟨t₁, t₂, r, rfl, h₁, h₂⟩ := h
  obtain ⟨rfl, rfl⟩ := Prog.completes_ret.1 h₂
  exact ⟨r, by rwa [List.append_nil], rfl⟩

/-- The two together: a first part whose error is turned. -/
theorem completes_mapErr_bind {f : E → ε} {x : Prog Op Ans (Except E α)}
    {g : α → Fallible Op Ans ε β} {t : List (Call Op Ans)} {a : Except ε β}
    (h : (Prog.mapErr f x >>= g).run.Completes t a) :
    (∃ e, x.Completes t (.error e) ∧ a = .error (f e)) ∨
      ∃ t₁ t₂ v, t = t₁ ++ t₂ ∧ x.Completes t₁ (.ok v) ∧ (g v).run.Completes t₂ a := by
  rcases completes_bind h with ⟨e, h₁, rfl⟩ | ⟨t₁, t₂, v, rfl, h₁, h₂⟩
  · obtain ⟨r, hr, he⟩ := completes_mapErr h₁
    cases r with
    | error e' => cases he; exact Or.inl ⟨e', hr, rfl⟩
    | ok v => cases he
  · obtain ⟨r, hr, he⟩ := completes_mapErr h₁
    cases r with
    | error e' => cases he
    | ok v' => cases he; exact Or.inr ⟨t₁, t₂, v, rfl, hr, h₂⟩

theorem all_bind {P : Op → Prop} {R : Except ε α → Prop} {R' : Except ε β → Prop}
    {x : Fallible Op Ans ε α} {f : α → Fallible Op Ans ε β} (hx : x.run.All P R)
    (hf : ∀ a, R (.ok a) → (f a).run.All P R') (he : ∀ e, R (.error e) → R' (.error e)) :
    (x >>= f).run.All P R' := by
  rw [ExceptT.run_bind]
  refine Prog.all_bind hx fun r hr => ?_
  cases r with
  | ok a => exact hf a hr
  | error e => exact he e hr

theorem all_mapErr {P : Op → Prop} {R : Except E α → Prop} {R' : Except ε α → Prop} {f : E → ε}
    {x : Prog Op Ans (Except E α)} (hx : x.All P R) (hf : ∀ r, R r → R' (r.mapError f)) :
    (Prog.mapErr f x).run.All P R' :=
  Prog.all_bind hx fun r hr => hf r hr

/-- The same when the error of the first part is turned. -/
theorem all_mapErr_bind {P : Op → Prop} {R : Except E α → Prop} {R' : Except ε β → Prop} {f : E → ε}
    {x : Prog Op Ans (Except E α)} {g : α → Fallible Op Ans ε β} (hx : x.All P R)
    (hf : ∀ a, R (.ok a) → (g a).run.All P R') (he : ∀ e, R' (.error e)) :
    (Prog.mapErr f x >>= g).run.All P R' := by
  refine all_bind (R := fun r => ∀ a, r = .ok a → R (.ok a)) (all_mapErr hx ?_)
    (fun a ha => hf a (ha a rfl)) fun e _ => he e
  intro r hr a ha
  cases r with
  | error e => cases ha
  | ok a' => cases ha; exact hr

theorem atMost_bind {P : Op → Prop} {m n : ℕ} {x : Fallible Op Ans ε α}
    {f : α → Fallible Op Ans ε β} (hx : x.run.AtMost P m) (hf : ∀ a, (f a).run.AtMost P n) :
    (x >>= f).run.AtMost P (m + n) := by
  rw [ExceptT.run_bind]
  refine hx.bind fun r => ?_
  cases r with
  | ok a => exact hf a
  | error e => trivial

theorem atMost_mapErr {P : Op → Prop} {n : ℕ} {f : E → ε} {x : Prog Op Ans (Except E α)}
    (hx : x.AtMost P n) : (Prog.mapErr f x).run.AtMost P n :=
  Prog.AtMost.map hx

/-- The postcondition of a first part: on success the second part may start, on failure the
whole fails. -/
def next (f : α → Fallible Op Ans ε β) (L : Prog.Rules Op Ans S) (Q : Except ε β → S → Prop) :
    Except ε α → S → Prop
  | .ok a => Prog.wp L (f a).run Q
  | .error e => Q (.error e)

/-- **Sequential composition of fallible programs.** Failure of the first part ends the
whole in a postcondition that interference keeps. -/
theorem wp_bind {x : Fallible Op Ans ε α} {f : α → Fallible Op Ans ε β} {Q : Except ε β → S → Prop}
    (hst : ∀ e s s', Q (.error e) s → L.rely s s' → Q (.error e) s') {s : S}
    (h : Prog.wp L x.run (next f L Q) s) : Prog.wp L (x >>= f).run Q s := by
  rw [ExceptT.run_bind]
  refine Prog.wp_bind (Prog.wp_mono (fun r s hr => ?_) h)
  cases r with
  | ok a => exact hr
  | error e => exact Prog.wp_ret (hst e) hr

/-- The same when the error of the first part is turned. -/
theorem wp_mapErr_bind {f : E → ε} {x : Prog Op Ans (Except E α)} {g : α → Fallible Op Ans ε β}
    {Q : Except ε β → S → Prop}
    (hst : ∀ e s s', Q (.error e) s → L.rely s s' → Q (.error e) s') {s : S}
    (h : Prog.wp L x (fun r => next g L Q (r.mapError f)) s) :
    Prog.wp L (Prog.mapErr f x >>= g).run Q s := by
  refine wp_bind hst ?_
  change Prog.wp L ((fun r => r.mapError f) <$> x) _ s
  rw [map_eq_pure_bind]
  refine Prog.wp_bind (Prog.wp_mono (fun r s hr => ?_) h)
  refine Prog.wp_ret (fun s s' hs hr => ?_) hr
  cases hm : r.mapError f with
  | error e => rw [hm] at hs; exact hst e s s' hs hr
  | ok a => rw [hm] at hs; exact Prog.wp_stable hs hr

end Fallible

end Conc
