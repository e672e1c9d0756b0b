import DeltaTxn.Conc.Prog
import Mathlib.Data.List.Forall2

/-!
# Two programs in step

Two programs are in step if, as long as they get alike answers, they make matching operations,
and they end in related results. This is how a program is compared with itself in a setting
that differs in something the program should not show.

* `Prog.Sim`: programs in step; `Sim.bind`, `Fallible.sim_bind`, ... are its rules.
* `Sim.completes`: two runs with alike answers make alike calls and end in related results.
-/

namespace Conc

variable {Op : Type} {Ans : Op → Type} {α α' β β' ε ε' E E' : Type}

/-- Results that are both failures, with related errors, or both successes, with related
values. -/
inductive ExceptRel (R : ε → ε' → Prop) (P : α → α' → Prop) : Except ε α → Except ε' α' → Prop
  | error {e : ε} {e' : ε'} (h : R e e') : ExceptRel R P (.error e) (.error e')
  | ok {a : α} {a' : α'} (h : P a a') : ExceptRel R P (.ok a) (.ok a')

theorem ExceptRel.eq {r r' : Except ε α} (h : ExceptRel Eq Eq r r') : r = r' := by
  cases h with
  | error h => rw [h]
  | ok h => rw [h]

theorem ExceptRel.refl {R : ε → ε → Prop} {P : α → α → Prop} (hR : ∀ e, R e e) (hP : ∀ a, P a a) :
    ∀ r : Except ε α, ExceptRel R P r r
  | .error e => .error (hR e)
  | .ok a => .ok (hP a)

/-- How two runs correspond: the operations that match, and the calls that are alike. -/
structure Matching (Op : Type) (Ans : Op → Type) where
  op : Op → Op → Prop
  call : Call Op Ans → Call Op Ans → Prop

/-- **Two runs have alike answers**, as far as their operations match. -/
def Matching.Agree (M : Matching Op Ans) (t t' : List (Call Op Ans)) : Prop :=
  ∀ (n : ℕ) (x y : Call Op Ans), t[n]? = some x → t'[n]? = some y → M.op x.1 y.1 → M.call x y

theorem Matching.Agree.tail {M : Matching Op Ans} {x y : Call Op Ans} {t t' : List (Call Op Ans)}
    (h : M.Agree (x :: t) (y :: t')) : M.Agree t t' :=
  fun n x' y' hx hy => h (n + 1) x' y' hx hy

theorem Matching.agree_of_forall₂ {M : Matching Op Ans} {t t' : List (Call Op Ans)}
    (h : List.Forall₂ M.call t t') : M.Agree t t' := by
  induction h with
  | nil => intro n x y hx; cases hx
  | @cons x y t t' hxy _ ih =>
    intro n x' y' hx hy hop
    cases n with
    | zero =>
      cases hx
      cases hy
      exact hxy
    | succ n => exact ih n x' y' hx hy hop

namespace Prog

variable {M : Matching Op Ans}

/-- **Programs in step.** -/
inductive Sim (M : Matching Op Ans) (Q : α → α' → Prop) :
    Prog Op Ans α → Prog Op Ans α' → Prop
  | ret {a : α} {a' : α'} (h : Q a a') : Sim M Q (ret a) (ret a')
  | op {o o' : Op} {k : Ans o → Prog Op Ans α} {k' : Ans o' → Prog Op Ans α'} (hop : M.op o o')
      (hk : ∀ b b', M.call ⟨o, b⟩ ⟨o', b'⟩ → Sim M Q (k b) (k' b')) : Sim M Q (op o k) (op o' k')

namespace Sim

variable {Q : α → α' → Prop} {Q' : β → β' → Prop}

theorem call {o o' : Op} {P : Ans o → Ans o' → Prop} (hop : M.op o o')
    (h : ∀ b b', M.call ⟨o, b⟩ ⟨o', b'⟩ → P b b') : Sim M P (call o) (call o') :=
  .op hop fun b b' hb => .ret (h b b' hb)

/-- **Sequential composition**: related results of the first parts start second parts in step. -/
theorem bind {p : Prog Op Ans α} {p' : Prog Op Ans α'} {f : α → Prog Op Ans β}
    {f' : α' → Prog Op Ans β'} (hp : Sim M Q p p')
    (hf : ∀ a a', Q a a' → Sim M Q' (f a) (f' a')) : Sim M Q' (p >>= f) (p' >>= f') := by
  induction hp with
  | ret h => exact hf _ _ h
  | op hop _ ih => exact .op hop fun b b' hb => ih b b' hb

/-- **Two complete runs** with alike answers: the calls are alike one by one, and the results
are related. -/
theorem completes {p : Prog Op Ans α} {p' : Prog Op Ans α'} (h : Sim M Q p p')
    {t t' : List (Call Op Ans)} {a : α} {a' : α'} (hp : p.Completes t a) (hp' : p'.Completes t' a')
    (hag : M.Agree t t') : List.Forall₂ M.call t t' ∧ Q a a' := by
  induction h generalizing t t' with
  | ret h =>
    obtain ⟨rfl, rfl⟩ := completes_ret.1 hp
    obtain ⟨rfl, rfl⟩ := completes_ret.1 hp'
    exact ⟨.nil, h⟩
  | op hop _ ih =>
    obtain ⟨b, u, rfl, hu⟩ := completes_op.1 hp
    obtain ⟨b', u', rfl, hu'⟩ := completes_op.1 hp'
    have hb := hag 0 _ _ rfl rfl hop
    obtain ⟨hcalls, hres⟩ := ih b b' hb hu hu' hag.tail
    exact ⟨.cons hb hcalls, hres⟩

end Sim

end Prog

namespace Fallible

open Prog (Sim mapErr)

variable {M : Matching Op Ans} {R : ε → ε' → Prop} {P : α → α' → Prop} {P' : β → β' → Prop}

theorem sim_pure {a : α} {a' : α'} (h : P a a') :
    Sim M (ExceptRel R P) (pure a : Fallible Op Ans ε α).run (pure a' : Fallible Op Ans ε' α').run :=
  .ret (.ok h)

/-- A computation that makes no call. -/
theorem sim_lift {r : Except ε α} {r' : Except ε' α'} (h : ExceptRel R P r r') :
    Sim M (ExceptRel R P) (liftM r : Fallible Op Ans ε α).run
      (liftM r' : Fallible Op Ans ε' α').run :=
  .ret h

/-- A program that cannot fail. -/
theorem sim_liftProg {p : Prog Op Ans α} {p' : Prog Op Ans α'} (h : Sim M P p p') :
    Sim M (ExceptRel R P) (liftM p : Fallible Op Ans ε α).run
      (liftM p' : Fallible Op Ans ε' α').run :=
  h.bind fun _ _ ha => .ret (.ok ha)

theorem sim_mapErr {S : E → E' → Prop} {f : E → ε} {f' : E' → ε'} {p : Prog Op Ans (Except E α)}
    {p' : Prog Op Ans (Except E' α')} (h : Sim M (ExceptRel S P) p p')
    (hf : ∀ e e', S e e' → R (f e) (f' e')) :
    Sim M (ExceptRel R P) (mapErr f p).run (mapErr f' p').run := by
  refine h.bind fun r r' hr => .ret ?_
  cases hr with
  | error he => exact .error (hf _ _ he)
  | ok ha => exact .ok ha

/-- **Sequential composition of fallible programs.** -/
theorem sim_bind {x : Fallible Op Ans ε α} {x' : Fallible Op Ans ε' α'}
    {f : α → Fallible Op Ans ε β} {f' : α' → Fallible Op Ans ε' β'}
    (hx : Sim M (ExceptRel R P) x.run x'.run)
    (hf : ∀ a a', P a a' → Sim M (ExceptRel R P') (f a).run (f' a').run) :
    Sim M (ExceptRel R P') (x >>= f).run (x' >>= f').run := by
  rw [ExceptT.run_bind, ExceptT.run_bind]
  refine hx.bind fun r r' hr => ?_
  cases hr with
  | error he => exact .ret (.error he)
  | ok ha => exact hf _ _ ha

end Fallible

end Conc
