import DeltaTxn.Conc.Machine

/-!
# A front end

A front end answers some of the tasks itself, before their programs begin. For the shared state, and
for the tasks that it lets pass, it is as if the others had been cancelled before their first
operation.

* `Stands`: how two states stand to each other, one with the front end and one without.
* `Reach.behind`: every state that can be reached with a front end stands so to one that can be
  reached without.
* `Reach.refused`: what a task has done that the front end answers.
-/

namespace Conc

variable {Tid Op : Type} {Ans : Op → Type} {α S : Type}

/-- The programs behind a front end, which answers the tasks that `front` has an answer for. -/
def Prog.behind (front : Tid → Option α) (p : Tid → Prog Op Ans α) (i : Tid) : Prog Op Ans α :=
  match front i with
  | some a => .ret a
  | none => p i

/-- A task that is answered `a` in front of its program `p`, with the front end and without: there it
has not begun, or it was cancelled. -/
inductive Task.Refused (p : Prog Op Ans α) (a : α) : Task Op Ans α → Task Op Ans α → Prop
  | waiting : Refused p a (.running (.ret a)) (.running p)
  | answered : Refused p a (.ended (some a)) (.ended none)
  | cancelled : Refused p a (.ended none) (.ended none)

namespace Config

variable {front : Tid → Option α} {p : Tid → Prog Op Ans α}

/-- **How two states stand to each other**, `c` with the front end and `d` without. -/
structure Stands (front : Tid → Option α) (p : Tid → Prog Op Ans α) (c d : Config Tid Op Ans α S) :
    Prop where
  shared : d.shared = c.shared
  calls : d.calls = c.calls
  passed : ∀ i, front i = none → d.task i = c.task i
  refused : ∀ i a, front i = some a → Task.Refused (p i) a (c.task i) (d.task i)

variable [DecidableEq Tid] {M : Machine Tid Op Ans S} {c c' d : Config Tid Op Ans α S} {s s' : S} {i : Tid}

/-- One task has moved, in both states. -/
theorem Stands.move {d' : Config Tid Op Ans α S} (h : Stands front p c d) {τ τ' : Task Op Ans α}
    (hshared : d'.shared = c'.shared) (hcalls : d'.calls = c'.calls)
    (hc : c'.task = Function.update c.task i τ) (hd : d'.task = Function.update d.task i τ')
    (hpassed : front i = none → τ' = τ) (hrefused : ∀ a, front i = some a → Task.Refused (p i) a τ τ') :
    Stands front p c' d' where
  shared := hshared
  calls := hcalls
  passed := by
    intro j hj
    rw [hc, hd]
    by_cases hji : j = i
    · subst hji
      rw [Function.update_self, Function.update_self, hpassed hj]
    · rw [Function.update_of_ne hji, Function.update_of_ne hji]
      exact h.passed j hj
  refused := by
    intro j a hj
    rw [hc, hd]
    by_cases hji : j = i
    · subst hji
      rw [Function.update_self, Function.update_self]
      exact hrefused a hj
    · rw [Function.update_of_ne hji, Function.update_of_ne hji]
      exact h.refused j a hj

theorem Stands.move_passed {d' : Config Tid Op Ans α S} (h : Stands front p c d) (hi : front i = none)
    {τ : Task Op Ans α} (hshared : d'.shared = c'.shared) (hcalls : d'.calls = c'.calls)
    (hc : c'.task = Function.update c.task i τ) (hd : d'.task = Function.update d.task i τ) :
    Stands front p c' d' := by
  refine h.move hshared hcalls hc hd (fun _ => rfl) fun a ha => ?_
  rw [hi] at ha
  cases ha

theorem Stands.move_refused {d' : Config Tid Op Ans α S} (h : Stands front p c d) {a : α}
    (hi : front i = some a) {τ τ' : Task Op Ans α} (hτ : Task.Refused (p i) a τ τ')
    (hshared : d'.shared = c'.shared) (hcalls : d'.calls = c'.calls)
    (hc : c'.task = Function.update c.task i τ) (hd : d'.task = Function.update d.task i τ') :
    Stands front p c' d' := by
  refine h.move hshared hcalls hc hd (fun hno => ?_) fun a' ha => ?_
  · rw [hi] at hno
    cases hno
  · rw [hi] at ha
    cases ha
    exact hτ

omit [DecidableEq Tid] in
/-- A task that is answered in front makes no calls; it ends with its answer, or is cancelled. -/
theorem Stands.of_refused (h : Stands front p c d) {a : α} (hi : front i = some a) :
    (c.task i = .running (.ret a) ∧ d.task i = .running (p i)) ∨
      ((∃ r, c.task i = .ended r) ∧ d.task i = .ended none) := by
  have hrefused := h.refused i a hi
  generalize c.task i = τ at hrefused
  generalize d.task i = τ' at hrefused
  cases hrefused with
  | waiting => exact Or.inl ⟨rfl, rfl⟩
  | answered => exact Or.inr ⟨⟨_, rfl⟩, rfl⟩
  | cancelled => exact Or.inr ⟨⟨_, rfl⟩, rfl⟩

/-- **Every step with the front end** is one without. -/
theorem Stands.step (h : Stands front p c d) (hst : Step M c c') :
    ∃ d', Step M d d' ∧ Stands front p c' d' := by
  cases hst with
  | @exec i o k b s hi hx =>
    cases hfront : front i with
    | none =>
      have hd : d.task i = .running (.op o k) := (h.passed i hfront).trans hi
      refine ⟨_, .exec hd (h.shared ▸ hx), h.move_passed hfront rfl ?_ rfl rfl⟩
      rw [h.calls]
    | some a =>
      rcases h.of_refused hfront with ⟨hret, -⟩ | ⟨⟨r, hended⟩, -⟩
      · rw [hi] at hret
        cases hret
      · rw [hi] at hended
        cases hended
  | @finish i b hi =>
    cases hfront : front i with
    | none =>
      have hd : d.task i = .running (.ret b) := (h.passed i hfront).trans hi
      exact ⟨_, .finish hd, h.move_passed hfront h.shared h.calls rfl rfl⟩
    | some a =>
      rcases h.of_refused hfront with ⟨hret, hd⟩ | ⟨⟨r, hended⟩, -⟩
      · rw [hi] at hret
        cases hret
        -- with the front end it has its answer now, without it is cancelled
        exact ⟨_, .cancel hd, h.move_refused hfront .answered h.shared h.calls rfl rfl⟩
      · rw [hi] at hended
        cases hended
  | @cancel i q hi =>
    cases hfront : front i with
    | none =>
      have hd : d.task i = .running q := (h.passed i hfront).trans hi
      exact ⟨_, .cancel hd, h.move_passed hfront h.shared h.calls rfl rfl⟩
    | some a =>
      rcases h.of_refused hfront with ⟨-, hd⟩ | ⟨⟨r, hended⟩, -⟩
      · exact ⟨_, .cancel hd, h.move_refused hfront .cancelled h.shared h.calls rfl rfl⟩
      · rw [hi] at hended
        cases hended
  | @drop i r s hi hdrop =>
    have hd : ∃ r', d.task i = .ended r' := by
      cases hfront : front i with
      | none => exact ⟨r, (h.passed i hfront).trans hi⟩
      | some a =>
        rcases h.of_refused hfront with ⟨hret, -⟩ | ⟨-, hd⟩
        · rw [hi] at hret
          cases hret
        · exact ⟨none, hd⟩
    obtain ⟨r', hd⟩ := hd
    exact ⟨_, .drop hd (h.shared ▸ hdrop), ⟨rfl, h.calls, h.passed, h.refused⟩⟩

omit [DecidableEq Tid] in
theorem stands_init (s : S) :
    Stands front p (init (Prog.behind front p) s) (init p s : Config Tid Op Ans α S) where
  shared := rfl
  calls := rfl
  passed := by
    intro i hi
    simp only [init, Prog.behind, hi]
  refused := by
    intro i a hi
    simp only [init, Prog.behind, hi]
    exact .waiting

/-- **A front end changes nothing behind it**: what can be reached with it can be reached without, but
for the tasks that it answers. -/
theorem Reach.behind {s : S} (h : Reach M (init (Prog.behind front p) s) c) :
    ∃ d, Reach M (init p s) d ∧ Stands front p c d := by
  refine h.inv (P := fun c => ∃ d, Reach M (init p s) d ∧ Stands front p c d)
    ⟨init p s, .refl, stands_init s⟩ ?_
  rintro c c' ⟨d, hd, hstands⟩ hst
  obtain ⟨d', hst', hstands'⟩ := hstands.step hst
  exact ⟨d', hd.tail hst', hstands'⟩

/-- **A task that the front end answers** makes no calls, and gets no other answer. -/
theorem Reach.refused {s : S} (h : Reach M (init (Prog.behind front p) s) c) {a : α}
    (hi : front i = some a) : c.callsOf i = [] ∧ ∀ b, c.Answered i b → b = a := by
  have hprog : Prog.behind front p i = .ret a := by
    simp only [Prog.behind, hi]
  obtain ⟨q, hruns, hq⟩ := h.exists_runs i
  rw [hprog] at hruns
  generalize c.callsOf i = t at hruns
  cases hruns with
  | refl =>
    refine ⟨rfl, fun b hb => ?_⟩
    cases hq b hb
    rfl

end Config

end Conc
