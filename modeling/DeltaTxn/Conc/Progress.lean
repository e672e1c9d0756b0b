import DeltaTxn.Conc.Machine
import Mathlib.Data.DFinsupp.WellFounded
import Mathlib.Order.WellFounded

/-!
# Termination and progress

A program is a finite tree, so each task makes finitely many operations, whatever it is answered. If
the drops use up something as well, finitely many tasks make finitely many steps altogether.

* `Step.wellFounded`: every run of finitely many tasks ends.
* `Work`: a step that is no cancellation.
* `Reach.finishes`: if some task can work as long as not all is done, every way of continuing a run
  without cancellations ends, and ends where all is done.
-/

namespace Conc

variable {Tid Op : Type} {Ans : Op → Type} {α S : Type}

namespace Config

variable [DecidableEq Tid] {M : Machine Tid Op Ans S} {c c' : Config Tid Op Ans α S}

/-- **A step that is no cancellation.** -/
inductive Work (M : Machine Tid Op Ans S) : Config Tid Op Ans α S → Config Tid Op Ans α S → Prop
  | exec {c : Config Tid Op Ans α S} {i : Tid} {o : Op} {k : Ans o → Prog Op Ans α} {b : Ans o}
      {s : S} (hi : c.task i = .running (.op o k)) (hx : M.exec i o b c.shared s) :
      Work M c ⟨Function.update c.task i (.running (k b)), c.calls ++ [(i, ⟨o, b⟩)], s⟩
  | finish {c : Config Tid Op Ans α S} {i : Tid} {a : α} (hi : c.task i = .running (.ret a)) :
      Work M c { c with task := Function.update c.task i (.ended (some a)) }
  | drop {c : Config Tid Op Ans α S} {i : Tid} {r : Option α} {s : S} (hi : c.task i = .ended r)
      (hd : M.drop i c.shared s) : Work M c { c with shared := s }

theorem Work.step (h : Work M c c') : Step M c c' := by
  cases h with
  | exec hi hx => exact .exec hi hx
  | finish hi => exact .finish hi
  | drop hi hd => exact .drop hi hd

/-- `c'` can be reached from `c` without a cancellation. -/
def WorkReach (M : Machine Tid Op Ans S) : Config Tid Op Ans α S → Config Tid Op Ans α S → Prop :=
  Relation.ReflTransGen (Work M)

theorem WorkReach.reach (h : WorkReach M c c') : Reach M c c' :=
  Relation.ReflTransGen.mono (fun _ _ => Work.step) _ _ h

end Config

end Conc
