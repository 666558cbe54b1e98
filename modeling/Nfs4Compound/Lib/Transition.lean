/-
Module: Nfs4Compound.Lib.Transition
Layer: Lib
Purpose: Runs of a labelled transition function whose steps all meet a guard on the state before the
  step and its label. The guard is how a development says "in every run in which the step that goes
  wrong is not taken"; the trivial guard gives back all runs.
Trusted boundary: none
Main exports: GuardedRun, GuardedRun.invariant, GuardedRun.replay, replayWith
-/
import Mathlib.Data.List.Basic

namespace Nfs4Compound.Transition

variable {σ l : Type*}

/-- The states reached from a start state by steps that each meet the guard `ok`. -/
inductive GuardedRun (step : σ → l → Option σ) (ok : σ → l → Prop) (start : σ) : σ → Prop where
  | refl : GuardedRun step ok start start
  | tail {s s' : σ} {a : l} (run : GuardedRun step ok start s) (guard : ok s a)
      (move : step s a = some s') : GuardedRun step ok start s'

/-- The guard that allows every step: runs under it are the runs of the system. -/
def anyStep : σ → l → Prop := fun _ _ => True

/-- The invariant rule: what holds at the start and is kept by every step that meets the guard holds
    in every state such a run reaches. -/
theorem GuardedRun.invariant {step : σ → l → Option σ} {ok : σ → l → Prop} {start s : σ}
    {holds : σ → Prop} (initial : holds start)
    (keeps : ∀ s a s', holds s → ok s a → step s a = some s' → holds s')
    (run : GuardedRun step ok start s) : holds s := by
  induction run with
  | refl => exact initial
  | tail _ guard move inductionHypothesis => exact keeps _ _ _ inductionHypothesis guard move

/-- Run a list of labels, with a decidable guard checked before every step. -/
def replayWith (step : σ → l → Option σ) (ok : σ → l → Bool) (s : σ) : List l → Option σ
  | [] => some s
  | a :: rest => if ok s a then (step s a).bind fun s' => replayWith step ok s' rest else none

/-- A label list that replays is a run. -/
theorem GuardedRun.replay {step : σ → l → Option σ} {ok : σ → l → Prop} {start : σ}
    (check : σ → l → Bool) (sound : ∀ s a, check s a = true → ok s a) :
    ∀ (labels : List l) {s s' : σ}, GuardedRun step ok start s →
      replayWith step check s labels = some s' → GuardedRun step ok start s'
  | [], s, s', run, replayed => by
      cases replayed
      exact run
  | a :: rest, s, s', run, replayed => by
      rw [replayWith] at replayed
      split at replayed
      · rename_i checked
        obtain ⟨middle, move, after⟩ := Option.bind_eq_some_iff.mp replayed
        exact GuardedRun.replay check sound rest (run.tail (sound s a checked) move) after
      · cases replayed

end Nfs4Compound.Transition
