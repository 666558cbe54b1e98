/-
Module: Nfs4Compound.Lib.Ghost
Layer: Lib
Purpose: Programs over a state with an additional part.  A program of the smaller state runs in the
  larger one without touching the addition; a program of the larger state forgets to one of the smaller
  if the addition never decides what it does.
Imports: Nfs4Compound.Lib.Prog
Trusted boundary: none
Main exports: withGhost, updateGhost, Forgets, forgets_bind, wp_withGhost, wp_updateGhost
-/
import Nfs4Compound.Lib.Prog

namespace Nfs4Compound.Prog

variable {ε σ τ ev α β : Type}

/-- Run a program on the first part of the state. -/
def withGhost (x : Prog ε σ ev α) : Prog ε (σ × τ) ev α := fun s =>
  ⟨(x s.1).result, ((x s.1).state, s.2), (x s.1).events⟩

/-- Change the additional part. -/
def updateGhost (f : τ → τ) : Prog ε (σ × τ) ev Unit := update fun s => (s.1, f s.2)

/-- Whatever the additional part is, `x` does what `y` does with the rest. -/
def Forgets (x : Prog ε (σ × τ) ev α) (y : Prog ε σ ev α) : Prop :=
  ∀ s t, (x (s, t)).result = (y s).result ∧ (x (s, t)).state.1 = (y s).state ∧
    (x (s, t)).events = (y s).events

theorem forgets_pure (value : α) :
    Forgets (pure value : Prog ε (σ × τ) ev α) (pure value : Prog ε σ ev α) :=
  fun _ _ => ⟨rfl, rfl, rfl⟩

theorem forgets_withGhost (x : Prog ε σ ev α) : Forgets (withGhost x : Prog ε (σ × τ) ev α) x :=
  fun _ _ => ⟨rfl, rfl, rfl⟩

theorem forgets_bind {x : Prog ε (σ × τ) ev α} {y : Prog ε σ ev α} {f : α → Prog ε (σ × τ) ev β}
    {g : α → Prog ε σ ev β} (first : Forgets x y) (then_ : ∀ value, Forgets (f value) (g value)) :
    Forgets (x >>= f) (y >>= g) := by
  intro s t
  obtain ⟨result, state, events⟩ := first s t
  rcases bind_cases x f (s, t) with ⟨fault, ended, run⟩ | ⟨value, ended, run⟩
  · rcases bind_cases y g s with ⟨fault', ended', run'⟩ | ⟨value', ended', run'⟩
    · rw [run, run']
      rw [ended, ended'] at result
      cases result
      exact ⟨rfl, state, events⟩
    · rw [ended, ended'] at result
      cases result
  · rcases bind_cases y g s with ⟨fault', ended', run'⟩ | ⟨value', ended', run'⟩
    · rw [ended, ended'] at result
      cases result
    · rw [ended, ended'] at result
      cases result
      obtain ⟨result', state', events'⟩ := then_ value (x (s, t)).state.1 (x (s, t)).state.2
      rw [run, run', ← state]
      exact ⟨result', state', by rw [events, events']⟩

/-- What only changes the additional part is forgotten. -/
theorem forgets_updateGhost_bind {f : τ → τ} {x : Unit → Prog ε (σ × τ) ev α} {y : Prog ε σ ev α}
    (rest : Forgets (x ()) y) : Forgets (updateGhost f >>= x) y := by
  intro s t
  have unfolded : (updateGhost f >>= x) (s, t) = x () (s, f t) := rfl
  rw [unfolded]
  exact rest s (f t)

/-! ### The calculus -/

section Calculus

variable {use : ev → Prop → Prop} {faults : ε → σ × τ → Prop} {s : σ × τ}

@[simp] theorem wp_withGhost (x : Prog ε σ ev α) (post : α → σ × τ → Prop) :
    wp use faults (withGhost x) post s ↔
      wp use (fun fault s' => faults fault (s', s.2)) x (fun value s' => post value (s', s.2)) s.1 :=
  Iff.rfl

@[simp] theorem wp_updateGhost (f : τ → τ) (post : Unit → σ × τ → Prop) :
    wp use faults (updateGhost f : Prog ε (σ × τ) ev Unit) post s ↔ post () (s.1, f s.2) := Iff.rfl

end Calculus

end Nfs4Compound.Prog
