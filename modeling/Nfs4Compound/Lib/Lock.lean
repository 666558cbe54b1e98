/-
Module: Nfs4Compound.Lib.Lock
Layer: Lib
Purpose: A lock and the calls of a system: the lock names the one call that is at a point between taking
  and releasing it.  What a call's step to another point means for that.
Trusted boundary: none
Main exports: Held, Held.keep, Held.take, Held.release, Held.begin, Held.unique, getElem?_set_of_some
-/
import Mathlib.Data.List.Basic

namespace Nfs4Compound

variable {α : Type*}

/-- A list at one place of which something else is put. -/
theorem getElem?_set_of_some {members : List α} {i : Nat} {old : α} (new : α)
    (here : members[i]? = some old) (j : Nat) :
    (members.set i new)[j]? = if j = i then some new else members[j]? := by
  have inside : i < members.length := (List.getElem?_eq_some_iff.mp here).1
  rw [List.getElem?_set]
  by_cases same : j = i
  · rw [if_pos same.symm, if_pos same, if_pos inside]
  · rw [if_neg (Ne.symm same), if_neg same]

/-- The lock is held by the call that is at a point with it. -/
def Held (withLock : α → Prop) (lock : Option Nat) (calls : List α) : Prop :=
  ∀ call, lock = some call ↔ ∃ point, calls[call]? = some point ∧ withLock point

namespace Held

variable {withLock : α → Prop} {lock : Option Nat} {calls : List α} {call : Nat} {point point' : α}

/-- At most one call is at such a point. -/
theorem unique (held : Held withLock lock calls) {other : Nat} {there : α}
    (here : calls[call]? = some point) (has : withLock point) (elsewhere : calls[other]? = some there)
    (hasToo : withLock there) : other = call := by
  have one := (held call).mpr ⟨point, here, has⟩
  have two := (held other).mpr ⟨there, elsewhere, hasToo⟩
  exact Option.some.inj (two.symm.trans one)

/-- A step that has nothing to do with the lock. -/
theorem keep (held : Held withLock lock calls) (here : calls[call]? = some point)
    (same : withLock point' ↔ withLock point) : Held withLock lock (calls.set call point') := by
  intro other
  rw [held other]
  simp only [getElem?_set_of_some point' here]
  by_cases this : other = call
  · subst this
    simp only [if_pos, Option.some.injEq, exists_eq_left', here, same]
  · simp only [if_neg this]

/-- The lock is taken. -/
theorem take (held : Held withLock none calls) (here : calls[call]? = some point) (has : withLock point') :
    Held withLock (some call) (calls.set call point') := by
  intro other
  simp only [getElem?_set_of_some point' here]
  by_cases this : other = call
  · subst this
    simp [has]
  · have nobody := held other
    simp only [reduceCtorEq, false_iff] at nobody
    simp only [if_neg this, nobody, iff_false, Option.some.injEq]
    exact fun same => this same.symm

/-- The lock is released. -/
theorem release (held : Held withLock lock calls) (here : calls[call]? = some point) (has : withLock point)
    (hasNot : ¬withLock point') : Held withLock none (calls.set call point') := by
  intro other
  simp only [getElem?_set_of_some point' here, reduceCtorEq, false_iff]
  rintro ⟨there, found, hasToo⟩
  split at found
  · cases found
    exact hasNot hasToo
  · rename_i different
    exact different (held.unique here has found hasToo)

/-- A new call comes. -/
theorem begin (held : Held withLock lock calls) (hasNot : ¬withLock point) :
    Held withLock lock (calls ++ [point]) := by
  intro other
  rw [held other]
  constructor
  · rintro ⟨there, found, has⟩
    have inside : other < calls.length := (List.getElem?_eq_some_iff.mp found).1
    exact ⟨there, by rw [List.getElem?_append_left inside, found], has⟩
  · rintro ⟨there, found, has⟩
    rw [List.getElem?_append] at found
    split at found
    · exact ⟨there, found, has⟩
    · have last : there ∈ [point] := List.mem_of_getElem? found
      rw [List.mem_singleton] at last
      subst last
      exact absurd has hasNot

end Held

end Nfs4Compound
