/-
Module: Nfs4Compound.Lib.Prog
Layer: Lib
Purpose: Imperative programs over an explicit state that may stop with a fault and that report events
  on the way, and a weakest-precondition calculus for them.  How a proof uses an event is a parameter
  of the calculus: under a `contract` it is given one fact about every event and owes another, so one
  set of rules serves the proof of an invariant at every event and the proof of a result for runs
  whose events are all of some kind.
Trusted boundary: none
Main exports: Run, Prog, after, wp, wp_bind, wp_mono, wp_and, wp_state, contract, wp_contract, Yields,
  Returns, Stays
-/
import Mathlib.Data.List.Basic

namespace Nfs4Compound.Prog

/-- What a run leaves behind: its result, the state it stopped in, and the events it reported. -/
structure Run (ε σ ev α : Type) where
  result : Except ε α
  state : σ
  events : List ev

end Nfs4Compound.Prog

namespace Nfs4Compound

open Prog (Run)

/-- A program stops with a fault or returns a value; state and events are kept in both cases. -/
def Prog (ε σ ev α : Type) := σ → Run ε σ ev α

namespace Prog

variable {ε σ ev α β : Type}

/-- A program continued by another one. -/
def andThen (x : Prog ε σ ev α) (f : α → Prog ε σ ev β) : Prog ε σ ev β := fun s =>
  match x s with
  | ⟨.error fault, s', events⟩ => ⟨.error fault, s', events⟩
  | ⟨.ok value, s', events⟩ =>
      let rest := f value s'
      ⟨rest.result, rest.state, events ++ rest.events⟩

instance : Monad (Prog ε σ ev) where
  pure value := fun s => ⟨.ok value, s, []⟩
  bind := andThen

/-- The current state. -/
def read : Prog ε σ ev σ := fun s => ⟨.ok s, s, []⟩

/-- Change the state. -/
def update (f : σ → σ) : Prog ε σ ev Unit := fun s => ⟨.ok (), f s, []⟩

/-- Stop. -/
def fault (cause : ε) : Prog ε σ ev α := fun s => ⟨.error cause, s, []⟩

/-- Report an event. -/
def report (event : ev) : Prog ε σ ev Unit := fun s => ⟨.ok (), s, [event]⟩

/-- A total operation on the part of the state that `get` and `put` select. -/
def zoom {τ : Type} (get : σ → τ) (put : τ → σ → σ) (op : StateM τ α) : Prog ε σ ev α := fun s =>
  ⟨.ok (op (get s)).1, put (op (get s)).2 s, []⟩

/-- Two programs that do the same in a state, continued in the same way. -/
theorem bind_congr_at {x y : Prog ε σ ev α} {f g : α → Prog ε σ ev β} {s : σ} (same : x s = y s)
    (after : f = g) : (x >>= f) s = (y >>= g) s := by
  subst after
  change andThen x f s = andThen y f s
  rw [andThen, andThen, same]

/-- A program that returned, continued. -/
theorem bind_ok_at {x : Prog ε σ ev α} {f : α → Prog ε σ ev β} {s s' : σ} {value : α} {events : List ev}
    (ran : x s = ⟨.ok value, s', events⟩) :
    (x >>= f) s = ⟨(f value s').result, (f value s').state, events ++ (f value s').events⟩ := by
  change andThen x f s = _
  rw [andThen, ran]

/-- A continued program has stopped in its first part, or has gone on from there. -/
theorem bind_cases (x : Prog ε σ ev α) (f : α → Prog ε σ ev β) (s : σ) :
    (∃ fault, (x s).result = .error fault ∧ (x >>= f) s = ⟨.error fault, (x s).state, (x s).events⟩) ∨
      ∃ value, (x s).result = .ok value ∧
        (x >>= f) s = ⟨(f value (x s).state).result, (f value (x s).state).state,
          (x s).events ++ (f value (x s).state).events⟩ := by
  change (∃ fault, _ ∧ andThen x f s = _) ∨ ∃ value, _ ∧ andThen x f s = _
  rcases run : x s with ⟨result, s', events⟩
  cases result with
  | error fault => exact .inl ⟨fault, rfl, by simp only [andThen, run]⟩
  | ok value => exact .inr ⟨value, rfl, by simp only [andThen, run]⟩

/-- A continued program has returned: so has its first part. -/
theorem bind_returned {x : Prog ε σ ev α} {f : α → Prog ε σ ev β} {s : σ} {value : β}
    (returned : ((x >>= f) s).result = .ok value) :
    ∃ first, (x s).result = .ok first ∧ (f first (x s).state).result = .ok value ∧
      ((x >>= f) s).events = (x s).events ++ (f first (x s).state).events := by
  rcases bind_cases x f s with ⟨fault, -, run⟩ | ⟨first, ended, run⟩
  · rw [run] at returned
    cases returned
  · rw [run] at returned ⊢
    exact ⟨first, ended, returned, rfl⟩

/-- What is made of a result reports nothing. -/
theorem events_bind_pure (x : Prog ε σ ev α) (f : α → β) (s : σ) :
    ((x >>= fun value => pure (f value)) s).events = (x s).events := by
  change (andThen x (fun value => pure (f value)) s).events = _
  rcases run : x s with ⟨result, s', events⟩
  cases result with
  | error fault => simp only [andThen, run]
  | ok value =>
      simp only [andThen, run]
      exact List.append_nil _

/-! ### Total operations -/

section Total

variable {τ : Type} {t : τ}

/-- `op`, started in `t`, ends with `post`. -/
def after (op : StateM τ α) (post : α → τ → Prop) (t : τ) : Prop := post (op t).1 (op t).2

@[simp] theorem after_pure (value : α) (post : α → τ → Prop) :
    after (pure value : StateM τ α) post t ↔ post value t := Iff.rfl

@[simp] theorem after_bind (op : StateM τ α) (f : α → StateM τ β) (post : β → τ → Prop) :
    after (op >>= f) post t ↔ after op (fun value t' => after (f value) post t') t := Iff.rfl

@[simp] theorem after_map (f : α → β) (op : StateM τ α) (post : β → τ → Prop) :
    after (f <$> op) post t ↔ after op (fun value t' => post (f value) t') t := Iff.rfl

@[simp] theorem after_get (post : τ → τ → Prop) : after (get : StateM τ τ) post t ↔ post t t := Iff.rfl

@[simp] theorem after_set (t' : τ) (post : PUnit → τ → Prop) :
    after (set t' : StateM τ PUnit) post t ↔ post ⟨⟩ t' := Iff.rfl

@[simp] theorem after_modify (f : τ → τ) (post : PUnit → τ → Prop) :
    after (modify f : StateM τ PUnit) post t ↔ post ⟨⟩ (f t) := Iff.rfl

@[simp] theorem after_ite (condition : Prop) [Decidable condition] (x y : StateM τ α)
    (post : α → τ → Prop) :
    after (if condition then x else y) post t ↔
      (condition → after x post t) ∧ (¬condition → after y post t) := by
  by_cases holds : condition <;> simp [holds]

theorem after_mono {op : StateM τ α} {post post' : α → τ → Prop} (called : after op post t)
    (implies : ∀ value t', post value t' → post' value t') : after op post' t :=
  implies _ _ called

end Total

/-! ### The calculus -/

/-- `x`, started in `s`, ends with `post` or with an allowed fault; `use event claim` is what the proof
    has to show of a run that reports `event` and then has to show `claim`. -/
def wp (use : ev → Prop → Prop) (faults : ε → σ → Prop) (x : Prog ε σ ev α) (post : α → σ → Prop)
    (s : σ) : Prop :=
  (x s).events.foldr use
    (match (x s).result with
      | .ok value => post value (x s).state
      | .error fault => faults fault (x s).state)

/-- The proof is given `benign` of every event, and owes `good` of it. -/
def contract (benign good : ev → Prop) : ev → Prop → Prop := fun event claim =>
  benign event → good event ∧ claim

variable {use : ev → Prop → Prop} {faults : ε → σ → Prop} {s : σ}

@[simp] theorem wp_pure (value : α) (post : α → σ → Prop) :
    wp use faults (pure value : Prog ε σ ev α) post s ↔ post value s := Iff.rfl

@[simp] theorem wp_read (post : σ → σ → Prop) :
    wp use faults (read : Prog ε σ ev σ) post s ↔ post s s := Iff.rfl

@[simp] theorem wp_update (f : σ → σ) (post : Unit → σ → Prop) :
    wp use faults (update f : Prog ε σ ev Unit) post s ↔ post () (f s) := Iff.rfl

@[simp] theorem wp_fault (cause : ε) (post : α → σ → Prop) :
    wp use faults (fault cause : Prog ε σ ev α) post s ↔ faults cause s := Iff.rfl

@[simp] theorem wp_report (event : ev) (post : Unit → σ → Prop) :
    wp use faults (report event : Prog ε σ ev Unit) post s ↔ use event (post () s) := Iff.rfl

@[simp] theorem wp_zoom {τ : Type} (get : σ → τ) (put : τ → σ → σ) (op : StateM τ α)
    (post : α → σ → Prop) :
    wp use faults (zoom get put op : Prog ε σ ev α) post s ↔
      after op (fun value t => post value (put t s)) (get s) := Iff.rfl

@[simp] theorem wp_bind (x : Prog ε σ ev α) (f : α → Prog ε σ ev β) (post : β → σ → Prop) :
    wp use faults (x >>= f) post s ↔
      wp use faults x (fun value s' => wp use faults (f value) post s') s := by
  have unfolded : (x >>= f) s = andThen x f s := rfl
  rcases run : x s with ⟨result, s', events⟩
  cases result with
  | error fault => simp [wp, unfolded, andThen, run]
  | ok value => simp [wp, unfolded, andThen, run, List.foldr_append]

@[simp] theorem wp_ite (condition : Prop) [Decidable condition] (x y : Prog ε σ ev α)
    (post : α → σ → Prop) :
    wp use faults (if condition then x else y) post s ↔
      (condition → wp use faults x post s) ∧ (¬condition → wp use faults y post s) := by
  by_cases holds : condition <;> simp [holds]

/-- An event is used monotonically. -/
def Monotone (use : ev → Prop → Prop) : Prop :=
  ∀ event (claim claim' : Prop), (claim → claim') → use event claim → use event claim'

theorem monotone_contract (benign good : ev → Prop) : Monotone (contract benign good) :=
  fun _ _ _ implies used holds => ⟨(used holds).1, implies (used holds).2⟩

theorem foldr_mono (monotone : Monotone use) {claim claim' : Prop} (implies : claim → claim')
    (events : List ev) (used : events.foldr use claim) : events.foldr use claim' := by
  induction events with
  | nil => exact implies used
  | cons event rest inductionHypothesis => exact monotone _ _ _ inductionHypothesis used

/-- The rule of consequence: a function's own statement is used where it is called. -/
theorem wp_mono (monotone : Monotone use) {x : Prog ε σ ev α} {post post' : α → σ → Prop}
    (called : wp use faults x post s) (implies : ∀ value s', post value s' → post' value s') :
    wp use faults x post' s := by
  apply foldr_mono monotone _ _ called
  intro ended
  cases result : (x s).result with
  | error fault => simpa [result] using ended
  | ok value =>
      simp only [result] at ended ⊢
      exact implies _ _ ended

/-- A statement about a program may mention the run itself. -/
theorem wp_final {x : Prog ε σ ev α} {post : α → σ → Prop} (shown : wp use faults x post s) :
    wp use faults x (fun value s' => post value s' ∧ (x s).state = s' ∧ (x s).result = .ok value) s := by
  unfold wp at shown ⊢
  cases result : (x s).result with
  | error fault => simpa [result] using shown
  | ok value => simpa [result] using shown

/-- Two statements about one program. -/
theorem wp_and {benign good : ev → Prop} {x : Prog ε σ ev α} {first second : α → σ → Prop}
    (one : wp (contract benign good) faults x first s) (other : wp (contract benign good) faults x second s) :
    wp (contract benign good) faults x (fun value s' => first value s' ∧ second value s') s := by
  unfold wp at one other ⊢
  generalize (x s).events = events at one other ⊢
  induction events with
  | nil =>
      cases result : (x s).result with
      | error fault => simpa [result] using one
      | ok value =>
          simp only [result, List.foldr_nil] at one other ⊢
          exact ⟨one, other⟩
  | cons event rest inductionHypothesis =>
      intro holds
      exact ⟨(one holds).1, inductionHypothesis (one holds).2 (other holds).2⟩

/-- Where events are not looked at, a statement about a program is one about its result and state. -/
theorem wp_silent (x : Prog ε σ ev α) (post : α → σ → Prop) :
    wp (fun _ claim => claim) faults x post s ↔
      match (x s).result with
      | .ok value => post value (x s).state
      | .error fault => faults fault (x s).state := by
  unfold wp
  have silent : ∀ (events : List ev) (claim : Prop), events.foldr (fun _ claim => claim) claim = claim := by
    intro events claim
    induction events with
    | nil => rfl
    | cons event rest inductionHypothesis => exact inductionHypothesis
  rw [silent]

/-- The result of a run and the state it stops in, whatever it reports. -/
theorem wp_run (x : Prog ε σ ev α) (post : Except ε α → σ → Prop) :
    wp (fun _ claim => claim) (fun fault => post (.error fault)) x (fun value => post (.ok value)) s ↔
      post (x s).result (x s).state := by
  rw [wp_silent]
  cases (x s).result with
  | ok value => rfl
  | error fault => rfl

/-- The state a run stops in, whether with a value or with a fault. -/
theorem wp_state (x : Prog ε σ ev α) (post : σ → Prop) :
    wp (fun _ claim => claim) (fun _ => post) x (fun _ => post) s ↔ post (x s).state :=
  wp_run x fun _ => post

/-- What a proof under a contract has shown of a run whose events are all benign. -/
theorem wp_contract {benign good : ev → Prop} {x : Prog ε σ ev α} {post : α → σ → Prop}
    (shown : wp (contract benign good) faults x post s)
    (events : ∀ event ∈ (x s).events, benign event) :
    (∀ event ∈ (x s).events, good event) ∧
      match (x s).result with
      | .ok value => post value (x s).state
      | .error fault => faults fault (x s).state := by
  unfold wp at shown
  generalize (x s).events = reported at shown events ⊢
  induction reported with
  | nil => exact ⟨by simp, shown⟩
  | cons event rest inductionHypothesis =>
      obtain ⟨goodEvent, shownRest⟩ := shown (events event (by simp))
      obtain ⟨goodRest, ended⟩ := inductionHypothesis shownRest
        fun other member => events other (List.mem_cons_of_mem _ member)
      refine ⟨?_, ended⟩
      intro other member
      rcases List.mem_cons.mp member with rfl | member
      · exact goodEvent
      · exact goodRest other member

/-! ### Returned values -/

/-- If `x` returns at all, then with `post`. -/
def Yields (x : Prog ε σ ev α) (post : α → σ → Prop) (s : σ) : Prop :=
  wp (fun _ claim => claim) (fun _ _ => True) x post s

theorem yields_iff {x : Prog ε σ ev α} {post : α → σ → Prop} :
    Yields x post s ↔ ∀ value, (x s).result = .ok value → post value (x s).state := by
  unfold Yields
  rw [wp_silent]
  cases (x s).result with
  | error fault => simp
  | ok value => simp

theorem Yields.mono {x : Prog ε σ ev α} {post post' : α → σ → Prop} (called : Yields x post s)
    (implies : ∀ value s', post value s' → post' value s') : Yields x post' s :=
  wp_mono (fun _ _ _ implies => implies) called implies

theorem Yields.and {x : Prog ε σ ev α} {first second : α → σ → Prop} (one : Yields x first s)
    (other : Yields x second s) : Yields x (fun value s' => first value s' ∧ second value s') s :=
  yields_iff.mpr fun value returned =>
    ⟨yields_iff.mp one value returned, yields_iff.mp other value returned⟩

theorem yields_true {x : Prog ε σ ev α} : Yields x (fun _ _ => True) s :=
  yields_iff.mpr fun _ _ => trivial

/-- `x` returns, with `post`. -/
def Returns (x : Prog ε σ ev α) (post : α → σ → Prop) (s : σ) : Prop :=
  wp (fun _ claim => claim) (fun _ _ => False) x post s

theorem returns_iff {x : Prog ε σ ev α} {post : α → σ → Prop} :
    Returns x post s ↔ ∃ value, (x s).result = .ok value ∧ post value (x s).state := by
  unfold Returns
  rw [wp_silent]
  cases (x s).result with
  | error fault => simp
  | ok value => simp

theorem Returns.mono {x : Prog ε σ ev α} {post post' : α → σ → Prop} (called : Returns x post s)
    (implies : ∀ value s', post value s' → post' value s') : Returns x post' s :=
  wp_mono (fun _ _ _ implies => implies) called implies

/-- What follows a program that returns stops, and so does the whole. -/
theorem Returns.stops {x : Prog ε σ ev α} {f : α → Prog ε σ ev β} {post : α → σ → Prop} {cause : ε}
    (returns : Returns x post s) (stops : ∀ value s', post value s' → (f value s').result = .error cause) :
    ((x >>= f) s).result = .error cause := by
  obtain ⟨value, returned, holds⟩ := returns_iff.mp returns
  rcases bind_cases x f s with ⟨fault, stopped, -⟩ | ⟨first, ended, run⟩
  · rw [returned] at stopped
    cases stopped
  · rw [returned] at ended
    cases ended
    rw [run]
    exact stops value _ holds

/-- What follows a program that stops is not run. -/
theorem stops_bind {x : Prog ε σ ev α} (f : α → Prog ε σ ev β) {cause : ε}
    (stops : (x s).result = .error cause) : ((x >>= f) s).result = .error cause := by
  rcases bind_cases x f s with ⟨fault, stopped, run⟩ | ⟨first, ended, -⟩
  · rw [stops] at stopped
    cases stopped
    rw [run]
  · rw [stops] at ended
    cases ended

/-! ### Frames -/

/-- However a run ends, its last state is related to its first, and it reports events of one kind only. -/
def Stays (related : σ → σ → Prop) (kind : ev → Prop) (x : Prog ε σ ev α) : Prop :=
  ∀ s, related s (x s).state ∧ ∀ event ∈ (x s).events, kind event

section Frames

variable {related : σ → σ → Prop} {kind : ev → Prop} {x : Prog ε σ ev α} {f : α → Prog ε σ ev β}

theorem stays_bind (trans : ∀ s₁ s₂ s₃, related s₁ s₂ → related s₂ s₃ → related s₁ s₃)
    (first : Stays related kind x) (rest : ∀ value, Stays related kind (f value)) :
    Stays related kind (x >>= f) := by
  intro s
  change related s (andThen x f s).state ∧ ∀ event ∈ (andThen x f s).events, kind event
  obtain ⟨near, reported⟩ := first s
  rcases run : x s with ⟨result, s', events⟩
  rw [run] at near reported
  cases result with
  | error fault =>
      simp only [andThen, run]
      exact ⟨near, reported⟩
  | ok value =>
      simp only [andThen, run]
      obtain ⟨further, more⟩ := rest value s'
      constructor
      · exact trans _ _ _ near further
      · intro event member
        rcases List.mem_append.mp member with before | behind
        · exact reported event before
        · exact more event behind

/-- A program without events that changes the state by a function. -/
theorem stays_of_silent (change : ∀ s, related s (x s).state) (silent : ∀ s, (x s).events = []) :
    Stays related kind x := by
  intro s
  refine ⟨change s, ?_⟩
  rw [silent s]
  intro _ member
  cases member

/-- A frame as a statement about what a program returns. -/
theorem Stays.yields (stays : Stays related kind x) : Yields x (fun _ => related s) s := by
  rw [yields_iff]
  intro value _
  exact (stays s).1

end Frames

end Prog

end Nfs4Compound
