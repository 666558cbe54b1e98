/-
Module: Nfs4Compound.Proofs.TarRounds
Layer: Proofs
Purpose: The rules for scans over headers: a scan ends well if every header it reads lies behind the one
  before it, and no round writes outside its buffers; and what every round begins with.
Imports: Nfs4Compound.Tar.Ends
Trusted boundary: none
Main exports: Visits.invariant, endsWell_iff, endsWell_within_iff
-/
import Nfs4Compound.Tar.Ends

namespace Nfs4Compound.Tar

variable {σ : Type} {visit : σ → Visit σ} {start : σ} {blocks : Nat}

/-- What holds at the start, and is kept by every round that goes on, holds wherever a round begins. -/
theorem Visits.invariant (holds : σ → Prop) (initial : holds start)
    (kept : ∀ s p next, holds s → visit s = .more p next → holds next) {s : σ}
    (visited : Visits visit start s) : holds s := by
  induction visited with
  | start => exact initial
  | next _ round inductionHypothesis => exact kept _ _ _ inductionHypothesis round

/-! ### Scans that step forward -/

/-- In no visited state does a round end the scan without saying so, or step to a header that is not
    behind the one it read. -/
def StepsForward (visit : σ → Visit σ) (start : σ) : Prop :=
  ∀ s, Visits visit start s → (∀ e, (visit s).ending? = some e → e.Reported) ∧
    ∀ p next p', visit s = .more p next → (visit next).position? = some p' → p < p'

/-- Every header that is read lies on the device. -/
def InsideDevice (visit : σ → Visit σ) (start : σ) (blocks : Nat) : Prop :=
  ∀ s p, Visits visit start s → (visit s).position? = some p →
    ∃ b : Nat, p = 512 * (b : Int) ∧ b < blocks

/-- What remains of a run: it ends, with increasing positions, and no more of them than there are
    blocks from the next header on. -/
theorem run_ends (inside : InsideDevice visit start blocks) (forward : StepsForward visit start)
    (fuel : Nat) (s : σ) (visited : Visits visit start s)
    (enough : 0 < fuel ∧ ∀ b : Nat, (visit s).position? = some (512 * (b : Int)) → blocks < fuel + b) :
    (scan visit fuel s).2.Reported ∧
      (scan visit fuel s).1.Pairwise (· < ·) ∧ (scan visit fuel s).1.head? = (visit s).position? ∧
      ∀ b : Nat, (visit s).position? = some (512 * (b : Int)) →
        (scan visit fuel s).1.length + b ≤ blocks := by
  induction fuel generalizing s with
  | zero => exact absurd enough.1 (Nat.lt_irrefl 0)
  | succ fuel inductionHypothesis =>
      rw [scan]
      cases round : visit s with
      | unreadable e =>
          refine ⟨(forward s visited).1 e (by rw [round]; rfl), List.Pairwise.nil, rfl, ?_⟩
          intro b none
          cases none
      | last p e =>
          refine ⟨(forward s visited).1 e (by rw [round]; rfl), List.pairwise_singleton _ _, rfl, ?_⟩
          intro b position
          obtain ⟨b', same, less⟩ := inside s p visited (by rw [round]; rfl)
          have : p = 512 * (b : Int) := Option.some.inj position
          simp only [List.length_singleton]
          omega
      | more p next =>
          obtain ⟨b, rfl, less⟩ := inside s p visited (by rw [round]; rfl)
          have room := enough.2 b (by rw [round]; rfl)
          have further : ∀ b' : Nat, (visit next).position? = some (512 * (b' : Int)) → b < b' := by
            intro b' position
            have := (forward s visited).2 _ next _ round position
            omega
          obtain ⟨reported, increasing, head, short⟩ :=
            inductionHypothesis next (.next visited round) ⟨by omega, fun b' position => by
              have := further b' position
              omega⟩
          refine ⟨reported, ?_, rfl, ?_⟩
          · rw [List.pairwise_cons]
            refine ⟨?_, increasing⟩
            intro q member
            cases positions : (scan visit fuel next).1 with
            | nil => simp [positions] at member
            | cons p' rest =>
                rw [positions] at increasing member head
                have first := (forward s visited).2 _ next p' round head.symm
                rcases List.mem_cons.mp member with rfl | later
                · exact first
                · exact Int.lt_trans first ((List.pairwise_cons.mp increasing).1 q later)
          · intro b' position
            have same : 512 * (b : Int) = 512 * (b' : Int) := Option.some.inj position
            rw [List.length_cons]
            cases positions : (scan visit fuel next).1 with
            | nil =>
                simp only [List.length_nil]
                omega
            | cons p' rest =>
                rw [positions] at head short
                obtain ⟨b'', at'', _⟩ := inside next p' (.next visited round) head.symm
                have := further b'' (by rw [← head, at'']; rfl)
                have := short b'' (by rw [← head, at'']; rfl)
                omega

/-- Every visited state begins a part of the run. -/
theorem suffix_of_visits {fuel : Nat} (ended : (scan visit fuel start).2 ≠ .unfinished) {s : σ}
    (visited : Visits visit start s) :
    ∃ fuel', (scan visit fuel' s).2 = (scan visit fuel start).2 ∧
      (scan visit fuel' s).1 <:+ (scan visit fuel start).1 := by
  induction visited with
  | start => exact ⟨fuel, rfl, List.suffix_rfl⟩
  | @next s next p visited round inductionHypothesis =>
      obtain ⟨fuel', ending, suffix⟩ := inductionHypothesis
      cases fuel' with
      | zero =>
          rw [scan] at ending
          exact absurd ending.symm ended
      | succ fuel' =>
          rw [scan, round] at ending suffix
          exact ⟨fuel', ending, (List.suffix_cons _ _).trans suffix⟩

/-- A scan ends well exactly when it steps forward from every state. -/
theorem endsWell_iff (inside : InsideDevice visit start blocks) :
    EndsWell blocks (scan visit (blocks + 1) start) ↔ StepsForward visit start := by
  constructor
  · rintro ⟨_, increasing, reported⟩ s visited
    obtain ⟨fuel, ending, suffix⟩ := suffix_of_visits reported.2.2 visited
    cases fuel with
    | zero =>
        rw [scan] at ending
        exact absurd ending.symm reported.2.2
    | succ fuel =>
        rw [scan] at ending suffix
        constructor
        · intro e ends
          have same : e = (scan visit (blocks + 1) start).2 := by
            rw [← ending]
            cases round : visit s with
            | unreadable e' =>
                rw [round] at ends
                exact (Option.some.inj ends).symm
            | last p e' =>
                rw [round] at ends
                exact (Option.some.inj ends).symm
            | more p next =>
                rw [round] at ends
                cases ends
          rw [same]
          exact reported
        · intro p next p' round position
          rw [round] at ending suffix
          have part := increasing.sublist suffix.sublist
          cases fuel with
          | zero => exact absurd ending.symm reported.2.2
          | succ fuel =>
              apply (List.pairwise_cons.mp part).1
              rw [scan]
              cases follow : visit next with
              | unreadable e => simp [follow, Visit.position?] at position
              | last q e =>
                  rw [follow] at position
                  cases position
                  exact List.mem_singleton_self _
              | more q after =>
                  rw [follow] at position
                  cases position
                  exact List.mem_cons_self
  · intro forward
    obtain ⟨reported, increasing, head, short⟩ :=
      run_ends inside forward (blocks + 1) start .start ⟨by omega, fun b _ => by omega⟩
    refine ⟨?_, increasing, reported⟩
    cases positions : (scan visit (blocks + 1) start).1 with
    | nil => simp
    | cons p rest =>
        rw [positions] at head
        obtain ⟨b, rfl, _⟩ := inside start p .start head.symm
        have := short b head.symm
        rw [positions] at this
        omega

/-! ### Scans that stay inside their buffers -/

/-- In no visited state does a round that reads a header write outside its buffers. -/
def KeepsInside (visit : σ → Visit σ) (start : σ) (inside : σ → Bool) : Prop :=
  ∀ s, Visits visit start s → (visit s).position?.isSome → inside s

theorem position_within (round : Visit σ) (inside : Bool) :
    (round.within inside).position? = round.position? := by
  cases round with
  | unreadable e => rfl
  | last p e => rfl
  | more p next => cases inside <;> rfl

theorem more_of_within {round : Visit σ} {inside : Bool} {p : Int} {next : σ}
    (more : round.within inside = .more p next) : round = .more p next := by
  cases round with
  | unreadable e => cases more
  | last p e => cases more
  | more p' next' =>
      cases inside with
      | false => cases more
      | true => exact more

theorem within_of_inside {round : Visit σ} {inside : Bool} (keeps : round.position?.isSome → inside) :
    round.within inside = round := by
  cases round with
  | unreadable e => rfl
  | last p e => simp [Visit.within, keeps rfl]
  | more p next => simp [Visit.within, keeps rfl]

theorem ending_of_outside {round : Visit σ} {inside : Bool} (reads : round.position?.isSome)
    (outside : ¬inside) : (round.within inside).ending? = some .overrun := by
  rw [Bool.not_eq_true] at outside
  subst outside
  cases round with
  | unreadable e => cases reads
  | last p e => rfl
  | more p next => rfl

section Within

variable {inside : σ → Bool}

theorem visits_of_within {s : σ} (visited : Visits (fun s => (visit s).within (inside s)) start s) :
    Visits visit start s := by
  induction visited with
  | start => exact .start
  | next _ round inductionHypothesis => exact .next inductionHypothesis (more_of_within round)

/-- A scan that watches its buffers steps forward exactly when the one that does not does, and keeps
    inside them. -/
theorem stepsForward_within :
    StepsForward (fun s => (visit s).within (inside s)) start ↔
      StepsForward visit start ∧ KeepsInside visit start inside := by
  constructor
  · intro forward
    have keeps : ∀ s, Visits (fun s => (visit s).within (inside s)) start s →
        (visit s).position?.isSome → inside s := by
      intro s visited reads
      by_contra outside
      exact ((forward s visited).1 _ (ending_of_outside reads outside)).2.1 rfl
    have visits : ∀ s, Visits visit start s → Visits (fun s => (visit s).within (inside s)) start s := by
      intro s visited
      induction visited with
      | start => exact .start
      | @next s next p _ round inductionHypothesis =>
          refine .next (p := p) inductionHypothesis ?_
          rw [within_of_inside (keeps s inductionHypothesis), round]
    refine ⟨?_, fun s visited => keeps s (visits s visited)⟩
    intro s visited
    obtain ⟨reported, further⟩ := forward s (visits s visited)
    simp only [within_of_inside (keeps s (visits s visited)), position_within] at reported further
    exact ⟨reported, further⟩
  · rintro ⟨forward, keeps⟩ s visited
    obtain ⟨reported, further⟩ := forward s (visits_of_within visited)
    simp only [within_of_inside (keeps s (visits_of_within visited)), position_within]
    exact ⟨reported, further⟩

/-- It ends well under the same conditions. -/
theorem endsWell_within_iff (onDevice : InsideDevice visit start blocks) :
    EndsWell blocks (scan (fun s => (visit s).within (inside s)) (blocks + 1) start) ↔
      StepsForward visit start ∧ KeepsInside visit start inside := by
  have onDevice' : InsideDevice (fun s => (visit s).within (inside s)) start blocks := by
    intro s p visited position
    rw [position_within] at position
    exact onDevice s p (visits_of_within visited) position
  rw [endsWell_iff onDevice', stepsForward_within]

end Within

end Nfs4Compound.Tar
