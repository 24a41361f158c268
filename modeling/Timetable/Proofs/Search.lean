import Timetable.Search

/-!
# What a bounded search finds

`walk` gives the candidate a number of steps from the first.  A search is
settled at a candidate if all candidates before were passed over and this one
is accepted, ends the search, or fails to be judged or to be stepped from; the
budget is exhausted if as many candidates as allowed were passed over and the
step after the last of them was taken.  `seek_eq_iff` says that nothing else
happens, and that a search is settled at a candidate of its budget only.
-/

namespace Timetable

variable {α ε : Type}

/-- The candidate a number of steps from the first. -/
def walk (step : α → Except ε α) (first : α) : Nat → Except ε α
  | 0 => .ok first
  | count + 1 =>
      match walk step first count with
      | .error fault => .error fault
      | .ok candidate => step candidate

variable {judge : α → Except ε Verdict} {step : α → Except ε α}

@[simp]
theorem walk_zero (first : α) : walk step first 0 = .ok first :=
  rfl

theorem walk_succ {first candidate : α} {count : Nat}
    (reached : walk step first count = .ok candidate) :
    walk step first (count + 1) = step candidate := by
  simp only [walk, reached]

theorem walk_succ_eq_ok_iff {first next : α} {count : Nat} :
    walk step first (count + 1) = .ok next ↔
      ∃ candidate, walk step first count = .ok candidate ∧
        step candidate = .ok next := by
  cases reached : walk step first count with
  | error fault => simp [walk, reached]
  | ok candidate => simp [walk, reached]

/-- A walk passes every candidate on its way. -/
theorem walk_of_le {first last : α} {count index : Nat}
    (reached : walk step first count = .ok last) (earlier : index ≤ count) :
    ∃ candidate, walk step first index = .ok candidate := by
  induction earlier generalizing last with
  | refl => exact ⟨last, reached⟩
  | step _ induction =>
      rcases walk_succ_eq_ok_iff.mp reached with ⟨before, beforeReached, -⟩
      exact induction beforeReached

/-- A walk goes on from a candidate as if it had begun there. -/
theorem walk_add {first candidate : α} {count : Nat}
    (reached : walk step first count = .ok candidate) (more : Nat) :
    walk step first (count + more) = walk step candidate more := by
  induction more with
  | zero => exact reached
  | succ more induction =>
      rw [← Nat.add_assoc, walk, induction]
      rfl

/-- What every step preserves holds of every candidate. -/
theorem walk_invariant {holds : α → Prop}
    (preserved : ∀ {candidate next},
      step candidate = .ok next → holds candidate → holds next)
    {first candidate : α} {count : Nat}
    (reached : walk step first count = .ok candidate) (begun : holds first) :
    holds candidate := by
  induction count generalizing candidate with
  | zero =>
      cases reached
      exact begun
  | succ count induction =>
      rcases walk_succ_eq_ok_iff.mp reached with
        ⟨before, beforeReached, stepped⟩
      exact preserved stepped (induction beforeReached)

/-- What every step does, several steps do if it is transitive. -/
theorem walk_related {related : α → α → Prop}
    (trans : ∀ {first second third},
      related first second → related second third → related first third)
    (advances : ∀ {candidate next},
      step candidate = .ok next → related candidate next)
    {first earlier later : α} {index further : Nat}
    (reached : walk step first index = .ok earlier)
    (onward : walk step first further = .ok later)
    (ordered : index < further) : related earlier later := by
  induction ordered generalizing later with
  | refl =>
      rw [walk_succ reached] at onward
      exact advances onward
  | step _ induction =>
      rcases walk_succ_eq_ok_iff.mp onward with
        ⟨before, beforeReached, stepped⟩
      exact trans (induction beforeReached) (advances stepped)

/-- The first `count` candidates exist and are passed over. -/
def Passes (judge : α → Except ε Verdict) (step : α → Except ε α)
    (first : α) (count : Nat) : Prop :=
  ∀ index < count,
    ∃ candidate, walk step first index = .ok candidate ∧
      judge candidate = .ok .pass

theorem Passes.of_le {first : α} {count less : Nat}
    (passes : Passes judge step first count) (smaller : less ≤ count) :
    Passes judge step first less := by
  intro index inside
  exact passes index (Nat.lt_of_lt_of_le inside smaller)

theorem passes_zero (first : α) : Passes judge step first 0 := by
  intro index inside
  exact absurd inside (Nat.not_lt_zero index)

theorem passes_succ {first candidate : α} {count : Nat}
    (passes : Passes judge step first count)
    (reached : walk step first count = .ok candidate)
    (pass : judge candidate = .ok .pass) :
    Passes judge step first (count + 1) := by
  intro index inside
  rcases Nat.lt_succ_iff_lt_or_eq.mp inside with earlier | rfl
  · exact passes index earlier
  · exact ⟨candidate, reached, pass⟩

/-- What a search comes to at a candidate that it does not get past. -/
inductive Settles (judge : α → Except ε Verdict) (step : α → Except ε α)
    (candidate : α) : Except ε (Finding α) → Prop where
  | accepted (verdict : judge candidate = .ok .accept) :
      Settles judge step candidate (.ok (.found candidate))
  | stopped (verdict : judge candidate = .ok .stop) :
      Settles judge step candidate (.ok .ended)
  | unjudged {fault : ε} (verdict : judge candidate = .error fault) :
      Settles judge step candidate (.error fault)
  | astray {fault : ε} (verdict : judge candidate = .ok .pass)
      (left : step candidate = .error fault) :
      Settles judge step candidate (.error fault)

/-- The candidates that are passed over do not count for the outcome. -/
theorem seek_skip {first candidate : α} {count : Nat} (budget : Nat)
    (passes : Passes judge step first count)
    (reached : walk step first count = .ok candidate) :
    seek judge step (count + budget) first =
      seek judge step budget candidate := by
  induction count generalizing candidate budget with
  | zero =>
      cases reached
      rw [Nat.zero_add]
  | succ count induction =>
      rcases walk_succ_eq_ok_iff.mp reached with
        ⟨before, beforeReached, stepped⟩
      rcases passes count (Nat.lt_succ_self _) with ⟨same, sameReached, pass⟩
      rw [beforeReached] at sameReached
      cases sameReached
      rw [Nat.add_assoc, Nat.add_comm 1 budget,
        induction (budget + 1) (passes.of_le (Nat.le_succ _)) beforeReached]
      simp only [seek, pass, stepped]

/-- Every search gets to a candidate that settles it, or uses up its budget. -/
theorem settles_or_exhausts (judge : α → Except ε Verdict)
    (step : α → Except ε α) (first : α) (budget : Nat) :
    (∃ index < budget, Passes judge step first index ∧
        ∃ candidate, walk step first index = .ok candidate ∧
          ∃ outcome, Settles judge step candidate outcome) ∨
      Passes judge step first budget ∧
        ∃ candidate, walk step first budget = .ok candidate := by
  induction budget with
  | zero => exact .inr ⟨passes_zero first, first, rfl⟩
  | succ budget induction =>
      rcases induction with ⟨index, inside, settled⟩ |
        ⟨passes, candidate, reached⟩
      · exact .inl ⟨index, Nat.lt_succ_of_lt inside, settled⟩
      · cases verdict : judge candidate with
        | error fault =>
            exact .inl ⟨budget, Nat.lt_succ_self _, passes, candidate,
              reached, _, .unjudged verdict⟩
        | ok verdictValue =>
            cases verdictValue with
            | accept =>
                exact .inl ⟨budget, Nat.lt_succ_self _, passes, candidate,
                  reached, _, .accepted verdict⟩
            | stop =>
                exact .inl ⟨budget, Nat.lt_succ_self _, passes, candidate,
                  reached, _, .stopped verdict⟩
            | pass =>
                cases stepped : step candidate with
                | error fault =>
                    exact .inl ⟨budget, Nat.lt_succ_self _, passes,
                      candidate, reached, _, .astray verdict stepped⟩
                | ok next =>
                    exact .inr ⟨passes_succ passes reached verdict, next,
                      (walk_succ reached).trans stepped⟩

theorem seek_of_settles {first candidate : α} {index budget : Nat}
    {outcome : Except ε (Finding α)} (inside : index < budget)
    (passes : Passes judge step first index)
    (reached : walk step first index = .ok candidate)
    (settled : Settles judge step candidate outcome) :
    seek judge step budget first = outcome := by
  rcases Nat.exists_eq_add_of_lt inside with ⟨rest, rfl⟩
  rw [Nat.add_assoc, seek_skip (rest + 1) passes reached]
  cases settled with
  | accepted verdict => simp only [seek, verdict]
  | stopped verdict => simp only [seek, verdict]
  | unjudged verdict => simp only [seek, verdict]
  | astray verdict left => simp only [seek, verdict, left]

theorem seek_of_exhausts {first candidate : α} {budget : Nat}
    (passes : Passes judge step first budget)
    (reached : walk step first budget = .ok candidate) :
    seek judge step budget first = .ok .gaveUp := by
  rw [← Nat.add_zero budget, seek_skip 0 passes reached]
  rfl

/-- A search that does not pass over its first candidate takes no step. -/
theorem seek_congr_of_first {other : α → Except ε Verdict}
    {otherStep : α → Except ε α} {first : α} (same : judge first = other first)
    (settled : judge first ≠ .ok .pass) (budget : Nat) :
    seek judge step budget first = seek other otherStep budget first := by
  cases budget with
  | zero => rfl
  | succ budget =>
      simp only [seek, ← same]
      cases verdict : judge first with
      | error fault => rfl
      | ok decided =>
          cases decided with
          | accept => rfl
          | stop => rfl
          | pass => exact absurd verdict settled

/-- The outcome of a search, in terms of the candidates on its way. -/
theorem seek_eq_iff {first : α} {budget : Nat}
    {outcome : Except ε (Finding α)} :
    seek judge step budget first = outcome ↔
      (∃ index < budget, Passes judge step first index ∧
        ∃ candidate, walk step first index = .ok candidate ∧
          Settles judge step candidate outcome) ∨
        (Passes judge step first budget ∧
          ∃ candidate, walk step first budget = .ok candidate) ∧
            outcome = .ok .gaveUp := by
  constructor
  · intro sought
    rcases settles_or_exhausts judge step first budget with
      ⟨index, inside, passes, candidate, reached, settledOutcome, settled⟩ |
        ⟨passes, candidate, reached⟩
    · rw [seek_of_settles inside passes reached settled] at sought
      subst sought
      exact .inl ⟨index, inside, passes, candidate, reached, settled⟩
    · rw [seek_of_exhausts passes reached] at sought
      exact .inr ⟨⟨passes, candidate, reached⟩, sought.symm⟩
  · rintro (⟨index, inside, passes, candidate, reached, settled⟩ |
      ⟨⟨passes, candidate, reached⟩, rfl⟩)
    · exact seek_of_settles inside passes reached settled
    · exact seek_of_exhausts passes reached

theorem seek_gaveUp_iff {first : α} {budget : Nat} :
    seek judge step budget first = .ok .gaveUp ↔
      Passes judge step first budget ∧
        ∃ candidate, walk step first budget = .ok candidate := by
  rw [seek_eq_iff]
  constructor
  · rintro (⟨_, -, -, _, -, ⟨⟩⟩ | ⟨exhausts, -⟩)
    exact exhausts
  · intro exhausts
    exact .inr ⟨exhausts, rfl⟩

theorem seek_found_iff {first result : α} {budget : Nat} :
    seek judge step budget first = .ok (.found result) ↔
      ∃ index < budget, Passes judge step first index ∧
        walk step first index = .ok result ∧
          judge result = .ok .accept := by
  rw [seek_eq_iff]
  constructor
  · rintro (⟨index, inside, passes, candidate, reached, settled⟩ |
      ⟨-, impossible⟩)
    · cases settled with
      | accepted verdict => exact ⟨index, inside, passes, reached, verdict⟩
    · cases impossible
  · rintro ⟨index, inside, passes, reached, verdict⟩
    exact .inl ⟨index, inside, passes, result, reached, .accepted verdict⟩

theorem seek_ended_iff {first : α} {budget : Nat} :
    seek judge step budget first = .ok .ended ↔
      ∃ index < budget, Passes judge step first index ∧
        ∃ candidate, walk step first index = .ok candidate ∧
          judge candidate = .ok .stop := by
  rw [seek_eq_iff]
  constructor
  · rintro (⟨index, inside, passes, candidate, reached, settled⟩ |
      ⟨-, impossible⟩)
    · cases settled with
      | stopped verdict =>
          exact ⟨index, inside, passes, candidate, reached, verdict⟩
    · cases impossible
  · rintro ⟨index, inside, passes, candidate, reached, verdict⟩
    exact .inl ⟨index, inside, passes, candidate, reached, .stopped verdict⟩

end Timetable
