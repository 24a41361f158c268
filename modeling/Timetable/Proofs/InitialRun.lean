import Timetable.Proofs.Search

/-!
# Initial runs of a walk

The initial run of a walk are the candidates from the first one on, as long as
they are inside some bounds.  It is a list if the walk cannot go on forever, as
long as a walk is that climbs below a bound; `InitialRun.unique` says that there
is only one.
-/

namespace Timetable

variable {α ε : Type} {step : α → Except ε α} {inside : α → Prop}

/-- The longest list of the first candidates of a walk that are all inside. -/
structure InitialRun (step : α → Except ε α) (inside : α → Prop) (first : α)
    (run : List α) : Prop where
  reached : ∀ index (bound : index < run.length),
    walk step first index = .ok run[index]
  within : ∀ candidate ∈ run, inside candidate
  longest : ∀ candidate, walk step first run.length = .ok candidate →
    ¬ inside candidate

theorem walk_of_step {first next : α} (stepped : step first = .ok next)
    (count : Nat) : walk step first (count + 1) = walk step next count := by
  have reached : walk step first 1 = .ok next := stepped
  rw [Nat.add_comm, walk_add reached]

namespace InitialRun

theorem of_outside {first : α} (outside : ¬ inside first) :
    InitialRun step inside first [] where
  reached := by simp
  within := by simp
  longest := by
    intro candidate reached
    cases reached
    exact outside

theorem of_astray {first : α} {fault : ε} (within : inside first)
    (astray : step first = .error fault) :
    InitialRun step inside first [first] where
  reached := by simp
  within := by simpa using within
  longest := by
    intro candidate reached
    rw [List.length_singleton, walk_succ (walk_zero first), astray] at reached
    cases reached

theorem of_next {first next : α} {rest : List α} (within : inside first)
    (stepped : step first = .ok next)
    (isRun : InitialRun step inside next rest) :
    InitialRun step inside first (first :: rest) where
  reached := by
    intro index bound
    cases index with
    | zero => rfl
    | succ index =>
        rw [walk_of_step stepped]
        exact isRun.reached index (Nat.lt_of_succ_lt_succ bound)
  within := by
    intro candidate member
    rcases List.mem_cons.mp member with rfl | member
    · exact within
    · exact isRun.within candidate member
  longest := by
    intro candidate reached
    rw [List.length_cons, walk_of_step stepped] at reached
    exact isRun.longest candidate reached

/-- There is only one initial run. -/
theorem unique {first : α} {run other : List α}
    (isRun : InitialRun step inside first run)
    (otherIsRun : InitialRun step inside first other) : run = other := by
  have notShorter {short long : List α}
      (shortIsRun : InitialRun step inside first short)
      (longIsRun : InitialRun step inside first long) :
      ¬ short.length < long.length := by
    intro shorter
    exact shortIsRun.longest _ (longIsRun.reached _ shorter)
      (longIsRun.within _ (List.getElem_mem shorter))
  have sameLength : run.length = other.length := by
    have first := notShorter isRun otherIsRun
    have second := notShorter otherIsRun isRun
    omega
  refine List.ext_getElem sameLength fun index inRun inOther => ?_
  have reached := isRun.reached index inRun
  rw [otherIsRun.reached index inOther] at reached
  exact (Except.ok.inj reached).symm

/-- The run holds all candidates inside if those before them are inside too. -/
theorem mem_iff {first candidate : α} {run : List α}
    (isRun : InitialRun step inside first run)
    (closed : ∀ {index further earlier later},
      walk step first index = .ok earlier →
        walk step first further = .ok later →
          index ≤ further → inside later → inside earlier) :
    candidate ∈ run ↔
      (∃ index, walk step first index = .ok candidate) ∧
        inside candidate := by
  constructor
  · intro member
    rcases List.mem_iff_getElem.mp member with ⟨index, bound, rfl⟩
    exact ⟨⟨index, isRun.reached index bound⟩, isRun.within _ member⟩
  · rintro ⟨⟨index, reached⟩, within⟩
    rcases Nat.lt_or_ge index run.length with bound | beyond
    · rw [isRun.reached index bound] at reached
      cases reached
      exact List.getElem_mem bound
    -- Further on the walk passes the candidate that ended the run.
    · rcases walk_of_le reached beyond with ⟨outside, outsideReached⟩
      exact absurd (closed outsideReached reached beyond within)
        (isRun.longest outside outsideReached)

theorem eq_nil {first : α} {run : List α}
    (isRun : InitialRun step inside first run) (outside : ¬ inside first) :
    run = [] :=
  isRun.unique (of_outside outside)

/-- A run whose first candidate is inside goes on with the next one's. -/
theorem exists_cons {first next : α} {run : List α}
    (isRun : InitialRun step inside first run) (within : inside first)
    (stepped : step first = .ok next) :
    ∃ rest, run = first :: rest ∧ InitialRun step inside next rest := by
  cases run with
  | nil => exact absurd within (isRun.longest first rfl)
  | cons head rest =>
      have headEq := isRun.reached 0 (Nat.succ_pos _)
      cases headEq
      refine ⟨rest, rfl, ?_, ?_, ?_⟩
      · intro index bound
        rw [← walk_of_step stepped]
        exact isRun.reached (index + 1) (Nat.succ_lt_succ bound)
      · intro candidate member
        exact isRun.within candidate (List.mem_cons_of_mem _ member)
      · intro candidate reached
        rw [← walk_of_step stepped] at reached
        exact isRun.longest candidate reached

end InitialRun

/-- A walk that climbs below a bound has an initial run. -/
theorem exists_initialRun {height : α → Nat} {bound : Nat}
    (climbs : ∀ {candidate next},
      step candidate = .ok next → height candidate < height next)
    (below : ∀ candidate, height candidate < bound) (first : α) :
    ∃ run, InitialRun step inside first run := by
  obtain ⟨room, boundLe⟩ : ∃ room, bound ≤ height first + room :=
    ⟨bound, Nat.le_add_left bound _⟩
  induction room generalizing first with
  | zero => exact absurd (below first) (Nat.not_lt.mpr boundLe)
  | succ room induction =>
      by_cases within : inside first
      · cases stepped : step first with
        | error fault => exact ⟨_, .of_astray within stepped⟩
        | ok next =>
            have higher := climbs stepped
            rcases induction next (by omega) with ⟨rest, isRun⟩
            exact ⟨_, .of_next within stepped isRun⟩
      · exact ⟨[], .of_outside within⟩

end Timetable
