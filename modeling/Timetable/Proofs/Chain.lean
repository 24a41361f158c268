import Timetable.Chain

/-!
# What a chain yields

`Yields` says which values a chain yields from a state on, and in which state
it is after them.  Collecting draws such values until there are enough or a
link finds nothing more; `collect_eq_ok_iff` leaves no other outcome but the
failure of a link, `collect_eq_error_iff`.

`Chain.answers` lists what a chain answers if it is asked again and again.  The
answers depend on the links at the states that the chain comes to, and on no
others.
-/

namespace Timetable

variable {α σ ε : Type}

/-- The values that a chain yields from a state on, and the state after them. -/
inductive Yields (advance : Advance ε σ α) : σ → List α → σ → Prop where
  | nil {state : σ} : Yields advance state [] state
  | cons {state next final : σ} {value : α} {rest : List α}
      (found : advance state = .ok (.found (value, next)))
      (onward : Yields advance next rest final) :
      Yields advance state (value :: rest) final

/--
Collecting stops after as many values as asked for, or earlier at a state whose
link finds nothing; a link that gave up leaves its state behind.
-/
def Stops (advance : Advance ε σ α) (count given : Nat) (final : σ)
    (stuckAt : Option σ) : Prop :=
  given = count ∧ stuckAt = none ∨
    given < count ∧
      (advance final = .ok .ended ∧ stuckAt = none ∨
        advance final = .ok .gaveUp ∧ stuckAt = some final)

variable {advance other : Advance ε σ α}

namespace Yields

/-- What the links preserve holds of every state that a chain comes to. -/
theorem invariant {holds : σ → Prop} {state final : σ} {values : List α}
    (preserved : ∀ {before after : σ} {value : α}, holds before →
      advance before = .ok (.found (value, after)) → holds after)
    (yields : Yields advance state values final) (begun : holds state) :
    holds final := by
  induction yields with
  | nil => exact begun
  | cons found _ induction => exact induction (preserved begun found)

/-- What the links preserve of a state and the values before it holds on. -/
theorem history {holds : List α → σ → Prop} {state final : σ}
    {earlier values : List α}
    (preserved : ∀ {given : List α} {before after : σ} {value : α},
      holds given before →
        advance before = .ok (.found (value, after)) →
          holds (given ++ [value]) after)
    (yields : Yields advance state values final)
    (begun : holds earlier state) : holds (earlier ++ values) final := by
  induction yields generalizing earlier with
  | nil => simpa using begun
  | cons found _ induction => simpa using induction (preserved begun found)

/-- A chain that yields only so many values comes to a last one. -/
theorem exists_last {state : σ} (bound : Nat)
    (bounded : ∀ {values : List α} {final : σ},
      Yields advance state values final → values.length ≤ bound) :
    ∃ values final, Yields advance state values final ∧
      ∀ pair, advance final ≠ .ok (.found pair) := by
  induction bound generalizing state with
  | zero =>
      refine ⟨[], state, .nil, fun pair found => ?_⟩
      exact absurd (bounded (.cons found .nil)) (Nat.not_succ_le_zero _)
  | succ bound induction =>
      by_cases goesOn : ∃ pair, advance state = .ok (.found pair)
      · rcases goesOn with ⟨⟨value, next⟩, found⟩
        obtain ⟨values, final, onward, ended⟩ :=
          induction fun {_ _} later =>
            Nat.le_of_succ_le_succ (bounded (.cons found later))
        exact ⟨value :: values, final, .cons found onward, ended⟩
      · exact ⟨[], state, .nil, fun pair found => goesOn ⟨pair, found⟩⟩

/-- Another chain yields the same if its links find whatever these find. -/
theorem transfer {holds : σ → Prop} {state final : σ} {values : List α}
    (preserved : ∀ {before after : σ} {value : α}, holds before →
      advance before = .ok (.found (value, after)) →
        holds after ∧ other before = .ok (.found (value, after)))
    (yields : Yields advance state values final) (begun : holds state) :
    Yields other state values final := by
  induction yields with
  | nil => exact .nil
  | cons found _ induction =>
      rcases preserved begun found with ⟨next, otherFound⟩
      exact .cons otherFound (induction next)

/-- A chain that finds nothing at a state stays there. -/
theorem iff_of_fruitless {state final : σ} {values : List α}
    (fruitless : ∀ pair, advance state ≠ .ok (.found pair)) :
    Yields advance state values final ↔ values = [] ∧ final = state := by
  constructor
  · intro yields
    cases yields with
    | nil => exact ⟨rfl, rfl⟩
    | cons found _ => exact absurd found (fruitless _)
  · rintro ⟨rfl, rfl⟩
    exact .nil

/-- A chain that finds a value at a state stays there or yields it first. -/
theorem iff_of_found {state next final : σ} {value : α} {values : List α}
    (found : advance state = .ok (.found (value, next))) :
    Yields advance state values final ↔
      values = [] ∧ final = state ∨
        ∃ rest, values = value :: rest ∧ Yields advance next rest final := by
  constructor
  · intro yields
    cases yields with
    | nil => exact .inl ⟨rfl, rfl⟩
    | cons first onward =>
        rw [found] at first
        cases first
        exact .inr ⟨_, rfl, onward⟩
  · rintro (⟨rfl, rfl⟩ | ⟨rest, rfl, onward⟩)
    · exact .nil
    · exact .cons found onward

end Yields

/-! ## Collecting -/

theorem not_stops_of_found {count : Nat} {state : σ} {stuckAt : Option σ}
    {pair : α × σ} (found : advance state = .ok (.found pair)) :
    ¬ Stops advance (count + 1) 0 state stuckAt := by
  simp [Stops, found]

theorem stops_succ_iff {count given : Nat} {final : σ}
    {stuckAt : Option σ} :
    Stops advance (count + 1) (given + 1) final stuckAt ↔
      Stops advance count given final stuckAt := by
  simp only [Stops, Nat.add_right_cancel_iff, Nat.add_lt_add_iff_right]

/-- Collecting stops where a link finds nothing. -/
theorem exists_stops_of_fruitless {state : σ} {finding : Finding (α × σ)}
    (count : Nat)
    (linked : advance state = .ok finding)
    (fruitless : ∀ pair, finding ≠ .found pair) :
    ∃ stuckAt, Stops advance count 0 state stuckAt := by
  rcases Nat.eq_zero_or_pos count with rfl | positive
  · exact ⟨none, .inl ⟨rfl, rfl⟩⟩
  cases finding with
  | found pair => exact absurd rfl (fruitless pair)
  | ended => exact ⟨none, .inr ⟨positive, .inl ⟨linked, rfl⟩⟩⟩
  | gaveUp => exact ⟨some state, .inr ⟨positive, .inr ⟨linked, rfl⟩⟩⟩

theorem collectOnto_eq_ok_iff {count : Nat} {state : σ} {before : List α}
    {drawn : Drawn σ α} :
    collectOnto advance count state before = .ok drawn ↔
      ∃ values final, Yields advance state values final ∧
        drawn.values = before.reverse ++ values ∧
        Stops advance count values.length final drawn.stuckAt := by
  obtain ⟨drawnValues, stuckAt⟩ := drawn
  -- A link moves its value in front, so the induction is for all such values.
  induction count generalizing state before with
  | zero =>
      simp only [collectOnto, Except.ok.injEq, Drawn.mk.injEq]
      constructor
      · rintro ⟨rfl, rfl⟩
        exact ⟨[], state, .nil, (List.append_nil _).symm, .inl ⟨rfl, rfl⟩⟩
      · rintro ⟨values, final, -, rfl, ⟨length, rfl⟩ | ⟨fewer, -⟩⟩
        · rw [List.length_eq_zero_iff.mp length, List.append_nil]
          exact ⟨rfl, rfl⟩
        · exact absurd fewer (Nat.not_lt_zero _)
  | succ count induction =>
      cases found : advance state with
      | error fault =>
          have fruitless : ∀ pair, advance state ≠ .ok (.found pair) := by
            simp [found]
          simp [collectOnto, found, Yields.iff_of_fruitless fruitless, Stops]
      | ok finding =>
          cases finding with
          | ended =>
              have fruitless : ∀ pair, advance state ≠ .ok (.found pair) := by
                simp [found]
              simp only [collectOnto, found, and_assoc, exists_eq_left,
                Yields.iff_of_fruitless fruitless, exists_and_left]
              simp [Stops, found, eq_comm]
          | gaveUp =>
              have fruitless : ∀ pair, advance state ≠ .ok (.found pair) := by
                simp [found]
              simp only [collectOnto, found, and_assoc, exists_eq_left,
                Yields.iff_of_fruitless fruitless, exists_and_left]
              simp [Stops, found, eq_comm]
          | found pair =>
              simp only [collectOnto, found, induction, List.reverse_cons,
                List.append_assoc, List.singleton_append,
                Yields.iff_of_found found]
              constructor
              · rintro ⟨rest, final, onward, drawnEq, stopped⟩
                exact ⟨pair.1 :: rest, final, .inr ⟨rest, rfl, onward⟩,
                  drawnEq, stops_succ_iff.mpr stopped⟩
              · rintro ⟨values, final, ⟨rfl, rfl⟩ | ⟨rest, rfl, onward⟩,
                  drawnEq, stopped⟩
                · exact absurd stopped (not_stops_of_found found)
                · exact ⟨rest, final, onward, drawnEq,
                    stops_succ_iff.mp stopped⟩

/-- What was collected, and why collecting stopped. -/
theorem collect_eq_ok_iff {count : Nat} {state : σ} {drawn : Drawn σ α} :
    collect advance count state = .ok drawn ↔
      ∃ final, Yields advance state drawn.values final ∧
        Stops advance count drawn.values.length final drawn.stuckAt := by
  rw [collect, collectOnto_eq_ok_iff]
  constructor
  · rintro ⟨values, final, yields, drawnEq, stopped⟩
    cases drawnEq
    exact ⟨final, yields, stopped⟩
  · rintro ⟨final, yields, stopped⟩
    exact ⟨_, final, yields, rfl, stopped⟩

theorem collectOnto_eq_error_iff {count : Nat} {state : σ}
    {before : List α} {fault : ε} :
    collectOnto advance count state before = .error fault ↔
      ∃ values final, Yields advance state values final ∧
        values.length < count ∧ advance final = .error fault := by
  induction count generalizing state before with
  | zero => simp [collectOnto]
  | succ count induction =>
      cases found : advance state with
      | error other =>
          have fruitless : ∀ pair, advance state ≠ .ok (.found pair) := by
            simp [found]
          simp only [collectOnto, found, and_assoc, exists_eq_left,
            Yields.iff_of_fruitless fruitless, exists_and_left]
          simp
      | ok finding =>
          cases finding with
          | ended =>
              have fruitless : ∀ pair, advance state ≠ .ok (.found pair) := by
                simp [found]
              simp [collectOnto, found, Yields.iff_of_fruitless fruitless]
          | gaveUp =>
              have fruitless : ∀ pair, advance state ≠ .ok (.found pair) := by
                simp [found]
              simp [collectOnto, found, Yields.iff_of_fruitless fruitless]
          | found pair =>
              simp only [collectOnto, found, induction,
                Yields.iff_of_found found]
              constructor
              · rintro ⟨rest, final, onward, fewer, failed⟩
                exact ⟨pair.1 :: rest, final, .inr ⟨rest, rfl, onward⟩,
                  Nat.succ_lt_succ fewer, failed⟩
              · rintro ⟨values, final, ⟨rfl, rfl⟩ | ⟨rest, rfl, onward⟩,
                  fewer, failed⟩
                · rw [found] at failed
                  cases failed
                · exact ⟨rest, final, onward, Nat.lt_of_succ_lt_succ fewer,
                    failed⟩

/-- Collecting fails at a link that it comes to, and only there. -/
theorem collect_eq_error_iff {count : Nat} {state : σ} {fault : ε} :
    collect advance count state = .error fault ↔
      ∃ values final, Yields advance state values final ∧
        values.length < count ∧ advance final = .error fault :=
  collectOnto_eq_error_iff

/-! ## Asking again and again -/

namespace Chain

/-- The answers of a chain that is asked a number of times. -/
def answers (advance : Advance ε σ α) :
    (count : Nat) → Chain σ → List (Except ε (Finding α))
  | 0, _ => []
  | count + 1, chain =>
      (chain.draw advance).1 :: answers advance count (chain.draw advance).2

/-- The values that a chain yields are its first answers. -/
theorem answers_of_yields {state final : σ} {values : List α}
    (yields : Yields advance state values final) (count : Nat) :
    answers advance (values.length + count) (.waiting state) =
      values.map (fun value => .ok (.found value)) ++
        answers advance count (.waiting final) := by
  induction yields with
  | nil => simp
  | cons found _ induction =>
      rw [List.length_cons, Nat.add_right_comm]
      simp [answers, draw, found, induction]

/-- The answers depend on the links at the states that the chain comes to. -/
theorem answers_congr {state : σ} (count : Nat)
    (agree : ∀ values final, Yields advance state values final →
      advance final = other final) :
    answers advance count (.waiting state) =
      answers other count (.waiting state) := by
  -- A finished chain does not look at its links.
  have finished (count : Nat) :
      answers advance count .finished = answers other count .finished := by
    induction count with
    | zero => rfl
    | succ count induction => simp only [answers, draw, induction]
  induction count generalizing state with
  | zero => rfl
  | succ count induction =>
      have here := agree [] state .nil
      cases found : advance state with
      | error fault =>
          simp only [answers, draw, ← here, found, finished]
      | ok finding =>
          cases finding with
          | ended => simp only [answers, draw, ← here, found, finished]
          | gaveUp => simp only [answers, draw, ← here, found, finished]
          | found pair =>
              have later := induction fun values final yields =>
                agree (pair.1 :: values) final (.cons found yields)
              simp only [answers, draw, ← here, found, later]

end Chain

end Timetable
