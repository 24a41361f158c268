import Mathlib.Logic.Function.Iterate
import Timetable.Proofs.Chain
import Timetable.Proofs.Outcome
import Timetable.Report

/-!
# Single draws and lists

A chain can be asked for one value after the other, or `collect` lists several
of its values at once.  The two go together: `pullsAsListed` says which answer
to a single draw follows from which list.

A list of the first values may stop short or fail, and a draw sees this exactly
when the list that it would complete does.  After that the chain is finished,
and a finished chain answers nothing but that it is over.
-/

namespace Timetable

variable {α β σ ε : Type} {advance : Advance ε σ α}

/-- What a chain yields in two parts. -/
theorem Yields.append_iff {state final : σ} {front back : List α} :
    Yields advance state (front ++ back) final ↔
      ∃ middle, Yields advance state front middle ∧
        Yields advance middle back final := by
  induction front generalizing state with
  | nil =>
      constructor
      · exact fun yields => ⟨state, .nil, yields⟩
      · rintro ⟨middle, begun, onward⟩
        cases begun
        exact onward
  | cons value front induction =>
      constructor
      · intro yields
        cases yields with
        | cons found onward =>
            rcases induction.mp onward with ⟨middle, begun, rest⟩
            exact ⟨middle, .cons found begun, rest⟩
      · rintro ⟨middle, begun, rest⟩
        cases begun with
        | cons found onward =>
            exact .cons found (induction.mpr ⟨middle, onward, rest⟩)

/-- A value was found at the state that the values before it lead to. -/
theorem Yields.found_at {state final : σ} {values : List α} {index : Nat}
    (yields : Yields advance state values final)
    (inside : index < values.length) :
    ∃ middle next, Yields advance state (values.take index) middle ∧
      advance middle = .ok (.found (values[index], next)) := by
  rw [← List.take_append_drop index values,
    List.drop_eq_getElem_cons inside, append_iff] at yields
  rcases yields with ⟨middle, begun, rest⟩
  cases rest with
  | cons found _ => exact ⟨middle, _, begun, found⟩

namespace Chain

/-- The chain after a number of draws. -/
def drawn (advance : Advance ε σ α) (count : Nat) : Chain σ → Chain σ :=
  (fun chain => (chain.draw advance).2)^[count]

/-- The answer to the draw that comes after a number of others. -/
def nth (advance : Advance ε σ α) (index : Nat) (chain : Chain σ) :
    Except ε (Finding α) :=
  ((chain.drawn advance index).draw advance).1

theorem drawn_succ (count : Nat) (chain : Chain σ) :
    drawn advance (count + 1) chain =
      ((drawn advance count chain).draw advance).2 :=
  Function.iterate_succ_apply' _ _ _

theorem drawn_finished (count : Nat) :
    drawn advance count .finished = .finished :=
  Function.iterate_fixed rfl count

theorem drawn_of_yields {state final : σ} {values : List α}
    (yields : Yields advance state values final) :
    drawn advance values.length (.waiting state) = .waiting final := by
  induction yields with
  | nil => rfl
  | cons found _ induction =>
      rw [← induction, List.length_cons, drawn,
        Function.iterate_succ_apply, draw, found]
      rfl

theorem nth_of_yields {state final : σ} {values : List α}
    (yields : Yields advance state values final) :
    nth advance values.length (.waiting state) =
      ((waiting final).draw advance).1 := by
  rw [nth, drawn_of_yields yields]

/-! ## Finished chains -/

/-- A draw that finds nothing finishes its chain. -/
theorem draw_finishes {chain : Chain σ}
    (fruitless : ∀ value, (chain.draw advance).1 ≠ .ok (.found value)) :
    (chain.draw advance).2 = .finished := by
  cases chain with
  | finished => rfl
  | waiting state =>
      rw [draw] at fruitless ⊢
      cases linked : advance state with
      | error fault => rfl
      | ok finding =>
          cases finding with
          | ended => rfl
          | gaveUp => rfl
          | found pair =>
              rw [linked] at fruitless
              exact absurd rfl (fruitless pair.1)

theorem drawn_of_finished {chain : Chain σ} {earlier later : Nat}
    (finished : drawn advance earlier chain = .finished)
    (ordered : earlier ≤ later) : drawn advance later chain = .finished := by
  obtain ⟨further, rfl⟩ := Nat.exists_eq_add_of_le' ordered
  rw [drawn, Function.iterate_add_apply]
  exact (congrArg _ finished).trans (drawn_finished further)

/-- After a draw that finds nothing all others do. -/
theorem nth_of_fruitless {chain : Chain σ} {earlier later : Nat}
    (fruitless : ∀ value,
      nth advance earlier chain ≠ .ok (.found value))
    (ordered : earlier < later) :
    nth advance later chain = .ok .ended := by
  have finished : drawn advance (earlier + 1) chain = .finished := by
    rw [drawn_succ]
    exact draw_finishes fruitless
  rw [nth, drawn_of_finished finished ordered]
  rfl

/-- Where a link finds nothing, the draw does not either. -/
theorem draw_ne_found {state : σ}
    (fruitless : ∀ pair, advance state ≠ .ok (.found pair)) (value : α) :
    ((waiting state).draw advance).1 ≠ .ok (.found value) := by
  rw [draw]
  cases linked : advance state with
  | error fault => exact fun same => by cases same
  | ok finding =>
      cases finding with
      | ended => exact fun same => by cases same
      | gaveUp => exact fun same => by cases same
      | found pair => exact absurd linked (fruitless pair)

theorem nth_of_stuck {state final : σ} {values : List α} {index : Nat}
    (yields : Yields advance state values final)
    (fruitless : ∀ pair, advance final ≠ .ok (.found pair))
    (further : values.length < index) :
    nth advance index (.waiting state) = .ok .ended := by
  refine nth_of_fruitless (fun value => ?_) further
  rw [nth_of_yields yields]
  exact draw_ne_found fruitless value

/-! ## Draws by lists -/

/-- A draw finds the member of a list that is long enough. -/
theorem nth_of_collect {state : σ} {count index : Nat}
    {listed : Drawn σ α} (collected : collect advance count state = .ok listed)
    (inside : index < listed.values.length) :
    nth advance index (.waiting state) =
      .ok (.found listed.values[index]) := by
  rcases collect_eq_ok_iff.mp collected with ⟨final, yields, -⟩
  rcases yields.found_at inside with ⟨middle, next, begun, found⟩
  have length : (listed.values.take index).length = index :=
    List.length_take_of_le (Nat.le_of_lt inside)
  have drawn := nth_of_yields begun
  rw [length, draw, found] at drawn
  exact drawn

/-- A draw finds nothing if the list that it would complete is too short. -/
theorem nth_of_short {state : σ} {index : Nat} {listed : Drawn σ α}
    (collected : collect advance (index + 1) state = .ok listed)
    (short : listed.values.length ≤ index) :
    ∃ finding, nth advance index (.waiting state) = .ok finding ∧
      finding.toOption = none := by
  rcases collect_eq_ok_iff.mp collected with
    ⟨final, yields, ⟨full, -⟩ | ⟨-, stopped⟩⟩
  · omega
  rcases Nat.lt_or_eq_of_le short with further | here
  · refine ⟨.ended, nth_of_stuck yields (fun pair found => ?_) further, rfl⟩
    rcases stopped with ⟨ended, -⟩ | ⟨gaveUp, -⟩ <;> simp_all
  · rw [← here, nth_of_yields yields, draw]
    rcases stopped with ⟨ended, -⟩ | ⟨gaveUp, -⟩
    · rw [ended]
      exact ⟨_, rfl, rfl⟩
    · rw [gaveUp]
      exact ⟨_, rfl, rfl⟩

/-- Where one list exists and the next fails, the draw in between fails. -/
theorem nth_of_failure {state : σ} {index : Nat} {fault : ε}
    {before : Drawn σ α} (listed : collect advance index state = .ok before)
    (failed : collect advance (index + 1) state = .error fault) :
    nth advance index (.waiting state) = .error fault := by
  rcases collect_eq_error_iff.mp failed with
    ⟨values, final, yields, fewer, failure⟩
  rcases Nat.lt_or_eq_of_le (Nat.le_of_lt_succ fewer) with earlier | here
  · have failedBefore : collect advance index state = .error fault :=
      collect_eq_error_iff.mpr ⟨values, final, yields, earlier, failure⟩
    rw [listed] at failedBefore
    cases failedBefore
  · rw [← here, nth_of_yields yields, draw, failure]

end Chain

/-! ## Answers -/

/-- The first values of a chain, as many as a list may have at most. -/
def listing (advance : Advance Fault σ α) (state : σ) (limit : Int) :
    Except Failure (List α) :=
  if greatestLimit < limit then .error (.fault .limitTooLarge)
  else ((collect advance limit.toNat state).map Drawn.values).mapError .fault

/-- The answer to a draw, with a form for values and one for the end. -/
def drawAnswer (value : α → β) (stopped : β) :
    Except Fault (Finding α) → Except Failure β
  | .error fault => .error (.fault fault)
  | .ok finding => .ok (finding.toOption.elim stopped value)

/--
What draws from a sequence answer, by the lists of its first values.  The draw
after `index` others answers the member of a list of one value more, or stops
where that list is too short, or fails as that list where the list before it
does not.  After a stop or a failure every draw stops.

No list has more than `greatestLimit` values, and none is given for more; a draw
after so many others stops.
-/
structure PullsAsListed (listed : Int → Except Failure (List α))
    (value : α → β) (stopped : β) (pull : Nat → Except Failure β) :
    Prop where
  member : ∀ index values, listed (index + 1 : Nat) = .ok values →
    ∀ inside : index < values.length, pull index = .ok (value values[index])
  stop : ∀ index values, listed (index + 1 : Nat) = .ok values →
    values.length ≤ index → pull index = .ok stopped
  failure : ∀ index failure values, (index + 1 : Nat) ≤ greatestLimit →
    listed index = .ok values → listed (index + 1 : Nat) = .error failure →
      pull index = .error failure
  finished : ∀ earlier later, earlier < later →
    (pull earlier = .ok stopped ∨ ∃ failure, pull earlier = .error failure) →
      pull later = .ok stopped
  beyond : ∀ index : Nat, greatestLimit ≤ index → pull index = .ok stopped

/-- A list that was returned was collected. -/
theorem collect_of_listing {advance : Advance Fault σ α} {state : σ}
    {limit : Int} {values : List α}
    (returned : listing advance state limit = .ok values) :
    ∃ listed, collect advance limit.toNat state = .ok listed ∧
      listed.values = values := by
  rw [listing] at returned
  split at returned
  · cases returned
  · exact map_eq_ok_iff.mp (mapError_eq_ok_iff.mp returned)

theorem collect_of_failed_listing {advance : Advance Fault σ α} {state : σ}
    {limit : Int} {failure : Failure} (small : limit ≤ greatestLimit)
    (failed : listing advance state limit = .error failure) :
    ∃ fault, collect advance limit.toNat state = .error fault ∧
      .fault fault = failure := by
  rw [listing, if_neg (Int.not_lt.mpr small),
    mapError_eq_error_iff] at failed
  simpa only [map_eq_error_iff] using failed

/-- A draw that answers no value finds none. -/
theorem ne_found_of_drawAnswer {value : α → β} {stopped : β}
    {result : Except Fault (Finding α)}
    (distinct : ∀ found, value found ≠ stopped)
    (fruitless : drawAnswer value stopped result = .ok stopped ∨
      ∃ failure, drawAnswer value stopped result = .error failure)
    (found : α) : result ≠ .ok (.found found) := by
  rintro rfl
  rcases fruitless with answered | ⟨failure, failed⟩
  · exact distinct found (Except.ok.inj answered)
  · cases failed

/-- The draws from a chain that yields only so many values go by its lists. -/
theorem pullsAsListed {advance : Advance Fault σ α} {state : σ}
    {value : α → β} {stopped : β} (bound : Nat)
    (small : (bound : Int) < greatestLimit)
    (bounded : ∀ {values : List α} {final : σ},
      Yields advance state values final → values.length ≤ bound)
    (distinct : ∀ found, value found ≠ stopped) :
    PullsAsListed (listing advance state) value stopped fun index =>
      drawAnswer value stopped (Chain.nth advance index (.waiting state)) where
  member index values returned inside := by
    rcases collect_of_listing returned with ⟨listed, collected, rfl⟩
    rw [Chain.nth_of_collect collected inside]
    rfl
  stop index values returned short := by
    rcases collect_of_listing returned with ⟨listed, collected, rfl⟩
    rw [Int.toNat_natCast] at collected
    rcases Chain.nth_of_short collected short with
      ⟨finding, answered, fruitless⟩
    rw [answered, drawAnswer, fruitless]
    rfl
  failure index failure values inside returned failed := by
    rcases collect_of_listing returned with ⟨listed, collected, -⟩
    rcases collect_of_failed_listing inside failed with
      ⟨fault, stuck, rfl⟩
    rw [Int.toNat_natCast] at collected stuck
    rw [Chain.nth_of_failure collected stuck]
    rfl
  finished earlier later ordered fruitless := by
    rw [Chain.nth_of_fruitless
      (ne_found_of_drawAnswer distinct fruitless) ordered]
    rfl
  beyond index beyond := by
    rcases Yields.exists_last bound bounded with
      ⟨values, final, yields, fruitless⟩
    have fewer := bounded yields
    rw [Chain.nth_of_stuck yields fruitless (by omega)]
    rfl

end Timetable
