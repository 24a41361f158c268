import Timetable.Search

/-!
# Lazy chains of searches

A chain yields values one at a time.  Each value is the result of a search that
starts from the chain's present state, and the search also gives the state from
which the next one starts.  Nothing is computed before it is asked for.

A chain is over once a search of it ended, gave up or failed.  `Chain.draw`
asks for one value, and `collect` for up to a number of values; collecting
never asks for one value more than it needs.
-/

namespace Timetable

variable {α σ ε : Type}

/-- The search for one value of a chain and the state after it. -/
abbrev Advance (ε σ α : Type) := σ → Except ε (Finding (α × σ))

/-- A chain that waits to be asked at a state, or is finished. -/
inductive Chain (σ : Type) where
  | waiting (state : σ)
  | finished
deriving Repr

namespace Chain

/-- Asks for the next value. -/
def draw (advance : Advance ε σ α) :
    Chain σ → Except ε (Finding α) × Chain σ
  | finished => (.ok .ended, finished)
  | waiting state =>
      match advance state with
      | .error fault => (.error fault, finished)
      | .ok (.found (value, next)) => (.ok (.found value), waiting next)
      | .ok .ended => (.ok .ended, finished)
      | .ok .gaveUp => (.ok .gaveUp, finished)

end Chain

/--
The values drawn from a chain, and the state at which its last search gave up
if it did.
-/
structure Drawn (σ α : Type) where
  values : List α
  stuckAt : Option σ := none
deriving Repr

/-- The greatest number of results that can be asked for. -/
def greatestLimit : Int := 9223372036854775807

/-- Draws values onto those drawn before, which stand in reverse order. -/
def collectOnto (advance : Advance ε σ α) :
    (count : Nat) → (state : σ) → (before : List α) →
      Except ε (Drawn σ α)
  | 0, _, before => .ok { values := before.reverse }
  | count + 1, state, before =>
      match advance state with
      | .error fault => .error fault
      | .ok (.found (value, next)) =>
          collectOnto advance count next (value :: before)
      | .ok .ended => .ok { values := before.reverse }
      | .ok .gaveUp =>
          .ok { values := before.reverse, stuckAt := some state }

/-- Draws up to `count` values from a chain that waits at a state. -/
def collect (advance : Advance ε σ α) (count : Nat) (state : σ) :
    Except ε (Drawn σ α) :=
  collectOnto advance count state []

end Timetable
