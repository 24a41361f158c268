import Mathlib.Data.Nat.SuccPred
import Mathlib.Logic.Function.Iterate
import Timetable.Proofs.Clock

/-!
# Scripts of requests

A session answers the requests of a script one after the other.  What holds of
every step carries over to scripts in two ways: a quantity that some requests
advance and all others keep is advanced as often as such requests stand in the
script, and two sessions that answer alike at every step answer alike
throughout, even if the second is asked in another form.

The readings of a clock are such a quantity.  `Clocked` says what one step does
with the clock, and `Clocked.account` and `Clocked.answers_pinned` what follows
for scripts.
-/

namespace Timetable.Script

open Timetable.Calendar

variable {S R A : Type} (respond : S → R → S × A)

/-- The session after a script. -/
def after : S → List R → S
  | session, [] => session
  | session, request :: rest => after (respond session request).1 rest

/-- The sessions and answers along a script. -/
def run : S → List R → List (S × A)
  | _, [] => []
  | session, request :: rest =>
      respond session request :: run (respond session request).1 rest

/-- Something holds of every request of a script, where it is answered. -/
def Throughout (holds : S → R → Prop) : S → List R → Prop
  | _, [] => True
  | session, request :: rest =>
      holds session request ∧ Throughout holds (respond session request).1 rest

/-- A script whose requests are put in another form, where they are answered. -/
def rewritten (change : S → R → R) : S → List R → List R
  | _, [] => []
  | session, request :: rest =>
      change session request ::
        rewritten change (respond session request).1 rest

variable {respond}

theorem after_append (session : S) (front back : List R) :
    after respond session (front ++ back) =
      after respond (after respond session front) back := by
  induction front generalizing session with
  | nil => rfl
  | cons request front induction => exact induction _

/-- The session and the answer at a place of a script. -/
theorem getElem?_run (session : S) (script : List R) (index : Nat) :
    (run respond session script)[index]? =
      script[index]?.map
        (respond (after respond session (script.take index))) := by
  induction script generalizing session index with
  | nil => simp [run]
  | cons request rest induction =>
      cases index with
      | zero => rfl
      | succ index => exact induction _ index

/-- At a place of a run stands the answer to the request there. -/
theorem answer_at {script : List R} {index : Nat} {request : R}
    (session : S) (asked : script[index]? = some request) :
    (run respond session script)[index]?.map Prod.snd =
      some (respond (after respond session (script.take index)) request).2 := by
  rw [getElem?_run, asked]
  rfl

/-- The session at a place of a run is the one after the script up to there. -/
theorem after_take_succ {session : S} {script : List R} {index : Nat}
    {result : S × A}
    (answered : (run respond session script)[index]? = some result) :
    result.1 = after respond session (script.take (index + 1)) := by
  rw [getElem?_run, Option.map_eq_some_iff] at answered
  rcases answered with ⟨request, asked, rfl⟩
  rw [List.take_add_one, asked, after_append]
  rfl

/-- What every step leaves as it is stays so along a script. -/
theorem after_keeps {T : Type} (part : S → T)
    (kept : ∀ session request,
      part (respond session request).1 = part session)
    (session : S) (script : List R) :
    part (after respond session script) = part session := by
  induction script generalizing session with
  | nil => rfl
  | cons request rest induction =>
      exact (induction _).trans (kept session request)

/-- What holds of every step holds throughout a script. -/
theorem throughout_of_mem {holds : S → R → Prop} {session : S}
    {script : List R}
    (each : ∀ session, ∀ request ∈ script, holds session request) :
    Throughout respond holds session script := by
  induction script generalizing session with
  | nil => exact trivial
  | cons request rest induction =>
      exact ⟨each session request (by simp), induction fun session other
        member => each session other (List.mem_cons_of_mem _ member)⟩

/--
A quantity that a session has is advanced along a script by the requests that
advance it, if every request is of a kind that does so or keeps it.
-/
theorem has_after {T : Type} (has : S → T → Prop) (next : T → T)
    (advances : R → Bool) (suits : S → R → Prop)
    (step : ∀ {session request quantity}, suits session request →
      has session quantity →
        has (respond session request).1
          (if advances request then next quantity else quantity))
    {session : S} {script : List R} {quantity : T}
    (suited : Throughout respond suits session script)
    (begun : has session quantity) :
    has (after respond session script)
      (next^[script.countP advances] quantity) := by
  induction script generalizing session quantity with
  | nil => exact begun
  | cons request rest induction =>
      have onward := induction suited.2 (step suited.1 begun)
      by_cases advanced : advances request
      · rw [if_pos advanced] at onward
        rwa [List.countP_cons_of_pos advanced, Function.iterate_succ_apply]
      · rw [if_neg advanced] at onward
        rwa [List.countP_cons_of_neg advanced]

/-- Related sessions that answer alike at each step answer a script alike. -/
theorem answers_of_related (related : S → S → Prop) {change : S → R → R}
    (step : ∀ {left right : S} (request : R), related left right →
      related (respond left request).1
          (respond right (change left request)).1 ∧
        (respond right (change left request)).2 =
          (respond left request).2)
    {left right : S} (script : List R) (begun : related left right) :
    (run respond right (rewritten respond change left script)).map Prod.snd =
      (run respond left script).map Prod.snd := by
  induction script generalizing left right with
  | nil => rfl
  | cons request rest induction =>
      rcases step request begun with ⟨onward, same⟩
      simp only [run, rewritten, List.map_cons, same, induction onward]

/-! ## Readings -/

/--
How a session that began with a clock of some readings accounts for them along
every script.  Every request is answered.  After each place the clock was read
as often as requests up to there read it, and a request that does not read it
leaves it as it was.  A request that reads the clock answers as it would with
the reading as its pivot, if there is one left: the one behind those that the
requests before it took.
-/
structure ClockAccount (run : List R → List (S × A)) (clock : S → Clock)
    (readsClock : R → Bool) (asOf : Moment → R → R)
    (readings : List Moment) : Prop where
  answered : ∀ (script : List R) (index : Nat) (request : R),
    script[index]? = some request →
      ∃ result, (run script)[index]? = some result
  used : ∀ script index result, (run script)[index]? = some result →
    clock result.1 =
      ⟨readings, (script.take (index + 1)).countP readsClock⟩
  untouched : ∀ script index request result, script[index]? = some request →
    readsClock request = false → (run script)[index]? = some result →
      clock result.1 = ⟨readings, (script.take index).countP readsClock⟩
  explicit : ∀ script index request pivot,
    script[index]? = some request → readsClock request = true →
      readings[(script.take index).countP readsClock]? = some pivot →
        (run (script.set index (asOf pivot request)))[index]?.map Prod.snd =
          (run script)[index]?.map Prod.snd

/--
What the steps of a session do with its clock.  A request reads the clock once
or not at all, and all else depends on the moment that the search begins from,
be it read or given.
-/
structure Clocked (respond : S → R → S × A) (clock : S → Clock)
    (withClock : S → Clock → S) (readsClock : R → Bool)
    (mapPivot : (Option Moment → Option Moment) → R → R) : Prop where
  restored : ∀ session, withClock session (clock session) = session
  counts : ∀ session request, clock (respond session request).1 =
    ⟨(clock session).readings,
      if readsClock request then (clock session).used + 1
      else (clock session).used⟩
  shifts : ∀ {session other change},
    (∀ given, (Clock.readUnless other (change given)).1 =
      ((clock session).readUnless given).1) →
        ∀ request, ∃ used,
          respond (withClock session other) (mapPivot change request) =
            (withClock (respond session request).1 ⟨other.readings, used⟩,
              (respond session request).2)

/-- A script with the readings that the clock gives written out. -/
def pinned (respond : S → R → S × A) (clock : S → Clock)
    (mapPivot : (Option Moment → Option Moment) → R → R) :
    S → List R → List R :=
  rewritten respond fun session =>
    mapPivot fun given => given.or (clock session).upcoming

namespace Clocked

variable {clock : S → Clock} {withClock : S → Clock → S}
  {readsClock : R → Bool}
  {mapPivot : (Option Moment → Option Moment) → R → R}

/-- Along a script the clock is read as often as requests read it. -/
theorem clock_after
    (clocked : Clocked respond clock withClock readsClock mapPivot)
    (session : S) (script : List R) :
    clock (after respond session script) =
      ⟨(clock session).readings,
        (clock session).used + script.countP readsClock⟩ := by
  rw [← Nat.succ_iterate]
  refine has_after
    (fun (later : S) (used : Nat) =>
      clock later = ⟨(clock session).readings, used⟩)
    Nat.succ readsClock (fun _ _ => True) ?_
    (throughout_of_mem fun _ _ _ => trivial) rfl
  intro later request used _ same
  rw [clocked.counts, same]

/-- A step that reads the clock answers as with the reading as its pivot. -/
theorem answer_upcoming
    (clocked : Clocked respond clock withClock readsClock mapPivot)
    {session : S} {pivot : Moment}
    (next : (clock session).upcoming = some pivot) (request : R) :
    (respond session (mapPivot (·.or (some pivot)) request)).2 =
      (respond session request).2 := by
  rcases clocked.shifts (Clock.readUnless_upcoming next) request with
    ⟨used, answered⟩
  rw [clocked.restored] at answered
  rw [answered]

/-- A fresh clock is accounted for along every script. -/
theorem account
    (clocked : Clocked respond clock withClock readsClock mapPivot)
    {session : S} {readings : List Moment}
    (begun : clock session = ⟨readings, 0⟩) :
    ClockAccount (run respond session) clock readsClock
      (fun pivot => mapPivot (·.or (some pivot))) readings := by
  have account (script : List R) :
      clock (after respond session script) =
        ⟨readings, script.countP readsClock⟩ := by
    rw [clocked.clock_after, begun, Nat.zero_add]
  have used (script : List R) (index : Nat) (result : S × A)
      (answered : (run respond session script)[index]? = some result) :
      clock result.1 =
        ⟨readings, (script.take (index + 1)).countP readsClock⟩ := by
    rw [after_take_succ answered, account]
  refine ⟨?_, used, ?_, ?_⟩
  · intro script index request asked
    exact ⟨_, by rw [getElem?_run, asked, Option.map_some]⟩
  · intro script index request result asked idle answered
    rw [used _ _ _ answered, List.take_add_one, asked, List.countP_append,
      Option.toList_some, List.countP_singleton, idle]
    rfl
  · intro script index request pivot asked reads reading
    have inside := (List.getElem?_eq_some_iff.mp asked).1
    have next : (clock (after respond session (script.take index))).upcoming =
        some pivot := by
      rw [account]
      exact reading
    rw [answer_at session asked,
      answer_at session (List.getElem?_set_self inside),
      List.take_set_of_le (Nat.le_refl index), clocked.answer_upcoming next]

/-- A session answers a script as one without a clock answers it pinned. -/
theorem answers_pinned
    (clocked : Clocked respond clock withClock readsClock mapPivot)
    (session : S) (script : List R) :
    (run respond (withClock session ⟨[], 0⟩)
        (pinned respond clock mapPivot session script)).map Prod.snd =
      (run respond session script).map Prod.snd := by
  refine answers_of_related
    (fun left right => ∃ used, right = withClock left ⟨[], used⟩)
    ?_ script ⟨0, rfl⟩
  rintro left _ request ⟨used, rfl⟩
  rcases clocked.shifts ((clock left).readUnless_pinned used) request with
    ⟨later, answered⟩
  rw [answered]
  exact ⟨⟨later, rfl⟩, rfl⟩

end Clocked

end Timetable.Script
