import Timetable.Proofs.Cron.Lenient

/-!
# Field sets are canonical

The numbers of a field are kept in one form only: there is at least one, they
ascend without repetition, and they lie within the bounds of the field unless
the token lists them, since the members of a list are free
(`FieldSet.Canonical`).

A step or a range gives its numbers in ascending order as it stands; a list is
sorted by inserting its members one after the other.  `parses_canonically` says
which tokens are read, of what kind their sets are and that all of them are
canonical.  The limit is the number of members that a list can have, and wide
bounds exceed it (`parses_canonically_wide`).
-/

namespace Timetable.Cron

open Timetable.Text

/-! ## Ascending lists -/

theorem progression_ne_nil {first last : Int} (ordered : first ≤ last)
    (step : Nat) : progression first last step ≠ [] := by
  simp [progression, progressionSize, Int.not_lt.mpr ordered]

theorem pairwise_progression {first last : Int} {step : Nat}
    (positive : 0 < step) :
    (progression first last step).Pairwise (· < ·) := by
  refine List.pairwise_lt_range.map _ fun index further before => ?_
  have stepPositive : (0 : Int) < step := Int.ofNat_lt.mpr positive
  exact Int.add_lt_add_left
    (Int.mul_lt_mul_of_pos_right (Int.ofNat_lt.mpr before) stepPositive)
    first

/-- An ascending list stays ascending when a number is put into it. -/
theorem pairwise_insertOnce {value : Int} {values : List Int}
    (ascends : values.Pairwise (· < ·)) :
    (insertOnce value values).Pairwise (· < ·) := by
  induction values with
  | nil => exact List.pairwise_singleton _ _
  | cons head rest induction =>
      rcases List.pairwise_cons.mp ascends with ⟨least, restAscends⟩
      unfold insertOnce
      split
      · next before =>
          refine List.pairwise_cons.mpr ⟨?_, ascends⟩
          intro other member
          rcases List.mem_cons.mp member with rfl | inRest
          · exact before
          · exact Int.lt_trans before (least other inRest)
      split
      · exact ascends
      · next notBefore different =>
          refine List.pairwise_cons.mpr ⟨?_, induction restAscends⟩
          intro other member
          rcases mem_insertOnce.mp member with rfl | inRest
          · omega
          · exact least other inRest

theorem pairwise_ascending (values : List Int) :
    (ascending values).Pairwise (· < ·) := by
  unfold ascending
  induction values with
  | nil => exact .nil
  | cons value rest induction => exact pairwise_insertOnce induction

theorem ascending_ne_nil {values : List Int} (inhabited : values ≠ []) :
    ascending values ≠ [] := by
  rcases List.exists_mem_of_ne_nil values inhabited with ⟨value, member⟩
  exact List.ne_nil_of_mem (mem_ascending.mpr member)

/-! ## Canonical sets -/

/--
The set of a field has a number, its numbers ascend strictly, and they lie within
the bounds unless they were listed.
-/
structure FieldSet.Canonical (bounds : Bounds) (set : FieldSet) : Prop where
  inhabited : set.values ≠ []
  ascends : set.values.Pairwise (· < ·)
  inside : set.kind ≠ .list → ∀ value ∈ set.values, bounds.Contains value

theorem canonical_progression {bounds : Bounds} {first last : Int}
    {step : Nat} (kind : FieldKind) (lower : bounds.low ≤ first)
    (ordered : first ≤ last) (upper : last ≤ bounds.high)
    (positive : 0 < step) :
    FieldSet.Canonical bounds ⟨kind, progression first last step⟩ where
  inhabited := progression_ne_nil ordered step
  ascends := pairwise_progression positive
  inside := by
    intro _ value member
    rcases (mem_progression positive).mp member with ⟨begun, ended, -⟩
    exact ⟨Int.le_trans lower begun, Int.le_trans ended upper⟩

/-- Whatever is written in a field has a canonical set. -/
theorem Writes.canonical {bounds : Bounds} {token : List Char}
    {term : FieldTerm} (writes : Writes bounds token term)
    (ordered : bounds.low ≤ bounds.high) :
    (FieldSet.ofTerm bounds term).Canonical bounds := by
  rcases writes with ⟨spells, proper, inside⟩
  cases spells with
  | any =>
      exact canonical_progression _ (Int.le_refl _) ordered (Int.le_refl _)
        Nat.one_pos
  | @single text value denotes =>
      refine ⟨List.cons_ne_nil _ _, List.pairwise_singleton _ _, ?_⟩
      intro _ member inSet
      obtain rfl := List.mem_singleton.mp inSet
      exact inside
  | range firstDenotes lastDenotes =>
      exact canonical_progression _ inside.1.1 (Int.ofNat_le.mpr proper)
        inside.2.2 Nat.one_pos
  | @members texts values several each =>
      have inhabited : values.map Int.ofNat ≠ [] := by
        rw [each.length_eq] at several
        rw [← List.length_pos_iff, List.length_map]
        omega
      exact ⟨ascending_ne_nil inhabited, pairwise_ascending _,
        fun listed => absurd rfl listed⟩
  | anyStep stepDenotes =>
      exact canonical_progression _ (Int.le_refl _) ordered (Int.le_refl _)
        proper
  | fromStep firstDenotes stepDenotes =>
      exact canonical_progression _ inside.1 inside.2 (Int.le_refl _) proper
  | rangeStep firstDenotes lastDenotes stepDenotes =>
      exact canonical_progression _ inside.1.1
        (Int.ofNat_le.mpr proper.1) inside.2.2 proper.2

namespace FieldSet

/--
A token without long runs of digits is read exactly if a term is written there,
unless that counts up too many numbers or the bounds are needed for a message
and cannot be written.  The set that is read is canonical and has the kind of
the term, which is the only one that the token can be read as.
-/
theorem parses_canonically {bounds : Bounds} {token : String}
    (ordered : bounds.low ≤ bounds.high) (short : ShortRuns token.toList) :
    (Overflows bounds token.toList →
      parse? bounds token = .error .tooManyNumbers) ∧
    (¬ Overflows bounds token.toList → ¬ Unwritable bounds token.toList →
      ∃ found, parse? bounds token = .ok found ∧
        (found.isSome = true ↔ ∃ term, Writes bounds token.toList term) ∧
        ∀ set ∈ found, set.Canonical bounds ∧
          ∃ term, Writes bounds token.toList term ∧ set.kind = term.kind ∧
            ∀ other, Writes bounds token.toList other → other = term) := by
  have answers := answers_parse? bounds token
  have flows := not_stalls_of_shortRuns short
  refine ⟨answers.tooMany flows, fun fits writable => ?_⟩
  rcases answers.found flows writable fits with ⟨found, answered, written, -⟩
  refine ⟨found, answered, written, ?_⟩
  rintro set ⟨⟩
  rcases writes_of_parse (parse?_eq_some_iff.mp answered) with
    ⟨term, writes, -, rfl⟩
  exact ⟨writes.canonical ordered, term, writes, rfl,
    fun other otherWrites => otherWrites.unique short writes⟩

/-- Bounds with more numbers between them than a set can have. -/
def wideField : Bounds := ⟨"field", 0, 9223372036854775808⟩

theorem overflows_wideField : Overflows wideField "*".toList :=
  ⟨.any, ⟨.any, trivial, trivial⟩, by decide⟩

theorem parses_canonically_quarters :
    fieldBounds.minute.low ≤ fieldBounds.minute.high ∧
    ShortRuns "10-50/15".toList ∧
    ¬ Overflows fieldBounds.minute "10-50/15".toList ∧
    ¬ Unwritable fieldBounds.minute "10-50/15".toList ∧
    FieldSet.Canonical fieldBounds.minute ⟨.step, [10, 25, 40]⟩ ∧
    (∃ term, Writes fieldBounds.minute "10-50/15".toList term ∧
      term.kind = .step) ∧
    wideField.low ≤ wideField.high ∧ ShortRuns "*".toList ∧
    Overflows wideField "*".toList ∧
    parse? wideField "*" = .error .tooManyNumbers := by
  have ordered : fieldBounds.minute.low ≤ fieldBounds.minute.high := by
    decide
  have short : ShortRuns "10-50/15".toList :=
    shortRuns_of_length_le (by decide)
  have ordinary : Ordinary fieldBounds.minute :=
    ordinary_of_mem_fieldBounds (by decide)
  rcases ordinary.answerable "10-50/15".toList with ⟨writable, fits⟩
  have read : parse? fieldBounds.minute "10-50/15" =
      .ok (some ⟨.step, [10, 25, 40]⟩) := by
    decide
  rcases (parses_canonically ordered short).2 fits writable with
    ⟨found, answered, -, canonical⟩
  rw [read] at answered
  cases answered
  rcases canonical _ rfl with ⟨isCanonical, term, writes, kind, -⟩
  have wide : wideField.low ≤ wideField.high := by decide
  have starShort : ShortRuns "*".toList := shortRuns_of_length_le (by decide)
  exact ⟨ordered, short, fits, writable, isCanonical,
    ⟨term, writes, kind.symm⟩, wide, starShort, overflows_wideField,
    (parses_canonically wide starShort).1 overflows_wideField⟩

/-- What is written in a field need not be read. -/
theorem parses_canonically_wide :
    wideField.low ≤ wideField.high ∧ ShortRuns "*".toList ∧
    (∃ term, Writes wideField "*".toList term) ∧
    ¬ ∃ found, parse? wideField "*" = .ok found := by
  refine ⟨by decide, shortRuns_of_length_le (by decide),
    ⟨.any, .any, trivial, trivial⟩, ?_⟩
  rintro ⟨found, answered⟩
  have faults : parse? wideField "*" = .error .tooManyNumbers := by decide
  rw [faults] at answered
  cases answered

end FieldSet

end Timetable.Cron
