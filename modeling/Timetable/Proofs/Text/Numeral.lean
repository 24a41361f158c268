import Timetable.Text.Numeral
import Mathlib.Data.Nat.Digits.Defs

/-!
# What a numeral denotes

`Denotes` is the decimal notation: at least one digit, the last of them worth
its value and every other ten times what it is worth one place further to the
right.  A numeral is read as what it denotes unless it is longer than the limit.
-/

namespace Timetable.Text

/-- A text of decimal digits denotes a natural. -/
def Denotes (text : List Char) (value : Nat) : Prop :=
  text ≠ [] ∧ (∀ char ∈ text, char.isDigit = true) ∧
    value = Nat.ofDigits 10 (text.reverse.map digitValue)

/-- No run of digits in a text is too long to be converted. -/
def ShortRuns (text : List Char) : Prop :=
  ∀ run, run <:+: text → (∀ char ∈ run, char.isDigit = true) →
    run.length ≤ numeralLimit

theorem ShortRuns.of_infix {part text : List Char} (short : ShortRuns text)
    (inside : part <:+: text) : ShortRuns part := by
  intro run runInside digits
  exact short run (runInside.trans inside) digits

theorem ShortRuns.left {before after : List Char}
    (short : ShortRuns (before ++ after)) : ShortRuns before :=
  short.of_infix (List.prefix_append before after).isInfix

theorem ShortRuns.right {before after : List Char} {mark : Char}
    (short : ShortRuns (before ++ mark :: after)) : ShortRuns after :=
  short.of_infix ⟨before ++ [mark], [], by simp⟩

theorem shortRuns_of_length_le {text : List Char}
    (bound : text.length ≤ numeralLimit) : ShortRuns text := by
  intro run inside _
  exact Nat.le_trans inside.length_le bound

theorem shortRuns_nil : ShortRuns [] :=
  shortRuns_of_length_le (Nat.zero_le _)

/-- A run of digits does not reach across a mark. -/
theorem ShortRuns.append {before after : List Char} {mark : Char}
    (noDigit : mark.isDigit = false) (short : ShortRuns before)
    (shortAfter : ShortRuns after) :
    ShortRuns (before ++ mark :: after) := by
  rintro run ⟨left, right, split⟩ digits
  have absent : mark ∉ run := by
    intro member
    rw [digits mark member] at noDigit
    cases noDigit
  rcases List.append_eq_append_iff.mp split with
    ⟨rest, beforeEq, -⟩ | ⟨rest, through, afterEq⟩
  · exact short run ⟨left, rest, beforeEq.symm⟩ digits
  rcases List.append_eq_append_iff.mp through with
    ⟨part, -, runEq⟩ | ⟨part, -, restEq⟩
  · cases rest with
    | nil =>
        rw [List.append_nil] at through
        exact short run ⟨left, [], by rw [List.append_nil, through]⟩ digits
    | cons char rest =>
        cases afterEq
        exact absurd (by simp [runEq]) absent
  · cases part with
    | nil =>
        cases rest with
        | nil =>
            obtain rfl : [] = run := restEq
            exact Nat.zero_le _
        | cons char rest =>
            cases afterEq
            obtain rfl : mark :: rest = run := restEq
            exact absurd (by simp) absent
    | cons char part =>
        subst restEq
        cases afterEq
        exact shortAfter run ⟨part, right, rfl⟩ digits

theorem valueOfDigits_eq (digits : List Char) :
    valueOfDigits digits =
      Nat.ofDigits 10 (digits.reverse.map digitValue) := by
  rw [valueOfDigits, List.foldl_eq_foldr_reverse, Nat.ofDigits_eq_foldr,
    List.foldr_map]
  congr 1
  funext digit value
  exact Nat.add_comm _ _

theorem isNumeral_iff {text : List Char} :
    isNumeral text = true ↔
      text ≠ [] ∧ ∀ char ∈ text, char.isDigit = true := by
  simp [isNumeral]

theorem readNumeral_eq_ok_iff {text : List Char} {value : Nat} :
    readNumeral text = .ok value ↔
      Denotes text value ∧ text.length ≤ numeralLimit := by
  simp only [readNumeral, convertDigits, isNumeral_iff, Denotes,
    valueOfDigits_eq]
  split
  · next numeral =>
      split
      · next long =>
          simp only [reduceCtorEq, false_iff, not_and]
          intro _
          omega
      · next short =>
          rw [Except.ok.injEq]
          constructor
          · rintro rfl
            exact ⟨⟨numeral.1, numeral.2, rfl⟩, by omega⟩
          · rintro ⟨denotes, _⟩
            exact denotes.2.2.symm
  · next malformed =>
      simp only [reduceCtorEq, false_iff, not_and]
      intro denotes
      exact absurd ⟨denotes.1, denotes.2.1⟩ malformed

/-- A text is a numeral of too many digits. -/
def Overlong (text : List Char) : Prop :=
  numeralLimit < text.length ∧ ∃ value, Denotes text value

theorem readNumeral_eq_tooLong_iff {text : List Char} :
    readNumeral text = .error .tooLong ↔ Overlong text := by
  have denoted : (∃ value, Denotes text value) ↔
      isNumeral text = true := by
    rw [isNumeral_iff]
    exact ⟨fun ⟨_, notEmpty, digits, _⟩ => ⟨notEmpty, digits⟩,
      fun ⟨notEmpty, digits⟩ => ⟨_, notEmpty, digits, rfl⟩⟩
  rw [Overlong, denoted, readNumeral, convertDigits]
  split
  · next numeral => split <;> simp_all
  · next malformed => simp [malformed]

/-- A numeral without a long run of digits is always converted. -/
theorem readNumeral_ne_tooLong {text : List Char} (short : ShortRuns text) :
    readNumeral text ≠ .error .tooLong := by
  simp only [readNumeral, convertDigits, isNumeral_iff]
  split
  · next numeral =>
      have bound := short text (List.infix_refl text) numeral.2
      rw [if_neg (by omega)]
      simp
  · simp

theorem ShortRuns.readNumeral_eq_ok_iff {text : List Char} {value : Nat}
    (short : ShortRuns text) :
    readNumeral text = .ok value ↔ Denotes text value := by
  rw [Text.readNumeral_eq_ok_iff]
  constructor
  · exact And.left
  · intro denotes
    exact ⟨denotes, short text (List.infix_refl text) denotes.2.1⟩

/-- A character that is no digit does not occur in a numeral. -/
theorem Denotes.not_mem {text : List Char} {value : Nat} {mark : Char}
    (denotes : Denotes text value) (noDigit : mark.isDigit = false) :
    mark ∉ text := by
  intro member
  rw [denotes.2.1 mark member] at noDigit
  cases noDigit

/-! ## Numbers that can be written -/

/-- The least number that is too long to be written. -/
@[irreducible]
def leastOverlong : Nat := Nat.pow 10 numeralLimit

theorem lt_leastOverlong {number : Nat} (small : number < 100) :
    number < leastOverlong := by
  have grows : ∀ limit, 2 ≤ limit → Nat.pow 10 2 ≤ Nat.pow 10 limit :=
    fun _ => Nat.pow_le_pow_right (by decide)
  have twoDigits := grows numeralLimit (by decide)
  have hundred : Nat.pow 10 2 = 100 := rfl
  -- The power must not be evaluated, so the definition is only unfolded.
  delta leastOverlong
  omega

theorem overlong_eq (number : Int) :
    overlong number = decide (leastOverlong ≤ number.natAbs) := by
  delta overlong leastOverlong
  rfl

theorem overlong_of_twoDigits {number : Int} (small : number.natAbs < 100) :
    overlong number = false := by
  have less := lt_leastOverlong small
  rw [overlong_eq]
  exact decide_eq_false (Nat.not_le.mpr less)

theorem overlong_leastOverlong : overlong leastOverlong = true := by
  simp only [overlong_eq, Int.natAbs_natCast, Nat.le_refl, decide_true]

@[simp]
theorem overlong_neg (number : Int) : overlong (-number) = overlong number := by
  rw [overlong_eq, overlong_eq, Int.natAbs_neg]

end Timetable.Text
