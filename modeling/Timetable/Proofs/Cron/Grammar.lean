import Timetable.Cron.FieldSet
import Timetable.Proofs.Outcome
import Timetable.Proofs.Text.Numeral
import Timetable.Proofs.Text.Pieces

/-!
# The grammar of a field

`Spells` lists the written forms of a term, `FieldTerm.Proper` what must hold
between its numbers, and `FieldTerm.Inside` which of them the bounds of the
field restrict.  A token is read as a term exactly if all three hold, whatever
branch of the reading sees it first; `Writes.unique` says that no token can be
read in two ways.

Numbers with too many digits are left out: every statement that a token can be
read asks for `ShortRuns`.  What is read has a set unless it counts up more
numbers than a list can have (`FieldTerm.Fits`).
-/

namespace Timetable.Cron

open Timetable.Text

/-- The written forms of a term. -/
inductive Spells : List Char → FieldTerm → Prop where
  | any : Spells ['*'] .any
  | single {text : List Char} {value : Nat} (denotes : Denotes text value) :
      Spells text (.single value)
  | range {firstText lastText : List Char} {first last : Nat}
      (firstDenotes : Denotes firstText first)
      (lastDenotes : Denotes lastText last) :
      Spells (firstText ++ '-' :: lastText) (.range first last)
  | members {texts : List (List Char)} {values : List Nat}
      (several : 2 ≤ texts.length)
      (each : List.Forall₂ Denotes texts values) :
      Spells (joinBy [','] texts) (.members values)
  | anyStep {stepText : List Char} {step : Nat}
      (stepDenotes : Denotes stepText step) :
      Spells (['*'] ++ '/' :: stepText) (.anyStep step)
  | fromStep {firstText stepText : List Char} {first step : Nat}
      (firstDenotes : Denotes firstText first)
      (stepDenotes : Denotes stepText step) :
      Spells (firstText ++ '/' :: stepText) (.fromStep first step)
  | rangeStep {firstText lastText stepText : List Char}
      {first last step : Nat}
      (firstDenotes : Denotes firstText first)
      (lastDenotes : Denotes lastText last)
      (stepDenotes : Denotes stepText step) :
      Spells ((firstText ++ '-' :: lastText) ++ '/' :: stepText)
        (.rangeStep first last step)

/-- No range ends before it begins, and no step is zero. -/
def FieldTerm.Proper : FieldTerm → Prop
  | .any => True
  | .single _ => True
  | .range first last => first ≤ last
  | .members _ => True
  | .anyStep step => 0 < step
  | .fromStep _ step => 0 < step
  | .rangeStep first last step => first ≤ last ∧ 0 < step

/-- Numbers and the ends of ranges lie within the bounds; members are free. -/
def FieldTerm.Inside (bounds : Bounds) : FieldTerm → Prop
  | .any => True
  | .single value => bounds.Contains value
  | .range first last => bounds.Contains first ∧ bounds.Contains last
  | .members _ => True
  | .anyStep _ => True
  | .fromStep first _ => bounds.Contains first
  | .rangeStep first last _ => bounds.Contains first ∧ bounds.Contains last

/-- A token is a proper term, written for a field with the given bounds. -/
structure Writes (bounds : Bounds) (token : List Char) (term : FieldTerm) :
    Prop where
  spells : Spells token term
  proper : term.Proper
  inside : term.Inside bounds

/-- A term does not count up more numbers than a list can have. -/
def FieldTerm.Fits (bounds : Bounds) (term : FieldTerm) : Prop :=
  term.rangeSize bounds ≤ sizeLimit

/-! ## Errors that a text spares -/

/--
Reading a text does not end in an error: the numbers of the text are not too
long, or the error is none of reading.
-/
def FieldError.Spares : FieldError → List Char → Prop
  | .tooLong, text => ShortRuns text
  | .outOfBounds _, _ => True
  | .tooMany, _ => True
  | .malformed _, _ => False
  | .zeroStep _, _ => False
  | .reversed _ _ _, _ => False

namespace FieldError.Spares

variable {failure : FieldError}

theorem of_infix {part text : List Char} (spared : failure.Spares text)
    (inside : part <:+: text) : failure.Spares part := by
  cases failure with
  | tooLong => exact ShortRuns.of_infix spared inside
  | outOfBounds value => trivial
  | tooMany => trivial
  | malformed written => exact spared
  | zeroStep token => exact spared
  | reversed first last written => exact spared

theorem left {before after : List Char}
    (spared : failure.Spares (before ++ after)) : failure.Spares before :=
  spared.of_infix (List.prefix_append before after).isInfix

theorem right {before after : List Char} {mark : Char}
    (spared : failure.Spares (before ++ mark :: after)) :
    failure.Spares after :=
  spared.of_infix ⟨before ++ [mark], [], by simp⟩

end FieldError.Spares

/-! ## Numbers and ranges -/

theorem denotes_of_fieldNumber {text : List Char} {value : Nat}
    (read : fieldNumber text = .ok value) : Denotes text value := by
  unfold fieldNumber at read
  split at read
  · next readAs =>
      cases read
      exact (readNumeral_eq_ok_iff.mp readAs).1
  · cases read
  · cases read

theorem fieldNumber_of_denotes {text : List Char} {value : Nat}
    (short : ShortRuns text) (denotes : Denotes text value) :
    fieldNumber text = .ok value := by
  rw [fieldNumber, short.readNumeral_eq_ok_iff.mpr denotes]

theorem fieldNumber_ne_error {text : List Char} {failure : FieldError}
    (spared : failure.Spares text) : fieldNumber text ≠ .error failure := by
  unfold fieldNumber
  split
  · simp
  · rintro ⟨⟩
    exact spared
  · next failed =>
      rintro ⟨⟩
      exact readNumeral_ne_tooLong spared failed

theorem denotes_of_fieldRange {written firstText lastText : List Char}
    {first last : Nat}
    (read : fieldRange written firstText lastText = .ok (first, last)) :
    Denotes firstText first ∧ Denotes lastText last ∧ first ≤ last := by
  rcases bind_eq_ok_iff.mp read with ⟨firstRead, readFirst, read⟩
  rcases bind_eq_ok_iff.mp read with ⟨lastRead, readLast, read⟩
  split at read
  · cases read
  · next ordered =>
      cases read
      exact ⟨denotes_of_fieldNumber readFirst,
        denotes_of_fieldNumber readLast, Nat.le_of_not_lt ordered⟩

theorem fieldRange_of_denotes {written firstText lastText : List Char}
    {first last : Nat} (firstShort : ShortRuns firstText)
    (lastShort : ShortRuns lastText) (firstDenotes : Denotes firstText first)
    (lastDenotes : Denotes lastText last) (ordered : first ≤ last) :
    fieldRange written firstText lastText = .ok (first, last) := by
  refine bind_eq_ok_iff.mpr
    ⟨first, fieldNumber_of_denotes firstShort firstDenotes, ?_⟩
  refine bind_eq_ok_iff.mpr
    ⟨last, fieldNumber_of_denotes lastShort lastDenotes, ?_⟩
  rw [if_neg (Nat.not_lt.mpr ordered)]

theorem fieldRange_ne_error {written firstText lastText : List Char}
    {failure : FieldError} (firstSpared : failure.Spares firstText)
    (lastSpared : failure.Spares lastText) :
    fieldRange written firstText lastText ≠ .error failure := by
  apply bind_ne_error
  · exact fieldNumber_ne_error firstSpared
  intro first
  apply bind_ne_error
  · exact fieldNumber_ne_error lastSpared
  intro last
  split
  · rintro ⟨⟩
    exact lastSpared
  · simp

/-! ## Marks of a token -/

theorem ne_star_of_mem {token : List Char} {mark : Char}
    (occurs : mark ∈ token) (different : mark ≠ '*') : token ≠ ['*'] := by
  rintro rfl
  exact different (List.mem_singleton.mp occurs)

theorem ne_star_of_denotes {text : List Char} {value : Nat}
    (denotes : Denotes text value) : text ≠ ['*'] := by
  rintro rfl
  exact denotes.not_mem (by decide : Char.isDigit '*' = false) (by simp)

theorem range_ne_star (firstText lastText : List Char) :
    firstText ++ '-' :: lastText ≠ ['*'] :=
  ne_star_of_mem (by simp : '-' ∈ _) (by decide)

theorem not_mem_range {firstText lastText : List Char} {first last : Nat}
    {mark : Char} (firstDenotes : Denotes firstText first)
    (lastDenotes : Denotes lastText last) (noDigit : mark.isDigit = false)
    (notDash : mark ≠ '-') : mark ∉ firstText ++ '-' :: lastText := by
  simp [firstDenotes.not_mem noDigit, lastDenotes.not_mem noDigit, notDash]

theorem not_mem_members {texts : List (List Char)} {values : List Nat}
    {mark : Char} (each : List.Forall₂ Denotes texts values)
    (noDigit : mark.isDigit = false) : ∀ text ∈ texts, mark ∉ text := by
  induction each with
  | nil => simp
  | cons denotes _ induction =>
      intro text member
      rcases List.mem_cons.mp member with rfl | member
      · exact denotes.not_mem noDigit
      · exact induction text member

/-! ## Reading a token -/

namespace FieldTerm

theorem spells_of_parseStepped {token base stepText : List Char}
    {term : FieldTerm}
    (read : parseStepped token base stepText = .ok term) :
    Spells (base ++ '/' :: stepText) term ∧ term.Proper := by
  rcases bind_eq_ok_iff.mp read with ⟨step, readStep, read⟩
  have stepDenotes := denotes_of_fieldNumber readStep
  split at read
  · cases read
  next stepPositive =>
  split at read
  · next baseStar =>
      cases read
      subst baseStar
      exact ⟨.anyStep stepDenotes, Nat.pos_of_ne_zero stepPositive⟩
  next baseNumbers =>
  split at read
  · next firstText lastText dash =>
      rcases bind_eq_ok_iff.mp read with ⟨⟨first, last⟩, readRange, read⟩
      cases read
      rcases cut_eq_some_iff.mp dash with ⟨rfl, -⟩
      rcases denotes_of_fieldRange readRange with
        ⟨firstDenotes, lastDenotes, ordered⟩
      exact ⟨.rangeStep firstDenotes lastDenotes stepDenotes, ordered,
        Nat.pos_of_ne_zero stepPositive⟩
  · rcases bind_eq_ok_iff.mp read with ⟨first, readFirst, read⟩
    cases read
    exact ⟨.fromStep (denotes_of_fieldNumber readFirst) stepDenotes,
      Nat.pos_of_ne_zero stepPositive⟩

theorem spells_of_parsePlain {token : List Char} {term : FieldTerm}
    (read : parsePlain token = .ok term) :
    Spells token term ∧ term.Proper := by
  unfold parsePlain at read
  split at read
  · next firstText lastText dash =>
      rcases bind_eq_ok_iff.mp read with ⟨⟨first, last⟩, readRange, read⟩
      cases read
      rcases cut_eq_some_iff.mp dash with ⟨rfl, -⟩
      rcases denotes_of_fieldRange readRange with
        ⟨firstDenotes, lastDenotes, ordered⟩
      exact ⟨.range firstDenotes lastDenotes, ordered⟩
  split at read
  · next comma =>
      rcases bind_eq_ok_iff.mp read with ⟨values, readEach, read⟩
      cases read
      have each := mapM_eq_ok_iff.mp readEach
      have joined := (joinBy_pieces ',' token).2.1
      rw [← joined]
      refine ⟨.members (two_le_length_pieces ?_) ?_, trivial⟩
      · simpa using comma
      · exact each.imp fun _ _ readOne => denotes_of_fieldNumber readOne
  · rcases bind_eq_ok_iff.mp read with ⟨value, readValue, read⟩
    cases read
    exact ⟨.single (denotes_of_fieldNumber readValue), trivial⟩

/-- A token is only ever read as a term that it spells. -/
theorem spells_of_parse {token : List Char} {term : FieldTerm}
    (read : parse token = .ok term) : Spells token term ∧ term.Proper := by
  unfold parse at read
  split at read
  · next star =>
      cases read
      subst star
      exact ⟨.any, trivial⟩
  split at read
  · next base stepText slash =>
      rcases cut_eq_some_iff.mp slash with ⟨rfl, -⟩
      exact spells_of_parseStepped read
  · exact spells_of_parsePlain read

theorem parse_of_slash {base stepText : List Char}
    (noSlash : '/' ∉ base) :
    parse (base ++ '/' :: stepText) =
      parseStepped (base ++ '/' :: stepText) base stepText := by
  have notStar : base ++ '/' :: stepText ≠ ['*'] :=
    ne_star_of_mem (by simp : '/' ∈ _) (by decide)
  rw [parse, if_neg notStar, cut_append noSlash]

theorem parse_of_no_slash {token : List Char} (notStar : token ≠ ['*'])
    (noSlash : '/' ∉ token) : parse token = parsePlain token := by
  rw [parse, if_neg notStar, cut_eq_none_iff.mpr noSlash]

theorem parse_single {text : List Char} {value : Nat}
    (short : ShortRuns text) (denotes : Denotes text value) :
    parse text = .ok (.single value) := by
  have noComma : text.contains ',' = false := by
    simpa using denotes.not_mem (by decide : Char.isDigit ',' = false)
  rw [parse_of_no_slash (ne_star_of_denotes denotes)
      (denotes.not_mem (by decide)),
    parsePlain, cut_eq_none_iff.mpr (denotes.not_mem (by decide)), noComma]
  exact bind_eq_ok_iff.mpr ⟨value, fieldNumber_of_denotes short denotes, rfl⟩

theorem parse_range {firstText lastText : List Char} {first last : Nat}
    (short : ShortRuns (firstText ++ '-' :: lastText))
    (firstDenotes : Denotes firstText first)
    (lastDenotes : Denotes lastText last) (ordered : first ≤ last) :
    parse (firstText ++ '-' :: lastText) = .ok (.range first last) := by
  rw [parse_of_no_slash (range_ne_star firstText lastText)
      (not_mem_range firstDenotes lastDenotes (by decide) (by decide)),
    parsePlain, cut_append (firstDenotes.not_mem (by decide))]
  refine bind_eq_ok_iff.mpr ⟨(first, last), ?_, rfl⟩
  exact fieldRange_of_denotes short.left short.right firstDenotes lastDenotes
    ordered

theorem parse_members {texts : List (List Char)} {values : List Nat}
    (short : ShortRuns (joinBy [','] texts)) (several : 2 ≤ texts.length)
    (each : List.Forall₂ Denotes texts values) :
    parse (joinBy [','] texts) = .ok (.members values) := by
  have comma : ',' ∈ joinBy [','] texts := mem_joinBy several
  have noSlash : '/' ∉ joinBy [','] texts :=
    not_mem_joinBy (by decide) (not_mem_members each (by decide))
  have noDash : '-' ∉ joinBy [','] texts :=
    not_mem_joinBy (by decide) (not_mem_members each (by decide))
  have split : pieces ',' (joinBy [','] texts) = texts := by
    refine pieces_joinBy ?_ (not_mem_members each (by decide))
    rintro rfl
    simp at several
  have shortDenotes : List.Forall₂
      (fun text value => ShortRuns text ∧ Denotes text value)
      texts values := by
    refine (List.forall₂_and_left texts values).mpr ⟨?_, each⟩
    intro text member
    exact short.of_infix (infix_of_mem_joinBy member)
  rw [parse_of_no_slash (ne_star_of_mem comma (by decide)) noSlash,
    parsePlain, cut_eq_none_iff.mpr noDash,
    if_pos (List.contains_iff_mem.mpr comma), split]
  refine bind_eq_ok_iff.mpr ⟨values, mapM_eq_ok_iff.mpr ?_, rfl⟩
  exact shortDenotes.imp fun text value both =>
    fieldNumber_of_denotes both.1 both.2

theorem parse_anyStep {stepText : List Char} {step : Nat}
    (short : ShortRuns stepText) (stepDenotes : Denotes stepText step)
    (positive : 0 < step) :
    parse (['*'] ++ '/' :: stepText) = .ok (.anyStep step) := by
  rw [parse_of_slash (by decide)]
  refine bind_eq_ok_iff.mpr
    ⟨step, fieldNumber_of_denotes short stepDenotes, ?_⟩
  rw [if_neg (Nat.pos_iff_ne_zero.mp positive), if_pos rfl]

theorem parse_fromStep {firstText stepText : List Char} {first step : Nat}
    (short : ShortRuns (firstText ++ '/' :: stepText))
    (firstDenotes : Denotes firstText first)
    (stepDenotes : Denotes stepText step) (positive : 0 < step) :
    parse (firstText ++ '/' :: stepText) = .ok (.fromStep first step) := by
  rw [parse_of_slash (firstDenotes.not_mem (by decide))]
  refine bind_eq_ok_iff.mpr
    ⟨step, fieldNumber_of_denotes short.right stepDenotes, ?_⟩
  rw [if_neg (Nat.pos_iff_ne_zero.mp positive),
    if_neg (ne_star_of_denotes firstDenotes),
    cut_eq_none_iff.mpr (firstDenotes.not_mem (by decide))]
  exact bind_eq_ok_iff.mpr
    ⟨first, fieldNumber_of_denotes short.left firstDenotes, rfl⟩

theorem parse_rangeStep {firstText lastText stepText : List Char}
    {first last step : Nat}
    (short :
      ShortRuns ((firstText ++ '-' :: lastText) ++ '/' :: stepText))
    (firstDenotes : Denotes firstText first)
    (lastDenotes : Denotes lastText last)
    (stepDenotes : Denotes stepText step) (ordered : first ≤ last)
    (positive : 0 < step) :
    parse ((firstText ++ '-' :: lastText) ++ '/' :: stepText) =
      .ok (.rangeStep first last step) := by
  rw [parse_of_slash
    (not_mem_range firstDenotes lastDenotes (by decide) (by decide))]
  refine bind_eq_ok_iff.mpr
    ⟨step, fieldNumber_of_denotes short.right stepDenotes, ?_⟩
  rw [if_neg (Nat.pos_iff_ne_zero.mp positive),
    if_neg (range_ne_star firstText lastText),
    cut_append (firstDenotes.not_mem (by decide))]
  refine bind_eq_ok_iff.mpr ⟨(first, last), ?_, rfl⟩
  exact fieldRange_of_denotes short.left.left short.left.right firstDenotes
    lastDenotes ordered

/-- Whatever a token spells is read, if what it spells is proper. -/
theorem parse_of_spells {token : List Char} {term : FieldTerm}
    (short : ShortRuns token) (spells : Spells token term)
    (proper : term.Proper) : parse token = .ok term := by
  cases spells with
  | any => rw [parse, if_pos rfl]
  | single denotes => exact parse_single short denotes
  | range firstDenotes lastDenotes =>
      exact parse_range short firstDenotes lastDenotes proper
  | members several each => exact parse_members short several each
  | anyStep stepDenotes =>
      exact parse_anyStep short.right stepDenotes proper
  | fromStep firstDenotes stepDenotes =>
      exact parse_fromStep short firstDenotes stepDenotes proper
  | rangeStep firstDenotes lastDenotes stepDenotes =>
      exact parse_rangeStep short firstDenotes lastDenotes stepDenotes
        proper.1 proper.2

theorem parseStepped_ne_error {token base stepText : List Char}
    {failure : FieldError} (baseSpared : failure.Spares base)
    (stepSpared : failure.Spares stepText) :
    parseStepped token base stepText ≠ .error failure := by
  apply bind_ne_error
  · exact fieldNumber_ne_error stepSpared
  intro step
  split
  · rintro ⟨⟩
    exact stepSpared
  split
  · simp
  split
  · next firstText lastText dash =>
      rcases cut_eq_some_iff.mp dash with ⟨rfl, -⟩
      refine bind_ne_error
        (fieldRange_ne_error baseSpared.left baseSpared.right) ?_
      simp
  · refine bind_ne_error (fieldNumber_ne_error baseSpared) ?_
    simp

theorem parsePlain_ne_error {token : List Char} {failure : FieldError}
    (spared : failure.Spares token) : parsePlain token ≠ .error failure := by
  unfold parsePlain
  split
  · next firstText lastText dash =>
      rcases cut_eq_some_iff.mp dash with ⟨rfl, -⟩
      refine bind_ne_error
        (fieldRange_ne_error spared.left spared.right) ?_
      simp
  split
  · refine bind_ne_error (mapM_ne_error ?_) ?_
    · intro piece member
      rw [← (joinBy_pieces ',' token).2.1] at spared
      exact fieldNumber_ne_error
        (spared.of_infix (infix_of_mem_joinBy member))
    · simp
  · refine bind_ne_error (fieldNumber_ne_error spared) ?_
    simp

/-- Reading a token ends in no error that the token spares. -/
theorem parse_ne_error {token : List Char} {failure : FieldError}
    (spared : failure.Spares token) : parse token ≠ .error failure := by
  unfold parse
  split
  · simp
  split
  · next base stepText slash =>
      rcases cut_eq_some_iff.mp slash with ⟨rfl, -⟩
      exact parseStepped_ne_error spared.left spared.right
  · exact parsePlain_ne_error spared

theorem parse_ne_tooLong {token : List Char} (short : ShortRuns token) :
    parse token ≠ .error .tooLong :=
  parse_ne_error (show FieldError.Spares .tooLong token from short)

theorem parse_ne_tooMany {token : List Char} :
    parse token ≠ .error .tooMany :=
  parse_ne_error (show FieldError.Spares .tooMany token from trivial)

/-! ## The bounds of a field -/

theorem checkNumber_eq_ok_iff {bounds : Bounds} {value : Nat}
    {result : Unit} :
    checkNumber bounds value = .ok result ↔ bounds.Contains value := by
  simp [checkNumber]

theorem eq_outOfBounds_of_checkNumber {bounds : Bounds} {value : Nat}
    {failure : FieldError}
    (failed : checkNumber bounds value = .error failure) :
    failure = .outOfBounds value := by
  unfold checkNumber at failed
  split at failed
  · cases failed
  · cases failed
    rfl

theorem check_eq_ok_iff {bounds : Bounds} {term : FieldTerm}
    {result : Unit} :
    term.check bounds = .ok result ↔ term.Inside bounds := by
  cases term <;>
    simp [check, Inside, checkNumber_eq_ok_iff, bind_eq_ok_iff]

/-- The check only ever says that a number is out of bounds. -/
theorem exists_outOfBounds_of_check {bounds : Bounds} {term : FieldTerm}
    {failure : FieldError} (failed : term.check bounds = .error failure) :
    ∃ value, failure = .outOfBounds value := by
  have both (first last : Nat)
      (failed : (checkNumber bounds first >>= fun _ =>
        checkNumber bounds last) = .error failure) :
      ∃ value, failure = .outOfBounds value := by
    rcases bind_eq_error_iff.mp failed with failed | ⟨_, -, failed⟩
    · exact ⟨first, eq_outOfBounds_of_checkNumber failed⟩
    · exact ⟨last, eq_outOfBounds_of_checkNumber failed⟩
  cases term with
  | any => cases failed
  | single value => exact ⟨value, eq_outOfBounds_of_checkNumber failed⟩
  | range first last => exact both first last failed
  | members values => cases failed
  | anyStep step => cases failed
  | fromStep first step => exact ⟨first, eq_outOfBounds_of_checkNumber failed⟩
  | rangeStep first last step => exact both first last failed

theorem check_ne_error {bounds : Bounds} {term : FieldTerm}
    {failure : FieldError} (other : ∀ value, failure ≠ .outOfBounds value) :
    term.check bounds ≠ .error failure := by
  intro failed
  rcases exists_outOfBounds_of_check failed with ⟨value, same⟩
  exact other value same

/-! ## How many numbers a term counts up -/

instance (bounds : Bounds) (term : FieldTerm) :
    Decidable (term.Fits bounds) :=
  inferInstanceAs (Decidable (_ ≤ _))

/-- A progression has no more members than its ends have numbers between them. -/
theorem progressionSize_le (first last : Int) (step : Nat) :
    progressionSize first last step ≤ (last + 1 - first).toNat := by
  unfold progressionSize
  split
  · exact Nat.zero_le _
  · have steps := Nat.div_le_self (last - first).toNat step
    omega

/-- A term counts up no more numbers than there are within the bounds. -/
theorem rangeSize_le {bounds : Bounds} {term : FieldTerm}
    (inside : term.Inside bounds) :
    term.rangeSize bounds ≤ (bounds.high + 1 - bounds.low).toNat := by
  have within (first last : Int) (step : Nat) (lower : bounds.low ≤ first)
      (upper : last ≤ bounds.high) : progressionSize first last step ≤
        (bounds.high + 1 - bounds.low).toNat := by
    have bound := progressionSize_le first last step
    omega
  cases term with
  | any => exact within _ _ _ le_rfl le_rfl
  | single value => exact Nat.zero_le _
  | range first last => exact within _ _ _ inside.1.1 inside.2.2
  | members values => exact Nat.zero_le _
  | anyStep step => exact within _ _ _ le_rfl le_rfl
  | fromStep first step => exact within _ _ _ inside.1 le_rfl
  | rangeStep first last step => exact within _ _ _ inside.1.1 inside.2.2

end FieldTerm

/-- A token of a field has one reading at most. -/
theorem Writes.unique {bounds : Bounds} {token : List Char}
    {term other : FieldTerm} (short : ShortRuns token)
    (writes : Writes bounds token term)
    (otherWrites : Writes bounds token other) : term = other := by
  have read := FieldTerm.parse_of_spells short writes.spells writes.proper
  rw [FieldTerm.parse_of_spells short otherWrites.spells
    otherWrites.proper] at read
  exact (Except.ok.inj read).symm

/-- There are no more numbers within the bounds than a list can have. -/
def Narrow (bounds : Bounds) : Prop :=
  (bounds.high + 1 - bounds.low).toNat ≤ sizeLimit

instance (bounds : Bounds) : Decidable (Narrow bounds) :=
  inferInstanceAs (Decidable (_ ≤ _))

theorem Narrow.fits {bounds : Bounds} {term : FieldTerm}
    (narrow : Narrow bounds) (inside : term.Inside bounds) :
    term.Fits bounds :=
  Nat.le_trans (FieldTerm.rangeSize_le inside) narrow

/-- Bounds that can be written, with no more numbers between them than fit. -/
structure Ordinary (bounds : Bounds) : Prop where
  narrow : Narrow bounds
  writable : bounds.isOverlong = false

/-- The bounds of an expression are ordinary. -/
theorem ordinary_of_mem_fieldBounds {bounds : Bounds}
    (member : bounds ∈ fieldBounds.toList) : Ordinary bounds := by
  have twoDigits : ∀ bounds ∈ fieldBounds.toList, Narrow bounds ∧
      bounds.low.natAbs < 100 ∧ bounds.high.natAbs < 100 := by
    decide
  rcases twoDigits bounds member with ⟨narrow, low, high⟩
  refine ⟨narrow, ?_⟩
  rw [Bounds.isOverlong, overlong_of_twoDigits low,
    overlong_of_twoDigits high, Bool.or_false]

/-! ## What an error leads to -/

/-- An error is a fault if a number is too long or if there are too many. -/
theorem FieldError.failure_eq_fault_iff {error : FieldError}
    {bounds : Bounds} {fault : Fault} :
    error.failure bounds = .fault fault ↔
      fault = .numeralTooLong ∧
          (error = .tooLong ∨
            bounds.isOverlong = true ∧ ∃ value, error = .outOfBounds value) ∨
        fault = .tooManyNumbers ∧ error = .tooMany := by
  cases error with
  | outOfBounds value =>
      by_cases overlong : bounds.isOverlong = true <;>
        simp [failure, overlong, @eq_comm _ fault]
  | _ => simp [failure, @eq_comm _ fault]

/-- Every other error is a problem, which names the field. -/
theorem FieldError.exists_problem {error : FieldError} {bounds : Bounds}
    (writable : bounds.isOverlong = false) (converted : error ≠ .tooLong)
    (few : error ≠ .tooMany) :
    ∃ problem, error.failure bounds = .problem problem ∧
      problem.subject = .cron ∧ problem.field = some bounds.name := by
  cases error with
  | tooLong => exact absurd rfl converted
  | tooMany => exact absurd rfl few
  | outOfBounds value =>
      rw [failure, if_neg (by simp [writable])]
      exact ⟨_, rfl, rfl, rfl⟩
  | _ => exact ⟨_, rfl, rfl, rfl⟩

namespace FieldSet

variable {bounds : Bounds} {token : String}

/-- A token is read if its term is, lies within the bounds and fits. -/
theorem parse_eq_ok_iff_exists_term {set : FieldSet} :
    parse bounds token = .ok set ↔
      ∃ term, FieldTerm.parse token.toList = .ok term ∧
        term.Inside bounds ∧ term.Fits bounds ∧
          set = .ofTerm bounds term := by
  simp only [parse, bind_eq_ok_iff]
  refine exists_congr fun term => and_congr_right fun _ => ?_
  simp only [FieldTerm.check_eq_ok_iff, exists_const]
  refine and_congr_right fun _ => ?_
  by_cases fits : term.Fits bounds
  · rw [if_neg (Nat.not_lt.mpr fits), Except.ok.injEq]
    simp [fits, eq_comm]
  · rw [if_pos (Nat.lt_of_not_le fits)]
    simp [fits]

/--
A token is refused if it cannot be read, if a number of its term is out of
bounds, or if its term does not fit.
-/
theorem parse_eq_error_iff {failure : FieldError} :
    parse bounds token = .error failure ↔
      FieldTerm.parse token.toList = .error failure ∨
        ∃ term, FieldTerm.parse token.toList = .ok term ∧
          (term.check bounds = .error failure ∨
            term.Inside bounds ∧ ¬ term.Fits bounds ∧ failure = .tooMany) := by
  simp only [parse, bind_eq_error_iff]
  refine or_congr_right (exists_congr fun term => and_congr_right fun _ => ?_)
  simp only [FieldTerm.check_eq_ok_iff, exists_const]
  refine or_congr_right (and_congr_right fun _ => ?_)
  by_cases fits : term.Fits bounds
  · rw [if_neg (Nat.not_lt.mpr fits)]
    simp [fits]
  · rw [if_pos (Nat.lt_of_not_le fits), Except.error.injEq]
    simp [fits, eq_comm]

/-- A token is only ever read as what is written there. -/
theorem writes_of_parse {set : FieldSet}
    (read : parse bounds token = .ok set) :
    ∃ term, Writes bounds token.toList term ∧ term.Fits bounds ∧
      set = .ofTerm bounds term := by
  rcases parse_eq_ok_iff_exists_term.mp read with
    ⟨term, readTerm, inside, fits, isSet⟩
  rcases FieldTerm.spells_of_parse readTerm with ⟨spells, proper⟩
  exact ⟨term, ⟨spells, proper, inside⟩, fits, isSet⟩

/-- A token is read as the set of the term that is written there, if it fits. -/
theorem parse_eq_ok_iff {set : FieldSet} (short : ShortRuns token.toList) :
    parse bounds token = .ok set ↔
      ∃ term, Writes bounds token.toList term ∧ term.Fits bounds ∧
        set = .ofTerm bounds term := by
  constructor
  · exact writes_of_parse
  · rintro ⟨term, writes, fits, isSet⟩
    exact parse_eq_ok_iff_exists_term.mpr ⟨term,
      FieldTerm.parse_of_spells short writes.spells writes.proper,
      writes.inside, fits, isSet⟩

theorem parse_ne_tooLong (short : ShortRuns token.toList) :
    parse bounds token ≠ .error .tooLong := by
  rw [Ne, parse_eq_error_iff]
  rintro (failed | ⟨term, -, failed | ⟨-, -, other⟩⟩)
  · exact FieldTerm.parse_ne_tooLong short failed
  · exact FieldTerm.check_ne_error (by simp) failed
  · cases other

theorem parse_ne_tooMany (narrow : Narrow bounds) :
    parse bounds token ≠ .error .tooMany := by
  rw [Ne, parse_eq_error_iff]
  rintro (failed | ⟨term, -, failed | ⟨inside, overflows, -⟩⟩)
  · exact FieldTerm.parse_ne_tooMany failed
  · exact FieldTerm.check_ne_error (by simp) failed
  · exact overflows (narrow.fits inside)

end FieldSet

end Timetable.Cron
