import Timetable.Value.Basic

/-!
# What a field holds

A field is meant for contents of one kind, but may hold something else.  `Held`
keeps both possibilities, so that an operation that never looks at the field is
not disturbed by an odd value in it.
-/

namespace Timetable

/-- Contents of the kind that a field is meant for, or some other value. -/
inductive Held (α : Type) where
  | proper (content : α)
  | odd (written : Value)
deriving Repr

namespace Held

variable {α : Type}

/-- Contents if a reader recognizes a value, and the value otherwise. -/
def ofValue (read : Value → Option α) (written : Value) : Held α :=
  match read written with
  | some content => .proper content
  | none => .odd written

/-- Like `ofValue`, with nothing for null. -/
def ofValue? (read : Value → Option α) : Value → Option (Held α)
  | .null => none
  | written => some (ofValue read written)

end Held

end Timetable
