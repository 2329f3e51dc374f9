import CallSchema.Value.Measure

/-!
# Schemas

A schema names the arguments of a call in the order in which they are taken and gives each a type, or
it lists candidates, which may again be lists.  Schemas are written as values; anything that is neither
a record nor a list is kept as a malformed schema, which is a fault only where it is used.
-/

namespace CallSchema

/-- One argument: its name and the text of its type, which should be text. -/
structure Field where
  name : Value
  type : Value

/-- A schema. -/
inductive Schema where
  | flat (fields : List Field)
  | oneOf (candidates : List Schema)
  | malformed (got : Kind)

namespace Schema

/-- The fields of a record. -/
def fieldsOfEntries (entries : List (Value × Value)) : List Field :=
  entries.map fun entry => ⟨entry.1, entry.2⟩

/-- The candidates in a range.  None of its numbers is a schema, and the first of them is already a
fault, so it stands for all. -/
def ofRange (start stop step : Int) : List Schema :=
  if Value.rangeLength start stop step = 0 then [] else [.malformed .int]

mutual

/-- The schema that a value stands for: a record has fields, every sequence except text and fixed bytes
is a list of candidates. -/
def ofValue : Value → Schema
  | .record _ entries => .flat (fieldsOfEntries entries)
  | .seq _ items => .oneOf (ofItems items)
  | .range start stop step => .oneOf (ofRange start stop step)
  | .bytes .growable data => .oneOf (data.map fun _ => .malformed .int)
  | value => .malformed value.kind

/-- The schemas that values stand for. -/
def ofItems : List Value → List Schema
  | [] => []
  | item :: items => ofValue item :: ofItems items

end

/-- The schemas that a walk over a value meets. -/
def candidatesOf : Value → Except Fault (List Schema)
  | .range start stop step => .ok (ofRange start stop step)
  | value => value.walked.map ofItems

end Schema
end CallSchema
