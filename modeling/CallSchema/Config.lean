import CallSchema.Text.Blank
import CallSchema.Value.Display

/-!
# Schemas from configuration data

A configuration is a record that holds one schema or a list of schemas, and may ask for strict
matching.  It is checked as a whole when it is loaded: the first offending place, in list and item
order, is reported with its path.  What is loaded holds text only, in the order of the data.  A name
that is no text is quoted in the report, so one that cannot be written is a fault of its own.
-/

namespace CallSchema

/-- The fields of a loaded schema: names and type texts. -/
abbrev TextFields := List (String × String)

/-- The schemas of a configuration: a single one, or a list, which may have one item. -/
inductive ConfigForm where
  | single (fields : TextFields)
  | many (schemas : List TextFields)

/-- A loaded configuration. -/
structure Config where
  form : ConfigForm
  strict : Bool

namespace Config

/-- The schemas of a configuration, in order. -/
def schemas (config : Config) : List TextFields :=
  match config.form with
  | .single fields => [fields]
  | .many schemas => schemas

/-- Whether the configuration holds a list of schemas. -/
def isList (config : Config) : Bool :=
  match config.form with
  | .single _ => false
  | .many _ => true

/-- A read-only record of the fields of a loaded schema. -/
def recordOfFields (fields : TextFields) : Value :=
  .record .readOnly (fields.map fun field => (.str field.1, .str field.2))

/-- The schema to match calls against. -/
def schema (config : Config) : Value :=
  match config.form with
  | .single fields => recordOfFields fields
  | .many schemas => .seq .list (schemas.map recordOfFields)

/-- The entries of a record that is not just a view. -/
def ownEntries? : Value → Option (List (Value × Value))
  | .record .plain entries => some entries
  | .record .ordered entries => some entries
  | _ => none

/-- The value under a name, among the entries of a record. -/
def field? (name : String) : List (Value × Value) → Option Value
  | [] => none
  | (.str key, value) :: entries => if key = name then some value else field? name entries
  | _ :: entries => field? name entries

/-- Loads one field of the schema at a path. -/
def loadField (path : SchemaPath) : Value × Value → Except Fault (String × String)
  | (.str name, .str text) =>
      if Text.isBlank text then .error (.config (.blankExpression path name)) else .ok (name, text)
  | (.str name, _) => .error (.config (.blankExpression path name))
  | (name, _) => do .error (.config (.nameNotText path (← name.quoted)))

/-- Loads fields in order, up to the first fault. -/
def loadFields (path : SchemaPath) : List (Value × Value) → Except Fault TextFields
  | [] => .ok []
  | entry :: entries => do
      let field ← loadField path entry
      let fields ← loadFields path entries
      return field :: fields

/-- Loads the schema at a path. -/
def loadSchema (path : SchemaPath) (data : Value) : Except Fault TextFields :=
  match ownEntries? data with
  | some entries => loadFields path entries
  | none => .error (.config (.schemaNotRecord path data.kind))

/-- Loads the schemas of a list, the first of which stands at `index`. -/
def loadSchemas (index : Nat) : List Value → Except Fault (List TextFields)
  | [] => .ok []
  | data :: items => do
      let fields ← loadSchema (.nth index) data
      let schemas ← loadSchemas (index + 1) items
      return fields :: schemas

/-- Loads a list of schemas. -/
def loadList : Value → Except Fault (List TextFields)
  | .seq .list [] => .error (.config .schemasEmpty)
  | .seq .list items => loadSchemas 0 items
  | data => .error (.config (.schemasNotList data.kind))

/-- Loads the wish for strict matching, which is off unless the data turns it on. -/
def loadStrict : Option Value → Except Fault Bool
  | none => .ok false
  | some (.bool strict) => .ok strict
  | some data => .error (.config (.strictNotBool data.kind))

/-- Loads a configuration from the entries of its record. -/
def loadEntries (entries : List (Value × Value)) : Except Fault Config :=
  match field? "schema" entries, field? "schemas" entries with
  | some _, some _ => .error (.config .bothForms)
  | none, none => .error (.config .neitherForm)
  | some data, none => do
      let strict ← loadStrict (field? "strict" entries)
      let fields ← loadSchema .single data
      return ⟨.single fields, strict⟩
  | none, some data => do
      let strict ← loadStrict (field? "strict" entries)
      let schemas ← loadList data
      return ⟨.many schemas, strict⟩

/-- Loads a configuration. -/
def load (data : Value) : Except Fault Config :=
  match ownEntries? data with
  | some entries => loadEntries entries
  | none => .error (.config (.notRecord data.kind))

end Config
end CallSchema
