import CallSchema.Value.Hashing

/-!
# Faults

Everything that can stop a run, by its cause.  Faults of use (a malformed schema, an unsuitable call
shape, a broken matcher table) belong to a `Fault.Family` of the library; the others arise where an
operation meets a value that does not support it, or where code of the caller ends in an error.
-/

namespace CallSchema

/-- Why arguments do not fit a signature. -/
inductive BindingFault where
  | tooManyPositional
  | multipleValues (parameter : String)
  | positionalOnlyByName (parameter : String)
  | missing (parameter : String)
  | unexpectedName (argument : String)
  deriving DecidableEq, Repr

/-- Where a schema stands in a configuration: alone, or at a place in the list. -/
inductive SchemaPath where
  | single
  | nth (index : Nat)
  deriving DecidableEq, Repr

/-- Why a configuration is refused. -/
inductive ConfigFault where
  | notRecord (got : Kind)
  | bothForms
  | neitherForm
  | strictNotBool (got : Kind)
  | schemasNotList (got : Kind)
  | schemasEmpty
  | schemaNotRecord (path : SchemaPath) (got : Kind)
  /-- A name, by its quoted text, that is no text itself. -/
  | nameNotText (path : SchemaPath) (name : String)
  | blankExpression (path : SchemaPath) (name : String)

/-- What stops a run. -/
inductive Fault where
  /-- A schema is neither a record nor a list of schemas. -/
  | schemaShape (got : Kind)
  /-- A schema gives an argument a type that is not text. -/
  | typeNotText (argument : String) (got : Kind)
  /-- A list of schemas has no candidate. -/
  | noCandidates
  /-- The values of a call have no shape that can be indexed. -/
  | callShape (got : Kind)
  /-- The chain of aliases from `name` did not end within `limit` look-ups. -/
  | aliasCycle (name : Value) (limit : Nat)
  /-- A table of matchers is not a record. -/
  | matchersShape (got : Kind)
  | config (fault : ConfigFault)
  /-- A call was refused, for a reason if there is one. -/
  | invalidArguments (reason : Option String)
  | binding (fault : BindingFault)
  | notCallable (got : Kind)
  | notIterable (got : Kind)
  | noLength (got : Kind)
  /-- A collection has more items than a length can say. -/
  | lengthTooLarge
  /-- A collection has more items than there is room for. -/
  | outOfMemory
  /-- Two names have no order. -/
  | notOrdered (left right : Kind)
  | unhashable (fault : HashFault)
  /-- A name in a table of matchers cannot be split into its variants. -/
  | notSplittable (name : Value)
  /-- A name in a table of matchers is made of bytes, which text cannot split. -/
  | splitByText
  /-- A node that is no type expression stands where one is expected. -/
  | notAnExpression (got : Kind)
  | strategyNotCallable (got : Kind)
  /-- A matcher of the library was handed an outcome, which is an argument too many. -/
  | extraArgument (matcher : String)
  /-- An integer has more digits than are written out. -/
  | tooManyDigits
  /-- Code of the caller ended in an error. -/
  | raised (raised : Raised)
  | indexOutOfRange
  /-- An index lies below every index that can be said. -/
  | indexTooLow
  /-- A session has nothing of that name. -/
  | unknownName (name : String)

namespace Fault

/-- The families of the library's own faults. -/
inductive Family where
  /-- Every fault of the library. -/
  | guard
  /-- The library was used wrongly. -/
  | usage
  | schema
  | callShape
  | aliasCycle
  | matchers
  | config
  /-- The arguments of a call were refused. -/
  | validation
  deriving DecidableEq, Repr

namespace Family

/-- All families, in alphabetical order of their names. -/
def all : List Family :=
  [aliasCycle, validation, callShape, config, guard, matchers, schema, usage]

/-- The name of a family. -/
def name : Family → String
  | guard => "GuardError"
  | usage => "UsageError"
  | schema => "SchemaError"
  | callShape => "ArgumentsShapeError"
  | aliasCycle => "AliasCycleError"
  | matchers => "InvalidMatchersError"
  | config => "ConfigParseError"
  | validation => "ArgumentValidationError"

/-- The families that a family belongs to, from itself outwards. -/
def lineage : Family → List Family
  | guard => [guard]
  | usage => [usage, guard]
  | schema => [schema, usage, guard]
  | callShape => [callShape, usage, guard]
  | aliasCycle => [aliasCycle, usage, guard]
  | matchers => [matchers, usage, guard]
  | config => [config, usage, guard]
  | validation => [validation, guard]

end Family

/-- The family of a fault, when it is one of the library's own. -/
def family? : Fault → Option Family
  | schemaShape _ => some .schema
  | typeNotText _ _ => some .schema
  | noCandidates => some .schema
  | callShape _ => some .callShape
  | aliasCycle _ _ => some .aliasCycle
  | matchersShape _ => some .matchers
  | config _ => some .config
  | invalidArguments _ => some .validation
  | _ => none

end Fault
end CallSchema
