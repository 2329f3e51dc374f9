import CallSchema.Value.Display

/-!
# The messages of faults

The text that reports each fault.  Whatever a message quotes was written when the fault arose, except
the name that a cycle of aliases began at: only texts have aliases, and those can be quoted.
-/

namespace CallSchema

/-- The message of a binding fault. -/
def BindingFault.message : BindingFault → String
  | tooManyPositional => "too many positional arguments"
  | multipleValues parameter => "multiple values for argument " ++ Text.quoted parameter
  | positionalOnlyByName parameter =>
      Text.quoted parameter ++ " parameter is positional only, but was passed as a keyword"
  | missing parameter => "missing a required argument: " ++ Text.quoted parameter
  | unexpectedName argument => "got an unexpected keyword argument " ++ Text.quoted argument

/-- The text of a path. -/
def SchemaPath.text : SchemaPath → String
  | single => "schema"
  | nth index => "schemas[" ++ toString index ++ "]"

/-- The message of a configuration fault. -/
def ConfigFault.message : ConfigFault → String
  | notRecord got => "expected dict, got " ++ got.name
  | bothForms => "config has both 'schema' and 'schemas' (exactly one required)"
  | neitherForm => "config missing required field 'schema' or 'schemas'"
  | strictNotBool got => "'strict' must be a bool, got " ++ got.name
  | schemasNotList got => "'schemas' must be a list, got " ++ got.name
  | schemasEmpty => "'schemas' must not be empty"
  | schemaNotRecord path got => path.text ++ " must be a dict, got " ++ got.name
  | nameNotText path name =>
      path.text ++ ": argument names must be strings, got " ++ name
  | blankExpression path name =>
      path.text ++ "." ++ name ++ ": type expression must be a non-empty string"

namespace Fault

/-- The quoted text of a name that can be written. -/
def quotedName (name : Value) : String :=
  match name.quoted with
  | .ok text => text
  | .error _ => ""

/-- The message of a fault. -/
def message : Fault → String
  | schemaShape got =>
      "`schema` should be a mapping or a list of mappings, got " ++ got.name
  | typeNotText argument got =>
      "type expression for `" ++ argument ++ "` must be a string, got " ++ got.name
  | noCandidates => "`schema` list is empty: expected at least one schema"
  | callShape got =>
      "`values` argument should be bound arguments, a sequence or a mapping, got " ++ got.name
  | aliasCycle name limit =>
      "alias chain for " ++ quotedName name ++ " exceeds " ++ toString limit ++ " hops (cycle?)"
  | matchersShape got => "`matchers` argument must be a mapping, got " ++ got.name
  | config fault => fault.message
  | invalidArguments (some reason) => reason
  | invalidArguments none => "False == True"
  | binding fault => fault.message
  | notCallable got => "'" ++ got.qualifiedName ++ "' object is not callable"
  | notIterable got => "'" ++ got.qualifiedName ++ "' object is not iterable"
  | noLength got => "object of type '" ++ got.qualifiedName ++ "' has no len()"
  | lengthTooLarge => "Python int too large to convert to C ssize_t"
  | outOfMemory => ""
  | notOrdered left right =>
      "'<' not supported between instances of '" ++ left.qualifiedName ++ "' and '"
        ++ right.qualifiedName ++ "'"
  | unhashable fault => fault.message
  | notSplittable (.callable (.supplied (.type _ name))) =>
      "type object '" ++ name ++ "' has no attribute 'split'"
  | notSplittable name =>
      "'" ++ name.kind.qualifiedName ++ "' object has no attribute 'split'"
  | splitByText => "a bytes-like object is required, not 'str'"
  | notAnExpression got => "unknown expression type: " ++ got.name
  | strategyNotCallable got => "assertion strategy must be callable, got " ++ got.name
  | extraArgument matcher => matcher ++ "() takes 1 positional argument but 2 were given"
  | tooManyDigits =>
      "Exceeds the limit (" ++ toString digitLimit ++ " digits) for integer string conversion; "
        ++ "use sys.set_int_max_str_digits() to increase the limit"
  | raised error => error.message
  | indexOutOfRange => "tuple index out of range"
  | indexTooLow => "cannot fit 'int' into an index-sized integer"
  | unknownName name => Text.quoted name

end Fault
end CallSchema
