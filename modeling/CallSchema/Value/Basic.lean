/-!
# Values

The dynamic values that a caller passes, that schemas and matcher tables are written in, and that
matchers look at.  Values are plain data: a number with a fraction is carried by its text, and nothing
here has an identity beside its content.  Of what belongs to the caller, a class, a function or an
instance, a value carries only what is read of it.  A collection can be walked again and again; values
that give their items only once are left out.

This module holds the type only; kinds, nesting, printing and hashing are built on it.
-/

namespace CallSchema

/-- Byte strings are fixed or may grow in place. -/
inductive ByteKind where
  | fixed
  | growable
  deriving DecidableEq, Repr

/-- The ordered collections of values. -/
inductive SequenceKind where
  | list
  | tuple
  | deque
  deriving DecidableEq, Repr

/-- The unordered collections of values. -/
inductive SetKind where
  | plain
  | frozen
  deriving DecidableEq, Repr

/-- The mappings from keys to values: plain, explicitly ordered, or a read-only view. -/
inductive RecordKind where
  | plain
  | ordered
  | readOnly
  deriving DecidableEq, Repr

/-- How a parameter may be filled. -/
inductive ParameterKind where
  /-- Only by position. -/
  | positionalOnly
  /-- By position or by name. -/
  | positionalOrKeyword
  /-- Takes the remaining positional arguments. -/
  | restPositional
  /-- Only by name. -/
  | keywordOnly
  /-- Takes the remaining named arguments. -/
  | restKeyword
  deriving DecidableEq, Repr

/-- A parameter of a signature. -/
structure Parameter where
  name : String
  kind : ParameterKind
  /-- An optional parameter has a default, so it may be left out. -/
  isOptional : Bool
  deriving DecidableEq, Repr

/-- The matchers that every standard registry holds. -/
inductive StandardMatcher where
  | isArray
  | isBoolean
  | isDate
  | isFunction
  | isNumber
  | isObject
  | isPlainObject
  | isRegexp
  | isString
  deriving DecidableEq, Repr

namespace StandardMatcher

/-- The standard matchers, in alphabetical order. -/
def all : List StandardMatcher :=
  [isArray, isBoolean, isDate, isFunction, isNumber, isObject, isPlainObject, isRegexp, isString]

/-- The name of a standard matcher. -/
def name : StandardMatcher → String
  | isArray => "is_array"
  | isBoolean => "is_boolean"
  | isDate => "is_date"
  | isFunction => "is_function"
  | isNumber => "is_number"
  | isObject => "is_object"
  | isPlainObject => "is_plain_object"
  | isRegexp => "is_regexp"
  | isString => "is_string"

end StandardMatcher

/-- An error that code of the caller ends in, by its class and its message. -/
structure Raised where
  error : String
  message : String
  deriving DecidableEq, Repr

/-- An instance of a class of the caller, which is no collection.  All that is read of it is its class
and its text, and making the text may end in an error. -/
structure Object where
  className : String
  text : Except Raised String

/-- What a caller supplies that can be called.  It is known by its text only: what a call of it comes to
is not said here. -/
inductive Supplied where
  /-- A function; the number tells functions of one name apart. -/
  | function (name : String) (number : Nat)
  /-- A function of the language. -/
  | primitive (name : String)
  /-- A class, by the prefix and the name that it is shown with. -/
  | type (scope name : String)
  /-- An instance of a class, where instances can be called. -/
  | object (object : Object)

/-- What can be called. -/
inductive Callable where
  | supplied (callee : Supplied)
  | standard (matcher : StandardMatcher)
  /-- The matcher that accepts nothing, which stands in for unknown names. -/
  | never

/-- A compiled pattern, by what is read of it: its source and its options make its text, and its pieces
are what it splits the mark between the variants of a name into.  A group that kept nothing leaves an
empty piece. -/
structure Pattern where
  source : String
  options : List String
  pieces : List (Option String)

/-- A dynamic value. -/
inductive Value where
  | null
  | bool (b : Bool)
  | int (n : Int)
  /-- A binary fraction, by its shortest decimal text. -/
  | float (text : String)
  /-- A complex number, by the texts of its two parts. -/
  | complex (re im : String)
  /-- A decimal number, by its text. -/
  | decimal (text : String)
  | str (text : String)
  | bytes (kind : ByteKind) (data : List UInt8)
  | range (start stop step : Int)
  | date (year month day : Nat)
  | dateTime (year month day hour minute second : Nat)
  | pattern (pattern : Pattern)
  | ellipsis
  | callable (c : Callable)
  /-- An instance of a class, where instances cannot be called. -/
  | object (object : Object)
  | seq (kind : SequenceKind) (items : List Value)
  | set (kind : SetKind) (items : List Value)
  | record (kind : RecordKind) (entries : List (Value × Value))
  /-- A matcher entry that names another entry. -/
  | aliasTo (target : Value)
  /-- A call's values together with the keys they came under. -/
  | view (keys values : List Value)
  /-- A call bound to a signature: the arguments are in signature order. -/
  | bound (parameters : List Parameter) (arguments : List (String × Value))

namespace Value

instance : Inhabited Value := ⟨null⟩

/-- Whether a value can be called. -/
def isCallable : Value → Bool
  | callable _ => true
  | _ => false

/-- Whether a value is a given text. -/
def isText (text : String) : Value → Bool
  | str other => other == text
  | _ => false

end Value
end CallSchema
