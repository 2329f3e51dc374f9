import CallSchema.Value.Basic

/-!
# Kinds of values

Every value is of one kind, and a kind has two names: a short one, which the library's own messages
cite, and a qualified one, which the messages about an unsupported operation cite.  The module also
says which values count as true, how long a collection is, and what it holds when it is walked.
-/

namespace CallSchema

/-- The kind of a value. -/
inductive Kind where
  | null
  | bool
  | int
  | float
  | complex
  | decimal
  | str
  | bytes (kind : ByteKind)
  | range
  | date
  | dateTime
  | pattern
  | ellipsis
  | function
  | primitive
  | type
  /-- The instances of a class of the caller. -/
  | object (className : String)
  | seq (kind : SequenceKind)
  | set (kind : SetKind)
  | record (kind : RecordKind)
  | aliasTo
  | view
  | bound
  deriving DecidableEq, Repr

namespace Kind

/-- The short name of a kind. -/
def name : Kind → String
  | null => "NoneType"
  | bool => "bool"
  | int => "int"
  | float => "float"
  | complex => "complex"
  | decimal => "Decimal"
  | str => "str"
  | bytes .fixed => "bytes"
  | bytes .growable => "bytearray"
  | range => "range"
  | date => "date"
  | dateTime => "datetime"
  | pattern => "Pattern"
  | ellipsis => "ellipsis"
  | function => "function"
  | primitive => "builtin_function_or_method"
  | type => "type"
  | object className => className
  | seq .list => "list"
  | seq .tuple => "tuple"
  | seq .deque => "deque"
  | set .plain => "set"
  | set .frozen => "frozenset"
  | record .plain => "dict"
  | record .ordered => "OrderedDict"
  | record .readOnly => "mappingproxy"
  | aliasTo => "Alias"
  | view => "CallValues"
  | bound => "BoundArguments"

/-- The name of a kind together with the module that defines it, for the kinds where that is part
of the name. -/
def qualifiedName : Kind → String
  | date => "datetime.date"
  | dateTime => "datetime.datetime"
  | pattern => "re.Pattern"
  | decimal => "decimal.Decimal"
  | seq .deque => "collections.deque"
  | record .ordered => "collections.OrderedDict"
  | kind => kind.name

end Kind

/-- The kind of a callable of the caller. -/
def Supplied.kind : Supplied → Kind
  | function _ _ => .function
  | primitive _ => .primitive
  | type _ _ => .type
  | object o => .object o.className

/-- The kind of a callable: matchers are functions. -/
def Callable.kind : Callable → Kind
  | supplied callee => callee.kind
  | standard _ => .function
  | never => .function

namespace Value

/-- The kind of a value. -/
def kind : Value → Kind
  | null => .null
  | bool _ => .bool
  | int _ => .int
  | float _ => .float
  | complex _ _ => .complex
  | decimal _ => .decimal
  | str _ => .str
  | bytes kind _ => .bytes kind
  | range _ _ _ => .range
  | date _ _ _ => .date
  | dateTime _ _ _ _ _ _ => .dateTime
  | pattern _ => .pattern
  | ellipsis => .ellipsis
  | callable c => c.kind
  | object o => .object o.className
  | seq kind _ => .seq kind
  | set kind _ => .set kind
  | record kind _ => .record kind
  | aliasTo _ => .aliasTo
  | view _ _ => .view
  | bound _ _ => .bound

/-- How many integers lie in the range from `start` towards `stop` by `step`. -/
def rangeLength (start stop step : Int) : Nat :=
  if 0 < step then ((stop - start + step - 1).tdiv step).toNat
  else if step < 0 then ((start - stop - step - 1).tdiv (-step)).toNat
  else 0

/-- The integers of a range, in order. -/
def rangeItems (start stop step : Int) : List Value :=
  (List.range (rangeLength start stop step)).map fun (i : Nat) => int (start + step * i)

/-- Whether the text of a binary fraction says zero. -/
def isZeroFloat (text : String) : Bool :=
  text == "0.0" || text == "-0.0"

/-- Whether the text of a decimal number says zero: all digits before the exponent are zeros. -/
def isZeroDecimal (text : String) : Bool :=
  (text.toList.takeWhile (· != 'E')).all fun c => c == '0' || c == '.' || c == '-'

/-- Null, false, the zeros and the empty collections count as false; all else counts as true. -/
def truthy : Value → Bool
  | null => false
  | bool b => b
  | int n => n != 0
  | float text => !isZeroFloat text
  | complex re im => !(isZeroFloat re && isZeroFloat im)
  | decimal text => !isZeroDecimal text
  | str text => !text.toList.isEmpty
  | bytes _ data => !data.isEmpty
  | range start stop step => rangeLength start stop step != 0
  | seq _ items => !items.isEmpty
  | set _ items => !items.isEmpty
  | record _ entries => !entries.isEmpty
  | view _ values => !values.isEmpty
  | _ => true

/-- The length of a value that has one; text is measured in code points. -/
def length? : Value → Option Nat
  | str text => some text.toList.length
  | bytes _ data => some data.length
  | range start stop step => some (rangeLength start stop step)
  | seq _ items => some items.length
  | set _ items => some items.length
  | record _ entries => some entries.length
  | view _ values => some values.length
  | _ => none

/-- What a walk over a value meets, when it can be walked: the characters of a text, the numbers of
a byte string, the keys of a record, the items of any other collection. -/
def elements? : Value → Option (List Value)
  | str text => some (text.toList.map fun c => str c.toString)
  | bytes _ data => some (data.map fun byte => int byte.toNat)
  | range start stop step => some (rangeItems start stop step)
  | seq _ items => some items
  | set _ items => some items
  | record _ entries => some (entries.map Prod.fst)
  | _ => none

end Value
end CallSchema
