import CallSchema.Fault
import CallSchema.Text.Quoted

/-!
# How values are shown

A value has two texts.  `Value.quoted` is the text inside a container or a message that quotes it;
`Value.shown` is the text of a value on its own.  They differ for text, dates, decimal numbers and
read-only records only.

Not every value can be written.  An integer of too many digits is not, and an object of the caller may
end in an error of its own when it is asked for its text; a container cannot be written when something
in it cannot.
-/

namespace CallSchema

/-- Integers of more decimal digits than this are not written out. -/
def digitLimit : Nat := 4300

/-- Integers that are written out are below this bound, and above its negation. -/
@[irreducible] def digitBound : Nat := Nat.pow 10 digitLimit

/-- An integer in decimal digits. -/
def intText (n : Int) : Except Fault String :=
  if n.natAbs < digitBound then .ok (toString n) else .error .tooManyDigits

/-- The spelling of a truth value. -/
def shownBool (b : Bool) : String :=
  if b then "True" else "False"

/-- The text of a function of a given name, up to the place in memory that no answer shows. -/
def functionText (name : String) : String := "<function " ++ name ++ " at 0x0>"

/-- The text of an object. -/
def Object.quoted (object : Object) : Except Fault String :=
  object.text.mapError .raised

/-- The text of a callable of the caller. -/
def Supplied.quoted : Supplied → Except Fault String
  | function name _ => .ok (functionText name)
  | primitive name => .ok ("<built-in function " ++ name ++ ">")
  | type scope name => .ok ("<class '" ++ scope ++ name ++ "'>")
  | object o => o.quoted

/-- The text of a callable. -/
def Callable.quoted : Callable → Except Fault String
  | supplied callee => callee.quoted
  | standard matcher => .ok (functionText matcher.name)
  | never => .ok (functionText "_never")

namespace Value

/-- A comma-separated list. -/
def commaSeparated (texts : List String) : String :=
  String.intercalate ", " texts

/-- The texts of the members of a record, key and value joined by a colon. -/
def braced (members : List (String × String)) : String :=
  "\x7b" ++ commaSeparated (members.map fun member => member.1 ++ ": " ++ member.2) ++ "\x7d"

/-- A part of a complex number: a whole part is written without its fraction. -/
def complexPart (text : String) : String :=
  let chars := text.toList
  if chars.reverse.take 2 = ['0', '.'] then String.ofList (chars.take (chars.length - 2)) else text

/-- A complex number: the real part is left out when it is positive zero. -/
def complexText (re im : String) : String :=
  let imaginary := complexPart im
  if re = "0.0" then imaginary ++ "j"
  else
    let sign := if imaginary.toList.head? = some '-' then "" else "+"
    "(" ++ complexPart re ++ sign ++ imaginary ++ "j)"

/-- The step of a range, which is written when it is not one. -/
def stepTexts (step : Int) : Except Fault (List String) :=
  if step = 1 then .ok [] else do return [← intText step]

/-- A range: its bounds, and its step. -/
def rangeText (start stop step : Int) : Except Fault String := do
  let bounds := [← intText start, ← intText stop]
  return "range(" ++ commaSeparated (bounds ++ (← stepTexts step)) ++ ")"

/-- The widest quoted source of a pattern that is written out. -/
def patternWidth : Nat := 200

/-- A pattern, by its quoted source and its options. -/
def patternText (pattern : Pattern) : String :=
  let quotedSource := Text.clip patternWidth (Text.quoted pattern.source)
  let options := if pattern.options.isEmpty then [] else [String.intercalate "|" pattern.options]
  "re.compile(" ++ commaSeparated (quotedSource :: options) ++ ")"

/-- Bytes, with the name of their kind where they may grow. -/
def bytesText : ByteKind → List UInt8 → String
  | .fixed, data => Text.quotedBytes data
  | .growable, data => "bytearray(" ++ Text.quotedGrowableBytes data ++ ")"

/-- A constructor applied to numbers. -/
def fieldsText (constructor : String) (fields : List Nat) : String :=
  constructor ++ "(" ++ commaSeparated (fields.map toString) ++ ")"

/-- A sequence, from the texts of its items. -/
def sequenceText : SequenceKind → List String → String
  | .list, items => "[" ++ commaSeparated items ++ "]"
  | .tuple, [item] => "(" ++ item ++ ",)"
  | .tuple, items => "(" ++ commaSeparated items ++ ")"
  | .deque, items => "deque([" ++ commaSeparated items ++ "])"

/-- A set, from the texts of its items. -/
def setText : SetKind → List String → String
  | .plain, [] => "set()"
  | .plain, items => "\x7b" ++ commaSeparated items ++ "\x7d"
  | .frozen, [] => "frozenset()"
  | .frozen, items => "frozenset(\x7b" ++ commaSeparated items ++ "\x7d)"

/-- A record, from the texts of its members. -/
def recordText : RecordKind → List (String × String) → String
  | .plain, members => braced members
  | .ordered, [] => "OrderedDict()"
  | .ordered, members =>
      let pairs := members.map fun member => "(" ++ member.1 ++ ", " ++ member.2 ++ ")"
      "OrderedDict([" ++ commaSeparated pairs ++ "])"
  | .readOnly, members => "mappingproxy(" ++ braced members ++ ")"

/-- An alias, from the text of its target. -/
def aliasText (target : String) : String :=
  "Alias(target=" ++ target ++ ")"

/-- A view, from the texts of its keys and values. -/
def viewText (keys values : List String) : String :=
  "CallValues(keys=" ++ sequenceText .tuple keys ++ ", values=" ++ sequenceText .tuple values ++ ")"

/-- A bound call, from the texts of its arguments. -/
def boundText (arguments : List String) : String :=
  "<BoundArguments (" ++ commaSeparated arguments ++ ")>"

/-- The text of a value that holds no other value; containers have none of their own. -/
def atomText : Value → Except Fault String
  | null => .ok "None"
  | bool b => .ok (shownBool b)
  | int n => intText n
  | float text => .ok text
  | complex re im => .ok (complexText re im)
  | decimal text => .ok ("Decimal('" ++ text ++ "')")
  | str text => .ok (Text.quoted text)
  | bytes kind data => .ok (bytesText kind data)
  | range start stop step => rangeText start stop step
  | date year month day => .ok (fieldsText "datetime.date" [year, month, day])
  | dateTime year month day hour minute second =>
      .ok (fieldsText "datetime.datetime"
        ([year, month, day, hour, minute] ++ if second = 0 then [] else [second]))
  | pattern p => .ok (patternText p)
  | ellipsis => .ok "Ellipsis"
  | callable c => c.quoted
  | object o => o.quoted
  | _ => .ok ""

mutual

/-- The text of a value where it is quoted. -/
def quoted : Value → Except Fault String
  | seq kind items => do return sequenceText kind (← quotedItems items)
  | set kind items => do return setText kind (← quotedItems items)
  | record kind entries => do return recordText kind (← quotedEntries entries)
  | aliasTo target => do return aliasText (← quoted target)
  | view keys values => do return viewText (← quotedItems keys) (← quotedItems values)
  | bound _ arguments => do return boundText (← quotedArguments arguments)
  | value => atomText value

/-- The quoted texts of items. -/
def quotedItems : List Value → Except Fault (List String)
  | [] => .ok []
  | item :: items => do return (← quoted item) :: (← quotedItems items)

/-- The quoted texts of the keys and values of a record. -/
def quotedEntries : List (Value × Value) → Except Fault (List (String × String))
  | [] => .ok []
  | (key, value) :: entries => do
      return (← quoted key, ← quoted value) :: (← quotedEntries entries)

/-- Named arguments, each as its name and its quoted value. -/
def quotedArguments : List (String × Value) → Except Fault (List String)
  | [] => .ok []
  | (name, value) :: arguments => do
      return (name ++ "=" ++ (← quoted value)) :: (← quotedArguments arguments)

end

/-- A date by its three numbers, in fixed widths. -/
def dateText (year month day : Nat) : String :=
  Text.zeroFilled 4 year ++ "-" ++ Text.zeroFilled 2 month ++ "-" ++ Text.zeroFilled 2 day

/-- The text of a value on its own. -/
def shown : Value → Except Fault String
  | str text => .ok text
  | decimal text => .ok text
  | date year month day => .ok (dateText year month day)
  | dateTime year month day hour minute second =>
      .ok (dateText year month day ++ " " ++ Text.zeroFilled 2 hour ++ ":"
        ++ Text.zeroFilled 2 minute ++ ":" ++ Text.zeroFilled 2 second)
  | record .readOnly entries => do return recordText .plain (← quotedEntries entries)
  | value => quoted value

/-- The widest text that a preview leaves whole. -/
def previewWidth : Nat := 15

/-- A text, cut to `previewWidth` characters and marked where it was cut. -/
def abridged (text : String) : String :=
  if previewWidth < text.toList.length then Text.clip previewWidth text ++ ".." else text

/-- The shown text of a value, abridged. -/
def preview (value : Value) : Except Fault String := do
  return abridged (← value.shown)

@[simp] theorem shown_str (text : String) : (str text).shown = .ok text := rfl

end Value
end CallSchema
