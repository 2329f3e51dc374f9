import CallSchema.Matcher
import CallSchema.Table

/-!
# Registries

A registry gives names to matchers.  An entry holds a matcher or points at another name; a compound
name such as `s|str` stands for one entry per variant.  Registries are grown in layers, later entries
win, and an earlier registry is never changed by a later one.  Two names are always there: the
matcher that stands in for unknown names, and the name under which a lone record is taken for the
arguments of a call.
-/

namespace CallSchema

/-- What a name stands for. -/
inductive Entry where
  /-- Another name; what is not text is looked up in vain. -/
  | aliasTo (target : Value)
  /-- A matcher, or whatever else was registered in the place of one. -/
  | matcher (value : Value)

namespace Entry

/-- The entry for a registered value: text points at a name. -/
def ofValue : Value → Entry
  | .str target => .aliasTo (.str target)
  | .aliasTo target => .aliasTo target
  | value => .matcher value

/-- The value that an entry holds. -/
def toValue : Entry → Value
  | aliasTo target => .aliasTo target
  | matcher value => value

end Entry

/-- A name that can have an entry.  Names are texts; when a pattern splits the variants of a compound
name, a group of it that kept nothing leaves the null name. -/
inductive EntryName where
  | text (text : String)
  | null
  deriving DecidableEq, Repr

namespace EntryName

/-- The name as a value. -/
def toValue : EntryName → Value
  | text name => .str name
  | null => .null

/-- The name that a value is, if it is one. -/
def ofValue? : Value → Option EntryName
  | .str name => some (text name)
  | .null => some null
  | _ => none

/-- The name of a piece that splitting gives. -/
def ofPiece : Option String → EntryName
  | some piece => text piece
  | none => null

/-- The text of a name that has one. -/
def text? : EntryName → Option String
  | text name => some name
  | null => none

end EntryName

/-- A registry: names to entries. -/
abbrev Registry := Table EntryName Entry

namespace Registry

/-- The name of the matcher that stands in for unknown names. -/
def defaultName : String := "@@argguard/defaultMatcher"

/-- The name under which a lone record is taken for the arguments of a call. -/
def argumentsObjectName : String := "@@argguard/argumentsObject"

/-- The registry of the two reserved names. -/
def reserved : Registry :=
  Table.empty.putAll [
    (.text defaultName, .matcher (.callable .never)),
    (.text argumentsObjectName, .aliasTo (.str "Object"))]

/-- The character between the variants of a compound name. -/
def variantMark : Char := '|'

/-- The pieces of a text between the marks; there is always one more than there are marks. -/
def splitAtMarks : List Char → List (List Char)
  | [] => [[]]
  | c :: cs =>
      if c = variantMark then [] :: splitAtMarks cs
      else
        match splitAtMarks cs with
        | [] => [[c]]
        | piece :: pieces => (c :: piece) :: pieces

/-- The variants of a compound name. -/
def variants (name : String) : List String :=
  (splitAtMarks name.toList).map String.ofList

/-- The variants of a name that a table of matchers uses.  Only text is split, except that two other
values know how to split the mark itself: the class of texts does so at blanks, and a pattern does
so wherever it matches. -/
def variantsOf : Value → Except Fault (List EntryName)
  | .str name => .ok ((variants name).map .text)
  | .bytes _ _ => .error .splitByText
  | .callable (.supplied (.type "" "str")) => .ok [.text variantMark.toString]
  | .pattern pattern => .ok (pattern.pieces.map EntryName.ofPiece)
  | name => .error (.notSplittable name)

/-- Gives one entry to several names. -/
def putVariants (registry : Registry) (names : List EntryName) (entry : Entry) : Registry :=
  registry.putAll (names.map fun name => (name, entry))

/-- Gives each name of a raw table its entry, one after another. -/
def putRaw : Registry → List (Value × Value) → Except Fault Registry
  | registry, [] => .ok registry
  | registry, (name, value) :: raw => do
      let names ← variantsOf name
      putRaw (putVariants registry names (Entry.ofValue value)) raw

/-- The entries that a raw table of matchers stands for. -/
def unfold : Value → Except Fault Registry
  | .record _ raw => putRaw Table.empty raw
  | value => .error (.matchersShape value.kind)

/-- Layers a raw table of matchers over a registry. -/
def extend (registry : Registry) (raw : Value) : Except Fault Registry := do
  let layer ← unfold raw
  return registry.putAll layer.entries

/-- A raw table of one name, which must be a value that can name something. -/
def single (name value : Value) : Except Fault Value :=
  match name.hashFault? with
  | some fault => .error (.unhashable fault)
  | none => .ok (.record .plain [(name, value)])

/-- Registers a matcher under the variants of a name. -/
def addMatcher (registry : Registry) (names matcher : Value) : Except Fault Registry := do
  registry.extend (← single names matcher)

/-- Makes the variants of a name point at another name. -/
def addAlias (registry : Registry) (names target : Value) : Except Fault Registry := do
  registry.extend (← single names (.aliasTo target))

/-- Layers raw tables over a registry, one after another. -/
def extendAll (registry : Registry) : List Value → Except Fault Registry
  | [] => .ok registry
  | raw :: layers => do (← registry.extend raw).extendAll layers

/-- The names of a registry, in the order of their code points; the null name has no place in it. -/
def sortedNames (registry : Registry) : Except Fault (List String) :=
  if registry.contains .null then .error (.notOrdered .null .str)
  else .ok (registry.names.filterMap EntryName.text?).mergeSort

end Registry
end CallSchema
