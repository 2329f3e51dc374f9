import CallSchema.Value.Kind

/-!
# Which values can name something

A value can be looked up in a table when it cannot change: collections that grow in place, records
and bound calls cannot be, and a tuple, an alias or a view can be when all that it holds can be.  The
signalling not-a-number among the decimal numbers cannot be looked up either.
-/

namespace CallSchema

/-- Why a value cannot be looked up in a table. -/
inductive HashFault where
  /-- Values of this kind can change. -/
  | changeable (kind : Kind)
  /-- The decimal number signals that it is none. -/
  | signalling
  deriving DecidableEq, Repr

/-- The message of a hash fault. -/
def HashFault.message : HashFault → String
  | changeable kind => "unhashable type: '" ++ kind.qualifiedName ++ "'"
  | signalling => "Cannot hash a signaling NaN value"

namespace Value

/-- Whether the text of a decimal number is that of a signalling not-a-number. -/
def isSignalling (text : String) : Bool :=
  ['s', 'N', 'a', 'N'].isPrefixOf (text.toList.dropWhile (· == '-'))

mutual

/-- What keeps a value from being looked up in a table: its own fault, or that of the first such value
inside it. -/
def hashFault? : Value → Option HashFault
  | decimal text => if isSignalling text then some .signalling else none
  | bytes .growable _ => some (.changeable (.bytes .growable))
  | seq .tuple items => hashFaultOfItems? items
  | seq kind _ => some (.changeable (.seq kind))
  | set .plain _ => some (.changeable (.set .plain))
  | record kind _ => some (.changeable (.record kind))
  | aliasTo target => hashFault? target
  | view keys values =>
      match hashFaultOfItems? keys with
      | some fault => some fault
      | none => hashFaultOfItems? values
  | bound _ _ => some (.changeable .bound)
  | _ => none

/-- The fault of the first item that cannot be looked up. -/
def hashFaultOfItems? : List Value → Option HashFault
  | [] => none
  | item :: items =>
      match hashFault? item with
      | some fault => some fault
      | none => hashFaultOfItems? items

end

end Value
end CallSchema
