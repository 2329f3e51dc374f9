import CallSchema.Fault

/-!
# Signatures

Binding a call's arguments to the parameters of a signature.  Positional arguments and parameters are
walked together first; the parameters still to go are then filled by name, and names left over go to
the parameter that takes them.  Defaults are not filled in.

A bound call can be spread out again: what can be passed by position comes first, and from the first
parameter on that has no positional value, everything is passed by name.
-/

namespace CallSchema

/-- The parameters of a function, in order. -/
abbrev Signature := List Parameter

/-- What a caller passes: values by position, then values by name. -/
structure Arguments where
  positional : List Value
  named : List (String × Value)
  deriving Inhabited

namespace Signature

/-- Whether a value is passed under a name. -/
def isNamed (named : List (String × Value)) (name : String) : Bool :=
  (named.lookup name).isSome

/-- Walks positional arguments and parameters together.  The answer is what was bound and which
parameters are still to go. -/
def fillByPosition (named : List (String × Value)) :
    Signature → List Value → Except BindingFault (List (String × Value) × Signature)
  | [], [] => .ok ([], [])
  | [], _ :: _ => .error .tooManyPositional
  | p :: parameters, [] =>
      match p.kind with
      | .restPositional => .ok ([], parameters)
      | .positionalOnly =>
          if isNamed named p.name then .error (.positionalOnlyByName p.name)
          else if p.isOptional then .ok ([], p :: parameters)
          else .error (.missing p.name)
      | .restKeyword => .ok ([], p :: parameters)
      | _ =>
          if isNamed named p.name || p.isOptional then .ok ([], p :: parameters)
          else .error (.missing p.name)
  | p :: parameters, value :: values =>
      match p.kind with
      | .keywordOnly => .error .tooManyPositional
      | .restKeyword => .error .tooManyPositional
      | .restPositional => .ok ([(p.name, .seq .tuple (value :: values))], parameters)
      | .positionalOnly => do
          let (bound, rest) ← fillByPosition named parameters values
          return ((p.name, value) :: bound, rest)
      | .positionalOrKeyword =>
          if isNamed named p.name then .error (.multipleValues p.name)
          else do
            let (bound, rest) ← fillByPosition named parameters values
            return ((p.name, value) :: bound, rest)

/-- Fills parameters by name.  The answer is what was bound and which names are left over. -/
def fillByName : Signature → List (String × Value) →
    Except BindingFault (List (String × Value) × List (String × Value))
  | [], named => .ok ([], named)
  | p :: parameters, named =>
      match p.kind with
      | .restPositional => fillByName parameters named
      | .restKeyword => fillByName parameters named
      | kind =>
          match named.lookup p.name with
          | none =>
              if p.isOptional then fillByName parameters named else .error (.missing p.name)
          | some value =>
              if kind = .positionalOnly then .error (.positionalOnlyByName p.name)
              else do
                let (bound, rest) ←
                  fillByName parameters (named.filter fun argument => argument.1 != p.name)
                return ((p.name, value) :: bound, rest)

/-- The parameter that takes the names left over, if there is one. -/
def keywordRest? (signature : Signature) : Option Parameter :=
  signature.reverse.find? fun p => p.kind = .restKeyword

/-- A record whose keys are names. -/
def recordOf (named : List (String × Value)) : Value :=
  .record .plain (named.map fun argument => (.str argument.1, argument.2))

/-- Gives the names left over to the parameter that takes them. -/
def fillRest (signature : Signature) : List (String × Value) →
    Except BindingFault (List (String × Value))
  | [] => .ok []
  | argument :: named =>
      match signature.keywordRest? with
      | some p => .ok [(p.name, recordOf (argument :: named))]
      | none => .error (.unexpectedName argument.1)

/-- The values of the parameters that a call binds, in signature order. -/
def bindArguments (signature : Signature) (arguments : Arguments) :
    Except BindingFault (List (String × Value)) := do
  let (positional, rest) ← signature.fillByPosition arguments.named arguments.positional
  let (byName, left) ← fillByName rest arguments.named
  let collected ← fillRest rest left
  return positional ++ byName ++ collected

/-- A call bound to a signature. -/
def bind (signature : Signature) (arguments : Arguments) : Except Fault Value :=
  match signature.bindArguments arguments with
  | .ok bound => .ok (.bound signature bound)
  | .error fault => .error (.binding fault)

/-- Whether a parameter can only be passed by name. -/
def isByName (p : Parameter) : Bool :=
  p.kind = .keywordOnly || p.kind = .restKeyword

/-- The items of a collected tail of positional values. -/
def collectedItems : Value → List Value
  | .seq _ items => items
  | value => [value]

/-- The members of a collected record of named values. -/
def collectedEntries : Value → List (Value × Value)
  | .record _ entries => entries
  | _ => []

/-- The positional values of one parameter. -/
def positionalOf (p : Parameter) (value : Value) : List Value :=
  if p.kind = .restPositional then collectedItems value else [value]

/-- The named values of one parameter. -/
def namedOf (p : Parameter) (value : Value) : List (Value × Value) :=
  if p.kind = .restKeyword then collectedEntries value else [(.str p.name, value)]

/-- The values of a bound call that are passed by position: those before the first parameter that is
unbound or only has a name. -/
def positionalPart (bound : List (String × Value)) : Signature → List Value
  | [] => []
  | p :: parameters =>
      if isByName p then []
      else
        match bound.lookup p.name with
        | none => []
        | some value => positionalOf p value ++ positionalPart bound parameters

/-- The named values of all bound parameters. -/
def allNamed (bound : List (String × Value)) : Signature → List (Value × Value)
  | [] => []
  | p :: parameters =>
      match bound.lookup p.name with
      | none => allNamed bound parameters
      | some value => namedOf p value ++ allNamed bound parameters

/-- The values of a bound call that are passed by name: all from the first parameter on that is
unbound or only has a name. -/
def namedPart (bound : List (String × Value)) : Signature → List (Value × Value)
  | [] => []
  | p :: parameters =>
      if isByName p || (bound.lookup p.name).isNone then allNamed bound (p :: parameters)
      else namedPart bound parameters

end Signature
end CallSchema
