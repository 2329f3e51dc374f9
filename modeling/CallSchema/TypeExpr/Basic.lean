import CallSchema.Value.Basic

/-!
# Type expressions

A type expression says which values an argument may take: those of a named leaf type, those and null,
those of either of two expressions, or arrays of values of one expression.  Unions and arrays keep
the texts of their parts for messages.
-/

namespace CallSchema

/-- A type expression. -/
inductive TypeExpr where
  /-- A named type, looked up in a registry. -/
  | leaf (name : String)
  /-- Null, or a value of the inner expression. -/
  | optional (inner : TypeExpr)
  /-- A value of the left expression or, failing that, of the right one. -/
  | union (left right : TypeExpr) (leftText rightText : String)
  /-- An array whose elements all are values of the member expression. -/
  | array (member : TypeExpr) (memberText : String)
  /-- A value that stands where an expression is expected and is none. -/
  | foreign (value : Value)
  deriving Inhabited

end CallSchema
