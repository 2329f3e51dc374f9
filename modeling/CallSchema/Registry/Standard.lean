import CallSchema.Registry.Basic

/-!
# The standard registry

The names that every caller may use: nine matchers, each under its full name, and short names for
them.
-/

namespace CallSchema
namespace Registry

/-- The entry of a standard matcher. -/
def standardEntry (matcher : StandardMatcher) : Entry :=
  .matcher (.callable (.standard matcher))

/-- The standard names with their entries; compound names hold one variant between marks. -/
def standardLayer : List (String × Entry) := [
  ("string", standardEntry .isString),
  ("s|str", .aliasTo (.str "string")),
  ("number", standardEntry .isNumber),
  ("n|num", .aliasTo (.str "number")),
  ("boolean", standardEntry .isBoolean),
  ("b|bool", .aliasTo (.str "boolean")),
  ("function", standardEntry .isFunction),
  ("f|fun|func", .aliasTo (.str "function")),
  ("array", standardEntry .isArray),
  ("a|arr", .aliasTo (.str "array")),
  ("object", standardEntry .isObject),
  ("o|obj", .aliasTo (.str "object")),
  ("regexp", standardEntry .isRegexp),
  ("r|rx|regex", .aliasTo (.str "regexp")),
  ("date", standardEntry .isDate),
  ("d", .aliasTo (.str "date")),
  ("Object", standardEntry .isPlainObject),
  ("Obj", .aliasTo (.str "Object"))]

/-- The standard registry: the standard names over the reserved ones. -/
def standard : Registry :=
  standardLayer.foldl (fun registry item => putVariants registry ((variants item.1).map .text) item.2) reserved

end Registry
end CallSchema
