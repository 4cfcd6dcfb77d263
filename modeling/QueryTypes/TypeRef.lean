/-!
# Type references

How a declaration refers to a type: by name, in any number of lists, each level required or not. A
level that may be null twice over may be null, so optionals of optionals collapse.
-/

namespace QueryTypes

/-- A reference to a named type, through lists. -/
inductive TypeRef where
  | named (name : String) (required : Bool)
  | list (item : TypeRef) (required : Bool)
  deriving DecidableEq, Repr

namespace TypeRef

/-- The same reference at a place that may be null. -/
def optional : TypeRef → TypeRef
  | .named name _ => .named name false
  | .list item _ => .list item false

/-- The name inside all lists. -/
def name : TypeRef → String
  | .named name _ => name
  | .list item _ => item.name

/-- The mark of a place that may not be null. -/
def mark (required : Bool) : String := if required then "!" else ""

/-- The reference as query documents write it, such as `[Int!]!`. -/
def text : TypeRef → String
  | .named name required => name ++ mark required
  | .list item required => "[" ++ item.text ++ "]" ++ mark required

end TypeRef
end QueryTypes
