import QueryTypes.Schema.Basic

/-!
# Inspection

Compact texts that show definitions and bound values to the people who write them. Only what a
definition declares is shown; encoders, decoders and resolvers are not.
-/

namespace QueryTypes.Inspect

variable {S : Signature} {c : S.Context}

open Text (quoted)

/-- Parts between a pair of brackets, separated by commas. -/
def between (opening closing : String) (parts : List String) : String :=
  opening ++ ", ".intercalate parts ++ closing

/-- A list. -/
def list (parts : List String) : String := between "[" "]" parts

/-- A named record with its fields. -/
def record (name : String) (fields : List (String × String)) : String :=
  name ++ between " \x7b " " \x7d" (fields.map fun f => f.1 ++ ": " ++ f.2)

/-- A name with one part in parentheses. -/
def wrapped (name part : String) : String := name ++ "(" ++ part ++ ")"

mutual
/-- A JSON value. -/
def json : Json → String
  | .null => "Null"
  | .bool b => wrapped "Bool" (toString b)
  | .number n => wrapped "Number" n.text
  | .string s => wrapped "String" (quoted s)
  | .array items => "Array " ++ list (jsonItems items)
  | .object members => "Object " ++ between "\x7b" "\x7d" (jsonMembers members)

def jsonItems : List Json → List String
  | [] => []
  | j :: rest => json j :: jsonItems rest

def jsonMembers : List (String × Json) → List String
  | [] => []
  | (k, j) :: rest => (quoted k ++ ": " ++ json j) :: jsonMembers rest
end

/-- An enum with its values. -/
def enumeration (name : String) (values : List String) : String :=
  record "Enum" [("name", quoted name), ("values", list (values.map quoted))]

/-- Whether a slot is a field or an argument. -/
def slotKind : SlotKind → String
  | .field => "Field"
  | .argument => "Argument"

mutual
/-- The shape of an input. -/
def inputShape {n : Nat} : InputShape n → String
  | .scalar name => wrapped "Scalar" (quoted name)
  | .enumeration name values => enumeration name values
  | .object name fields => record "Object" [("name", quoted name), ("fields", list (slots fields))]
  | .list item => wrapped "List" (inputShape item)
  | .optional inner => wrapped "Optional" (inputShape inner)
  | .reference name _ => wrapped "Ref" (wrapped "InputRef" (quoted name))

/-- Declared slots. -/
def slots {n : Nat} : List (Slot (InputShape n)) → List String
  | [] => []
  | ⟨name, kind, input, hasDefault⟩ :: rest =>
    record "Entry" [("name", quoted name), ("kind", slotKind kind), ("input", inputShape input),
      ("has_default", toString hasDefault)] :: slots rest
end

/-- An input type. -/
def inputType {V : Type} {n : Nat} (t : InputType V n) : String :=
  record "Input" [("shape", inputShape t.shape)]

/-- A group of slots. -/
def slotGroup {V : Type} {n : Nat} (s : Slots V n) : String :=
  record "Accumulator" [("entries", list (slots s.declarations))]

/-- The shape of an output. -/
def outputShape : OutputShape S c → String
  | .scalar name => wrapped "Scalar" (quoted name)
  | .enumeration name values => enumeration name values
  | .list item => wrapped "List" (outputShape item)
  | .optional inner => wrapped "Optional" (outputShape inner)
  | .object shape => wrapped "Object" (quoted shape.name)
  | .interface name _ _ => wrapped "Interface" (quoted name)
  | .union name _ => wrapped "Union" (quoted name)

/-- An output type. -/
def outputType (t : OutputType S c) : String := wrapped "Output" (outputShape t.shape)

/-- A declared field. -/
def fieldShape (f : FieldShape S c) : String :=
  record "FieldShape" [("name", quoted f.name), ("arguments", list (slots f.arguments))]

/-- A named record of declared fields. -/
def fieldsOf (kind : String) (o : ObjectShape S c) : String :=
  record kind [("name", quoted o.name), ("fields", list (o.fields.map fieldShape))]

/-- An object type. -/
def objectType (o : ObjectType S c) : String := fieldsOf "ObjectOutput" o.shape

/-- The shape of an object. -/
def objectShape (o : ObjectShape S c) : String := fieldsOf "ObjectShape" o

/-- A member of an interface or union. -/
def member (m : Member S c) : String := wrapped "Instance" (quoted m.name)

/-- An interface or union. -/
def abstractType (t : AbstractType S c) : String :=
  let kind := match t with
    | .interface _ _ _ => "InterfaceOutput"
    | .union _ _ => "UnionOutput"
  record kind [("name", quoted t.name), ("members", list (t.members.map member))]

/-- A narrowing, which shows nothing of itself. -/
def narrowing {α β : Type} (_ : Narrowing α β) : String := wrapped "Specify" ".."

/-- A resolution; a computation shows nothing of itself. -/
def resolution {E : Effects} {d : E.Context} {α : Type} (show' : α → String) :
    Resolution E d α → String
  | .pure a => wrapped "Pure" (show' a)
  | .deferred _ => wrapped "Deferred" ".."

mutual
/-- A bound value. -/
def bound : Bound S c → String
  | .leaf j => wrapped "Leaf" (json j)
  | .token name => wrapped "Enum" (quoted name)
  | .null => "Null"
  | .list items => wrapped "List" (list (boundItems items))
  | .object o => wrapped "Object" (quoted o.typename)
  | .abstract a => wrapped "Abstract" (quoted a.typename)
  | .unmapped enumName =>
    wrapped "Error" (record "UnmappedEnumValue" [("enum_name", quoted enumName)])

def boundItems : List (Bound S c) → List String
  | [] => []
  | b :: rest => bound b :: boundItems rest
end

/-- A schema: its query type and the names of its types. -/
def schema (s : Schema S c) : String :=
  record "Schema" [("query", objectType s.query),
    ("types", list (s.catalog.outputs.keys.map quoted)),
    ("inputs", list (s.catalog.inputs.keys.map quoted))]

end QueryTypes.Inspect
