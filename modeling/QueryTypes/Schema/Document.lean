import QueryTypes.Schema.Catalog

/-!
# Schema documents

The definitions of a catalog in schema definition language. A document is its query type and a list
of blocks: scalars, enums, input objects, interfaces, object types and unions, each group in catalog
order. Scalars that every document knows are left out, and a scalar or enum found both as output and
as input has one block.
-/

namespace QueryTypes

/-- One definition of a document. -/
inductive Block where
  | scalar (name : String)
  | enumeration (name : String) (values : List String)
  | input (name : String) (fields : List (String × TypeRef))
  | interface (name : String) (fields : List Declaration)
  | object (name : String) (interfaces : List String) (fields : List Declaration)
  | union (name : String) (members : List String)
  deriving DecidableEq

/-- A schema document. -/
structure Document where
  query : String
  blocks : List Block
  deriving DecidableEq

/-- The name a block defines. -/
def Block.name : Block → String
  | .scalar name => name
  | .enumeration name _ => name
  | .input name _ => name
  | .interface name _ => name
  | .object name _ _ => name
  | .union name _ => name

/-! ## Printing -/

/-- A definition with a body in braces. -/
def bodyLines (head : String) (body : List String) : List String :=
  (head ++ " \x7b") :: body.map ("  " ++ ·) ++ ["\x7d"]

/-- The interfaces after the name of an object type. -/
def implementsText (interfaces : List String) : String :=
  if interfaces.isEmpty then "" else " implements " ++ " & ".intercalate interfaces

/-- The lines of a block. -/
def Block.lines : Block → List String
  | .scalar name => ["scalar " ++ name]
  | .enumeration name values => bodyLines ("enum " ++ name) values
  | .input name fields => bodyLines ("input " ++ name) (fields.map Declaration.argumentText)
  | .interface name fields => bodyLines ("interface " ++ name) (fields.map Declaration.text)
  | .object name interfaces fields =>
    bodyLines ("type " ++ name ++ implementsText interfaces) (fields.map Declaration.text)
  | .union name members => ["union " ++ name ++ " = " ++ " | ".intercalate members]

/-- The lines of a document: the query type, then each block after a blank line. -/
def Document.lines (d : Document) : List String :=
  bodyLines "schema" ["query: " ++ d.query] ++ d.blocks.flatMap fun b => "" :: b.lines

/-- The text of a document, each line ended. -/
def Document.text (d : Document) : String := String.join (d.lines.map (· ++ "\n"))

/-! ## The document of a catalog -/

/-- The scalars that documents do not define. -/
def builtInScalars : List String := ["Int", "Float", "String", "Boolean", "ID"]

namespace Catalog
variable {S : Signature} {c : S.Context}

/-- The names of the scalars, outputs first, each once. -/
def scalarNames (catalog : Catalog S c) : List String :=
  let outputs := catalog.outputs.filterMap fun o =>
    match o.2 with
    | .scalar name => some (name, ())
    | _ => none
  let inputs := catalog.inputs.filterMap fun i =>
    match i.2 with
    | .scalar name => some (name, ())
    | _ => none
  (Keyed.ofPairs (outputs ++ inputs)).keys

/-- Keeps the first of the pairs with one name. -/
def firstOfEach {α : Type} : List (String × α) → List (String × α)
  | [] => []
  | p :: rest => p :: (firstOfEach rest).filter fun q => q.1 != p.1

/-- The enums with their values, outputs first, each once. -/
def enums (catalog : Catalog S c) : List (String × List String) :=
  let outputs := catalog.outputs.filterMap fun o =>
    match o.2 with
    | .enumeration name values => some (name, values)
    | _ => none
  let inputs := catalog.inputs.filterMap fun i =>
    match i.2 with
    | .enumeration name values => some (name, values)
    | _ => none
  firstOfEach (outputs ++ inputs)

/-- The interfaces that have an object of the given name among their members. -/
def interfacesOf (catalog : Catalog S c) (object : String) : List String :=
  catalog.outputs.filterMap fun o =>
    match o.2 with
    | .interface name _ members => if members.any (·.name == object) then some name else none
    | _ => none

/-- The block of an input object. -/
def inputBlock? {n : Nat} : InputShape n → Option Block
  | .object name fields => some (.input name (fields.map Slot.declaration))
  | _ => none

/-- The block of an interface. -/
def interfaceBlock? (D : Definitions S) : OutputShape S c → Option Block
  | .interface name fields _ => some (.interface name (fields.map (FieldShape.declaration D)))
  | _ => none

/-- The block of an object type. -/
def objectBlock? (D : Definitions S) (catalog : Catalog S c) : OutputShape S c → Option Block
  | .object shape =>
    some (.object shape.name (catalog.interfacesOf shape.name)
      (shape.fields.map (FieldShape.declaration D)))
  | _ => none

/-- The block of a union. -/
def unionBlock? : OutputShape S c → Option Block
  | .union name members => some (.union name (members.map ObjectShape.name))
  | _ => none

/-- The blocks of a catalog. -/
def blocks (D : Definitions S) (catalog : Catalog S c) : List Block :=
  (catalog.scalarNames.filter fun name => !builtInScalars.contains name).map .scalar
    ++ catalog.enums.map (fun e => .enumeration e.1 e.2)
    ++ catalog.inputs.filterMap (fun i => inputBlock? i.2)
    ++ catalog.outputs.filterMap (fun o => interfaceBlock? D o.2)
    ++ catalog.outputs.filterMap (fun o => objectBlock? D catalog o.2)
    ++ catalog.outputs.filterMap (fun o => unionBlock? o.2)

end Catalog
end QueryTypes
