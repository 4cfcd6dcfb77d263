import QueryTypes.InputType.Decode
import QueryTypes.Schema.Declaration
import QueryTypes.Schema.Error

/-!
# Catalogs

The named types reachable from some root, in the order they are found. A type is entered once, under
its name; each later definition of that name has to declare the same fields, arguments, members or
values. Inputs and outputs share their names, and only scalars and enums may be both.

`Catalog.collect` goes through outputs first in, first out, taking off one list or optional at a
time; the inputs of a field's arguments are entered before its output is put in line.
`Catalog.collectInputs` goes depth first. An input that refers to itself through nothing but lists,
optionals and references has no definition, and collecting it does not finish.
-/

namespace QueryTypes

variable {S : Signature} {c : S.Context}

/-- The types found so far, outputs and inputs apart. -/
structure Catalog (S : Signature) (c : S.Context) where
  outputs : Keyed (OutputShape S c)
  inputs : Keyed (InputShape S.inputs)

/-- The catalog without types. -/
def Catalog.empty : Catalog S c := ⟨[], []⟩

/-! ## What definitions declare -/

/-- The kind of an input inside all lists and optionals. -/
def InputShape.kind {n : Nat} : InputShape n → TypeKind
  | .scalar _ => .scalar
  | .enumeration _ _ => .enum
  | .object _ _ => .input
  | .list item => item.kind
  | .optional inner => inner.kind
  | .reference _ _ => .input

/-- Everything an input declares, down to the names of the types it refers to. -/
def InputShape.signature {n : Nat} : InputShape n → List String
  | .scalar _ => []
  | .enumeration _ values => values
  | .object _ fields => fields.map fun f => Declaration.argumentText f.declaration
  | .list item => item.signature
  | .optional inner => inner.signature
  | .reference _ _ => []

/-- The signatures of fields. -/
def FieldShape.signatures (D : Definitions S) (fields : List (FieldShape S c)) : List String :=
  fields.map fun f => (f.declaration D).signature

/-- The signatures of members. -/
def ObjectShape.memberSignatures (members : List (ObjectShape S c)) : List String :=
  members.map fun m => "| " ++ m.name

/-- Everything an output declares, down to the names of the types it refers to. -/
def OutputShape.signature (D : Definitions S) : OutputShape S c → List String
  | .scalar _ => []
  | .enumeration _ values => values
  | .list item => item.signature D
  | .optional inner => inner.signature D
  | .object shape => FieldShape.signatures D shape.fields
  | .interface _ fields members =>
    FieldShape.signatures D fields ++ ObjectShape.memberSignatures members
  | .union _ members => ObjectShape.memberSignatures members

/-! ## Entering one definition -/

/-- Two definitions of a name that are taken for one must have the same signature. -/
def requireSame (name : String) (first second : List String) : Except SchemaError Unit :=
  if first = second then .ok () else .error (.conflictingDefinitions name)

/-- Two definitions of a name on one side must be of one kind. -/
def requireKind (name : String) (first second : TypeKind) : Except SchemaError Unit :=
  if first = second then .ok () else .error (.conflictingTypes name first second)

/-- An input and an output may share a name if both are scalars or both are enums. -/
def requireShared (name : String) (first second : TypeKind) : Except SchemaError Unit :=
  match first, second with
  | .scalar, .scalar => .ok ()
  | .enum, .enum => .ok ()
  | _, _ => .error (.conflictingTypes name first second)

namespace Catalog

/-- Enters an output under its name; `none` where its name is entered already, with an equal
definition. -/
def addOutput (D : Definitions S) (catalog : Catalog S c) (shape : OutputShape S c) :
    Except SchemaError (Option (Catalog S c)) :=
  let name := shape.namedType
  match catalog.outputs.lookup name with
  | some existing => do
    requireKind name existing.kind shape.kind
    requireSame name (existing.signature D) (shape.signature D)
    return none
  | none => do
    match catalog.inputs.lookup name with
    | some existing =>
      requireShared name existing.kind shape.kind
      requireSame name existing.signature (shape.signature D)
    | none => pure ()
    return some { catalog with outputs := catalog.outputs ++ [(name, shape)] }

/-- Enters an input under its name; `none` where its name is entered already, with an equal
definition. -/
def addInput (D : Definitions S) (catalog : Catalog S c) (shape : InputShape S.inputs) :
    Except SchemaError (Option (Catalog S c)) :=
  let name := shape.namedType
  match catalog.inputs.lookup name with
  | some existing => do
    requireKind name existing.kind shape.kind
    requireSame name existing.signature shape.signature
    return none
  | none => do
    match catalog.outputs.lookup name with
    | some existing =>
      requireShared name existing.kind shape.kind
      requireSame name (existing.signature D) shape.signature
    | none => pure ()
    return some { catalog with inputs := catalog.inputs ++ [(name, shape)] }

end Catalog

/-! ## Following references -/

namespace InputShape
variable {V : Type} {n : Nat}

/-- The definition inside all lists, optionals and references, the latter through `unfold`. -/
def definitionWith (unfold : Fin n → Option (InputShape n)) : InputShape n → Option (InputShape n)
  | .list item => item.definitionWith unfold
  | .optional inner => inner.definitionWith unfold
  | .reference _ target => unfold target
  | s => some s

/-- The definition a reference leads to through at most `fuel` references. -/
def definitionAt (table : InputTable V n) : Nat → Fin n → Option (InputShape n)
  | 0, _ => none
  | fuel + 1, target => (table target).shape.definitionWith (definitionAt table fuel)

/-- The scalar, enum or input object that an input comes down to, if it ever does: a path through
the `n` definitions of the table that is longer than `n` goes round in a circle. -/
def definition? (table : InputTable V n) (s : InputShape n) : Option (InputShape n) :=
  s.definitionWith (definitionAt table n)

mutual
/-- How many fields all the input objects inside a shape have. -/
def fieldCount : InputShape n → Nat
  | .object _ fields => fields.length + fieldCounts fields
  | .list item => item.fieldCount
  | .optional inner => inner.fieldCount
  | _ => 0

def fieldCounts : List (Slot (InputShape n)) → Nat
  | [] => 0
  | ⟨_, _, s, _⟩ :: rest => fieldCount s + fieldCounts rest
end

end InputShape

/-! ## Collecting inputs -/

/-- A failed collection: what went wrong, and what had been entered by then. -/
structure Rejection (S : Signature) (c : S.Context) where
  reason : SchemaError
  catalog : Catalog S c

namespace Catalog

/-- Enters pending inputs and all they refer to, in at most `fuel` steps. -/
def collectPending (D : Definitions S) :
    Nat → List (InputShape S.inputs) → Catalog S c → Outcome (Rejection S c) (Catalog S c)
  | _, [], catalog => .ok catalog
  | 0, _ :: _, _ => .unfinished
  | fuel + 1, s :: pending, catalog =>
    match s.definition? D.input with
    | none => .unfinished
    | some shape =>
      match catalog.addInput D shape with
      | .error reason => .error ⟨reason, catalog⟩
      | .ok none => collectPending D fuel pending catalog
      | .ok (some extended) => collectPending D fuel (shape.fieldInputs ++ pending) extended

/-- The sum of numbers of steps. -/
def total (steps : List Nat) : Nat := steps.foldr (· + ·) 0

/-- Enough steps for an input: itself, and each field of each input object once. -/
def inputSteps (D : Definitions S) (s : InputShape S.inputs) : Nat :=
  1 + s.fieldCount + total ((List.finRange S.inputs).map fun i => (D.input i).shape.fieldCount)

/-- Enters an input and everything it refers to. -/
def collectInput (D : Definitions S) (s : InputShape S.inputs) (catalog : Catalog S c) :
    Outcome (Rejection S c) (Catalog S c) :=
  collectPending D (inputSteps D s) [s] catalog

/-- Enters the inputs of the arguments of fields. -/
def collectArguments (D : Definitions S) (fields : List (FieldShape S c)) (catalog : Catalog S c) :
    Outcome (Rejection S c) (Catalog S c) :=
  (fields.flatMap fun f => f.arguments.map Slot.input).foldlM
    (fun catalog s => catalog.collectInput D s) catalog

end Catalog

/-! ## Collecting outputs -/

/-- The outputs a definition refers to: of its fields, then its members. -/
def OutputShape.successors (D : Definitions S) (s : OutputShape S c) : List (OutputShape S c) :=
  (s.fields?.getD []).map (fun f => f.output.shape D) ++ s.members.map .object

namespace Catalog

/-- Enters the outputs in line and all they refer to, in at most `fuel` steps. -/
def collectLine (D : Definitions S) :
    Nat → List (OutputShape S c) → Catalog S c → Outcome (Rejection S c) (Catalog S c)
  | _, [], catalog => .ok catalog
  | 0, _ :: _, _ => .unfinished
  | fuel + 1, .list item :: line, catalog => collectLine D fuel (line ++ [item]) catalog
  | fuel + 1, .optional inner :: line, catalog => collectLine D fuel (line ++ [inner]) catalog
  | fuel + 1, s :: line, catalog =>
    match catalog.addOutput D s with
    | .error reason => .error ⟨reason, catalog⟩
    | .ok none => collectLine D fuel line catalog
    | .ok (some extended) => do
      let extended ← extended.collectArguments D (s.fields?.getD [])
      collectLine D fuel (line ++ s.successors D) extended

end Catalog

/-- The steps an output takes by itself: one for each list or optional, and one for its name. -/
def OutputShape.steps : OutputShape S c → Nat
  | .list item => item.steps + 1
  | .optional inner => inner.steps + 1
  | _ => 1

/-- The steps of the outputs that fields refer to. -/
def FieldShape.steps (D : Definitions S) (fields : List (FieldShape S c)) : Nat :=
  Catalog.total (fields.map fun f => (f.output.shape D).steps)

/-- The steps of members and of the outputs that their fields refer to. -/
def ObjectShape.steps (D : Definitions S) (members : List (ObjectShape S c)) : Nat :=
  Catalog.total (members.map fun m => 1 + FieldShape.steps D m.fields)

/-- The steps of an output and of everything it refers to directly. -/
def OutputShape.weight (D : Definitions S) : OutputShape S c → Nat
  | .list item => item.weight D + 1
  | .optional inner => inner.weight D + 1
  | .object shape => 1 + FieldShape.steps D shape.fields
  | .interface _ fields members => 1 + FieldShape.steps D fields + ObjectShape.steps D members
  | .union _ members => 1 + ObjectShape.steps D members
  | _ => 1

namespace Catalog

/-- Enough steps for an output: its own weight and that of each definition once. -/
def outputSteps (D : Definitions S) (s : OutputShape S c) : Nat :=
  s.weight D + total ((List.finRange S.outputs).map fun i => (D.output i).shape.weight D)

/-- Enters an output and everything it refers to. -/
def collect (D : Definitions S) (s : OutputShape S c) (catalog : Catalog S c) :
    Outcome (Rejection S c) (Catalog S c) :=
  collectLine D (outputSteps D s) [s] catalog

end Catalog
end QueryTypes
