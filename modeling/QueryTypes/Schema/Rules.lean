import QueryTypes.Schema.Declaration
import QueryTypes.Schema.Error

/-!
# Rules of a schema

The rules that the definitions of a schema keep: usable names, no empty definitions, no duplicates,
and members that declare the fields of their interfaces. The first broken rule is reported: outputs
before inputs, and inside a definition its name, whether it is empty, and its declarations from left
to right.
-/

namespace QueryTypes

variable {S : Signature} {c : S.Context}

/-! ## Names -/

def isLetter (ch : Char) : Bool := ('a' ≤ ch && ch ≤ 'z') || ('A' ≤ ch && ch ≤ 'Z')

def isNameStart (ch : Char) : Bool := ch == '_' || isLetter ch

def isNamePart (ch : Char) : Bool := isNameStart ch || ('0' ≤ ch && ch ≤ '9')

/-- Whether a name is a letter or underscore followed by letters, digits and underscores. -/
def isName (name : String) : Bool :=
  match name.toList with
  | [] => false
  | first :: rest => isNameStart first && rest.all isNamePart

/-- A name has to be usable in a query document. -/
def requireName (name : String) (kind : NameKind) : Except SchemaError Unit :=
  if isName name then .ok () else .error (.invalidName name kind)

/-! ## Declarations one after the other -/

/-- Goes through declarations from left to right: each passes `check`, then has a name that none
before it has, then passes `next`. -/
def requireDistinct {α : Type} (name : α → String) (check : α → Except SchemaError Unit)
    (duplicate : String → SchemaError) (next : α → Except SchemaError Unit) :
    List String → List α → Except SchemaError Unit
  | _, [] => .ok ()
  | seen, a :: rest => do
    check a
    if name a ∈ seen then .error (duplicate (name a))
    next a
    requireDistinct name check duplicate next (name a :: seen) rest

/-- A definition needs at least one of its parts. -/
def requireSome {α : Type} (typeName : String) (part : Part) (parts : List α) :
    Except SchemaError Unit :=
  if parts.isEmpty then .error (.emptyType typeName part) else .ok ()

/-- Goes through a list with a check of each item. -/
def requireEach {α : Type} (check : α → Except SchemaError Unit) : List α → Except SchemaError Unit
  | [] => .ok ()
  | a :: rest => do
    check a
    requireEach check rest

/-! ## Definitions -/

/-- The rules of an enum. -/
def checkEnum (name : String) (values : List String) : Except SchemaError Unit := do
  requireName name .enum
  requireSome name .values values
  requireDistinct id (requireName · .enumValue) (.duplicateEnumValue · name) (fun _ => .ok ()) []
    values

/-- The rules of the arguments of a field. -/
def checkArguments (typeName field : String) (arguments : List S.Argument) :
    Except SchemaError Unit :=
  requireDistinct Slot.name (fun a => requireName a.name .argument)
    (.duplicateArgument · field typeName) (fun _ => .ok ()) [] arguments

/-- The rules of the fields of an object or interface. -/
def checkFields (typeName : String) (fields : List (FieldShape S c)) : Except SchemaError Unit := do
  requireSome typeName .fields fields
  requireDistinct FieldShape.name (fun f => requireName f.name .field) (.duplicateField · typeName)
    (fun f => checkArguments typeName f.name f.arguments) [] fields

/-- The rules of the members of an interface or union. -/
def checkMembers (typeName : String) (members : List (ObjectShape S c)) :
    Except SchemaError Unit := do
  requireSome typeName .members members
  requireDistinct ObjectShape.name (fun _ => .ok ()) (.duplicateMember · typeName)
    (fun _ => .ok ()) [] members

/-- A member declares a field of its interface as the interface does. -/
def checkImplements (D : Definitions S) (interface : String) (member : ObjectShape S c)
    (field : FieldShape S c) : Except SchemaError Unit :=
  match member.field? field.name with
  | none => .error (.missingInterfaceField interface member.name field.name)
  | some declared =>
    let expected := (field.declaration D).text
    let actual := (declared.declaration D).text
    if expected = actual then .ok ()
    else .error (.interfaceFieldMismatch interface member.name expected actual)

/-- The rules of an output definition. -/
def checkOutput (D : Definitions S) : OutputShape S c → Except SchemaError Unit
  | .scalar name => requireName name .scalar
  | .enumeration name values => checkEnum name values
  | .list item => checkOutput D item
  | .optional inner => checkOutput D inner
  | .object shape => do
    requireName shape.name .object
    checkFields shape.name shape.fields
  | .interface name fields members => do
    requireName name .interface
    checkFields name fields
    checkMembers name members
    requireEach (fun member => requireEach (checkImplements D name member) fields) members
  | .union name members => do
    requireName name .union
    checkMembers name members

/-- The rules of an input definition. -/
def checkInput {n : Nat} : InputShape n → Except SchemaError Unit
  | .scalar name => requireName name .scalar
  | .enumeration name values => checkEnum name values
  | .object name fields => do
    requireName name .input
    requireSome name .fields fields
    requireDistinct Slot.name (fun f => requireName f.name .field) (.duplicateField · name)
      (fun _ => .ok ()) [] fields
  | .list item => checkInput item
  | .optional inner => checkInput inner
  | .reference _ _ => .ok ()

/-- The first rule that a set of definitions breaks, if any. -/
def checkDefinitions (D : Definitions S) (outputs : Keyed (OutputShape S c))
    (inputs : Keyed (InputShape S.inputs)) : Except SchemaError Unit := do
  requireEach (fun o => checkOutput D o.2) outputs
  requireEach (fun i => checkInput i.2) inputs

end QueryTypes
