import QueryTypes.Signature

/-!
# Shapes of outputs

What an output type declares, without its encoders and resolvers. The output of a field is a
reference into the table of output definitions together with the conversions it has been through, so
the shapes of recursive types are finite.
-/

namespace QueryTypes

/-- The output of a field, not yet looked at: a definition of the table, carried along conversions
from its own context into `c`. -/
structure OutputRef (S : Signature) (c : S.Context) where
  target : Fin S.outputs
  conversions : S.Conversions (S.home target) c

/-- The same output in another context. -/
def OutputRef.convert {S : Signature} {c d : S.Context} (n : S.Conversion c d)
    (r : OutputRef S c) : OutputRef S d :=
  ⟨r.target, r.conversions.snoc n⟩

/-- Name, arguments and output of a declared field. -/
structure FieldShape (S : Signature) (c : S.Context) where
  name : String
  arguments : List S.Argument
  output : OutputRef S c

/-- Name and fields of an object type. -/
structure ObjectShape (S : Signature) (c : S.Context) where
  name : String
  fields : List (FieldShape S c)

/-- The shape of an output type. -/
inductive OutputShape (S : Signature) (c : S.Context) where
  | scalar (name : String)
  | enumeration (name : String) (values : List String)
  | list (item : OutputShape S c)
  | optional (inner : OutputShape S c)
  | object (shape : ObjectShape S c)
  | interface (name : String) (fields : List (FieldShape S c)) (members : List (ObjectShape S c))
  | union (name : String) (members : List (ObjectShape S c))

/-- The kinds of named types. -/
inductive TypeKind where
  | scalar | enum | object | interface | union | input
  deriving DecidableEq, Repr

/-- The word for a kind in schema documents and error messages. -/
def TypeKind.word : TypeKind → String
  | .scalar => "scalar"
  | .enum => "enum"
  | .object => "type"
  | .interface => "interface"
  | .union => "union"
  | .input => "input"

variable {S : Signature} {c d : S.Context}

namespace FieldShape

/-- The declared argument of the given name. -/
def argument? (f : FieldShape S c) (name : String) : Option S.Argument :=
  f.arguments.find? (·.name == name)

/-- The same declaration in another context. -/
def convert (n : S.Conversion c d) (f : FieldShape S c) : FieldShape S d :=
  ⟨f.name, f.arguments, f.output.convert n⟩

end FieldShape

namespace ObjectShape

/-- The first declared field of the given name. -/
def field? (o : ObjectShape S c) (name : String) : Option (FieldShape S c) :=
  o.fields.find? (·.name == name)

/-- The same declaration in another context. -/
def convert (n : S.Conversion c d) (o : ObjectShape S c) : ObjectShape S d :=
  ⟨o.name, o.fields.map (·.convert n)⟩

end ObjectShape

namespace OutputShape

/-- The name inside all lists and optionals. -/
def namedType : OutputShape S c → String
  | .scalar name => name
  | .enumeration name _ => name
  | .list item => item.namedType
  | .optional inner => inner.namedType
  | .object shape => shape.name
  | .interface name _ _ => name
  | .union name _ => name

/-- The name at this level; lists and optionals have none. -/
def name? : OutputShape S c → Option String
  | .list _ => none
  | .optional _ => none
  | s => some s.namedType

/-- The kind of the type inside all lists and optionals. -/
def kind : OutputShape S c → TypeKind
  | .scalar _ => .scalar
  | .enumeration _ _ => .enum
  | .list item => item.kind
  | .optional inner => inner.kind
  | .object _ => .object
  | .interface _ _ _ => .interface
  | .union _ _ => .union

def isOptional : OutputShape S c → Bool
  | .optional _ => true
  | _ => false

/-- How declarations refer to the type. -/
def typeRef : OutputShape S c → TypeRef
  | .list item => .list item.typeRef true
  | .optional inner => inner.typeRef.optional
  | s => .named s.namedType true

/-- The fields of an object or interface. -/
def fields? : OutputShape S c → Option (List (FieldShape S c))
  | .object shape => some shape.fields
  | .interface _ fields _ => some fields
  | _ => none

/-- The first declared field of the given name. -/
def field? (s : OutputShape S c) (name : String) : Option (FieldShape S c) :=
  (s.fields?.getD []).find? (·.name == name)

/-- The members of an interface or union. -/
def members : OutputShape S c → List (ObjectShape S c)
  | .interface _ _ members => members
  | .union _ members => members
  | _ => []

/-- The same declaration in another context. -/
def convert (n : S.Conversion c d) : OutputShape S c → OutputShape S d
  | .scalar name => .scalar name
  | .enumeration name values => .enumeration name values
  | .list item => .list (item.convert n)
  | .optional inner => .optional (inner.convert n)
  | .object shape => .object (shape.convert n)
  | .interface name fields members =>
    .interface name (fields.map (·.convert n)) (members.map (·.convert n))
  | .union name members => .union name (members.map (·.convert n))

@[simp] theorem namedType_convert (n : S.Conversion c d) (s : OutputShape S c) :
    (s.convert n).namedType = s.namedType := by
  induction s with
  | list _ ih => exact ih
  | optional _ ih => exact ih
  | _ => rfl

@[simp] theorem name?_convert (n : S.Conversion c d) (s : OutputShape S c) :
    (s.convert n).name? = s.name? := by
  cases s <;> rfl

@[simp] theorem kind_convert (n : S.Conversion c d) (s : OutputShape S c) :
    (s.convert n).kind = s.kind := by
  induction s with
  | list _ ih => exact ih
  | optional _ ih => exact ih
  | _ => rfl

@[simp] theorem isOptional_convert (n : S.Conversion c d) (s : OutputShape S c) :
    (s.convert n).isOptional = s.isOptional := by
  cases s <;> rfl

@[simp] theorem typeRef_convert (n : S.Conversion c d) (s : OutputShape S c) :
    (s.convert n).typeRef = s.typeRef := by
  induction s with
  | list _ ih => exact congrArg (TypeRef.list · true) ih
  | optional _ ih => exact congrArg TypeRef.optional ih
  | _ => rfl

theorem fields_convert (n : S.Conversion c d) (s : OutputShape S c) :
    (s.convert n).fields?.getD [] = (s.fields?.getD []).map (·.convert n) := by
  cases s <;> rfl

theorem members_convert (n : S.Conversion c d) (s : OutputShape S c) :
    (s.convert n).members = s.members.map (ObjectShape.convert n) := by
  cases s <;> rfl

end OutputShape
end QueryTypes
