import QueryTypes.OutputType.Shape

/-!
# Output types

How host values are encoded. Leaves carry encoders, objects carry fields with resolvers, interfaces
and unions carry the members a value narrows to. A field's output is a reference into the table of
output definitions, so a type may have fields of its own type.

Every layer can be adapted to other parent values (`contramap`) and carried to another context
(`convert`): a declared field, a field held by an object, a member, an object, an interface or union,
and a whole output type.
-/

namespace QueryTypes

variable {S : Signature}

/-! ## Fields -/

/-- A declared field: its arguments, if it takes any, its output, and the resolver from the parent
value (and the decoded arguments) to the value that its output encodes. -/
inductive Field (S : Signature) (c : S.Context) where
  | simple (output : OutputRef S c) (resolve : S.Value → S.Resolves c S.Value)
  | withArguments (arguments : S.Arguments) (output : OutputRef S c)
      (resolve : S.Value → S.Value → S.Resolves c S.Value)

namespace Field
variable {c d : S.Context}

/-- A field without arguments whose value is always at hand. -/
def pure (output : OutputRef S c) (resolve : S.Value → S.Value) : Field S c :=
  .simple output fun parent => .pure (resolve parent)

/-- The declared arguments. -/
def arguments : Field S c → List S.Argument
  | .simple _ _ => []
  | .withArguments slots _ _ => slots.declarations

/-- The declared output. -/
def output : Field S c → OutputRef S c
  | .simple output _ => output
  | .withArguments _ output _ => output

/-- The field for parents that `f` turns into its own. -/
def contramap (f : S.Value → S.Value) : Field S c → Field S c
  | .simple output resolve => .simple output fun parent => resolve (f parent)
  | .withArguments slots output resolve =>
    .withArguments slots output fun parent args => resolve (f parent) args

/-- The field in another context: its resolutions and its output are converted. -/
def convert (n : S.Conversion c d) : Field S c → Field S d
  | .simple output resolve => .simple (output.convert n) fun parent => (resolve parent).convert n
  | .withArguments slots output resolve =>
    .withArguments slots (output.convert n) fun parent args => (resolve parent args).convert n

end Field

/-- A field as an object or interface holds it: as declared, or adapted from outside. -/
inductive Resolver (S : Signature) : S.Context → Type where
  | declared {c : S.Context} (field : Field S c) : Resolver S c
  | contramapped {c : S.Context} (f : S.Value → S.Value) (inner : Resolver S c) : Resolver S c
  | converted {c d : S.Context} (n : S.Conversion c d) (inner : Resolver S c) : Resolver S d

namespace Resolver

/-- The declared arguments. -/
def arguments : {c : S.Context} → Resolver S c → List S.Argument
  | _, .declared field => field.arguments
  | _, .contramapped _ inner => inner.arguments
  | _, .converted _ inner => inner.arguments

/-- The declared output, with the conversions of the adapters. -/
def output : {c : S.Context} → Resolver S c → OutputRef S c
  | _, .declared field => field.output
  | _, .contramapped _ inner => inner.output
  | _, .converted n inner => inner.output.convert n

end Resolver

/-- Named fields in declared order. -/
abbrev Fields (S : Signature) (c : S.Context) := List (String × Resolver S c)

namespace Fields
variable {c d : S.Context}

/-- What the fields declare. -/
def shapes (fields : Fields S c) : List (FieldShape S c) :=
  fields.map fun f => ⟨f.1, f.2.arguments, f.2.output⟩

/-- Every field adapted to other parents. -/
def contramap (f : S.Value → S.Value) (fields : Fields S c) : Fields S c :=
  fields.map fun p => (p.1, .contramapped f p.2)

/-- Every field carried to another context. -/
def convert (n : S.Conversion c d) (fields : Fields S c) : Fields S d :=
  fields.map fun p => (p.1, .converted n p.2)

theorem shapes_convert (n : S.Conversion c d) (fields : Fields S c) :
    (fields.convert n).shapes = fields.shapes.map (FieldShape.convert n) := by
  rw [shapes, shapes, convert, List.map_map, List.map_map]
  rfl

end Fields

/-! ## Objects -/

/-- An object type: a name and fields. -/
structure ObjectType (S : Signature) (c : S.Context) where
  name : String
  fields : Fields S c

namespace ObjectType
variable {c d : S.Context}

/-- What the object declares. -/
def shape (o : ObjectType S c) : ObjectShape S c := ⟨o.name, o.fields.shapes⟩

/-- The object for parents that `f` turns into its own. -/
def contramap (f : S.Value → S.Value) (o : ObjectType S c) : ObjectType S c :=
  ⟨o.name, o.fields.contramap f⟩

/-- The object in another context. -/
def convert (n : S.Conversion c d) (o : ObjectType S c) : ObjectType S d :=
  ⟨o.name, o.fields.convert n⟩

theorem shape_convert (n : S.Conversion c d) (o : ObjectType S c) :
    (o.convert n).shape = o.shape.convert n :=
  congrArg (ObjectShape.mk o.name) (o.fields.shapes_convert n)

end ObjectType

/-! ## Members of interfaces and unions -/

/-- A partial mapping from the values of an abstract type to those of one member. -/
structure Narrowing (α β : Type) where
  apply : α → Option β

namespace Narrowing
variable {α β γ : Type}

/-- Transforms the probed value first. -/
def contramap (f : γ → α) (s : Narrowing α β) : Narrowing γ β := ⟨fun x => s.apply (f x)⟩

/-- Transforms the narrowed value afterwards. -/
def map (f : β → γ) (s : Narrowing α β) : Narrowing α γ := ⟨fun a => (s.apply a).map f⟩

end Narrowing

/-- A member of an interface or union: an object type with the values it accepts, possibly adapted
from outside. -/
inductive Member (S : Signature) : S.Context → Type where
  | concrete {c : S.Context} (object : ObjectType S c) (narrowing : Narrowing S.Value S.Value) :
      Member S c
  | contramapped {c : S.Context} (f : S.Value → S.Value) (inner : Member S c) : Member S c
  | converted {c d : S.Context} (n : S.Conversion c d) (inner : Member S c) : Member S d

namespace Member

/-- What the member's object declares. -/
def shape : {c : S.Context} → Member S c → ObjectShape S c
  | _, .concrete object _ => object.shape
  | _, .contramapped _ inner => inner.shape
  | _, .converted n inner => inner.shape.convert n

/-- The name of the member's object. -/
def name : {c : S.Context} → Member S c → String
  | _, .concrete object _ => object.name
  | _, .contramapped _ inner => inner.name
  | _, .converted _ inner => inner.name

@[simp] theorem name_shape : {c : S.Context} → (m : Member S c) → m.shape.name = m.name
  | _, .concrete _ _ => rfl
  | _, .contramapped _ inner => name_shape inner
  | _, .converted _ inner => name_shape inner

/-- Whether the member accepts a value. -/
def accepts : {c : S.Context} → Member S c → S.Value → Bool
  | _, .concrete _ narrowing, v => (narrowing.apply v).isSome
  | _, .contramapped f inner, v => inner.accepts (f v)
  | _, .converted _ inner, v => inner.accepts v

end Member

/-! ## Interfaces and unions -/

/-- A type whose values narrow to members: an interface with fields of its own, or a union. -/
inductive AbstractType (S : Signature) (c : S.Context) where
  | interface (name : String) (fields : Fields S c) (members : List (Member S c))
  | union (name : String) (members : List (Member S c))

namespace AbstractType
variable {c d : S.Context}

def name : AbstractType S c → String
  | .interface name _ _ => name
  | .union name _ => name

/-- The fields that resolve on the abstract value itself; a union has none. -/
def fields : AbstractType S c → Fields S c
  | .interface _ fields _ => fields
  | .union _ _ => []

def members : AbstractType S c → List (Member S c)
  | .interface _ _ members => members
  | .union _ members => members

/-- What the type declares. -/
def shape : AbstractType S c → OutputShape S c
  | .interface name fields members => .interface name fields.shapes (members.map Member.shape)
  | .union name members => .union name (members.map Member.shape)

/-- The type for values that `f` turns into its own. -/
def contramap (f : S.Value → S.Value) : AbstractType S c → AbstractType S c
  | .interface name fields members =>
    .interface name (fields.contramap f) (members.map (Member.contramapped f))
  | .union name members => .union name (members.map (Member.contramapped f))

/-- The type in another context. -/
def convert (n : S.Conversion c d) : AbstractType S c → AbstractType S d
  | .interface name fields members =>
    .interface name (fields.convert n) (members.map (Member.converted n))
  | .union name members => .union name (members.map (Member.converted n))

theorem name_contramap (f : S.Value → S.Value) (t : AbstractType S c) :
    (t.contramap f).name = t.name := by
  cases t <;> rfl

theorem members_contramap (f : S.Value → S.Value) (t : AbstractType S c) :
    (t.contramap f).members = t.members.map (Member.contramapped f) := by
  cases t <;> rfl

theorem name_convert (n : S.Conversion c d) (t : AbstractType S c) :
    (t.convert n).name = t.name := by
  cases t <;> rfl

theorem members_convert (n : S.Conversion c d) (t : AbstractType S c) :
    (t.convert n).members = t.members.map (Member.converted n) := by
  cases t <;> rfl

theorem shape_convert (n : S.Conversion c d) (t : AbstractType S c) :
    (t.convert n).shape = t.shape.convert n := by
  have hmembers (members : List (Member S c)) : (members.map (Member.converted n)).map Member.shape =
      (members.map Member.shape).map (ObjectShape.convert n) := by
    rw [List.map_map, List.map_map]
    rfl
  cases t with
  | interface name fields members =>
    simp only [convert, shape, OutputShape.convert, Fields.shapes_convert, hmembers]
  | union name members => simp only [convert, shape, OutputShape.convert, hmembers]

/-- The names of all members that accept the value, in declared order. More than one means that the
members overlap. -/
def matchingMembers (t : AbstractType S c) (v : S.Value) : List String :=
  (t.members.filter (·.accepts v)).map Member.name

end AbstractType

/-! ## Output types -/

/-- An output type in a context. -/
inductive OutputType (S : Signature) : S.Context → Type where
  /-- A leaf with its encoder. -/
  | scalar {c : S.Context} (name : String) (encode : S.Value → Json) : OutputType S c
  /-- Tokens with the values they stand for. -/
  | enumeration {c : S.Context} (name : String) (pairs : List (String × S.Value)) : OutputType S c
  /-- A list of the items a value has. -/
  | list {c : S.Context} (items : S.Value → List S.Value) (item : OutputType S c) : OutputType S c
  /-- A value of the inner type, or null. -/
  | optional {c : S.Context} (view : S.Value → Option S.Value) (inner : OutputType S c) :
      OutputType S c
  | object {c : S.Context} (type : ObjectType S c) : OutputType S c
  | abstract {c : S.Context} (type : AbstractType S c) : OutputType S c
  /-- A type carried over from another context. -/
  | converted {c d : S.Context} (n : S.Conversion c d) (inner : OutputType S c) : OutputType S d

namespace OutputType

/-- What the type declares. An enum declares its tokens as they were given. -/
def shape : {c : S.Context} → OutputType S c → OutputShape S c
  | _, .scalar name _ => .scalar name
  | _, .enumeration name pairs => .enumeration name (pairs.map Prod.fst)
  | _, .list _ item => .list item.shape
  | _, .optional _ inner => .optional inner.shape
  | _, .object type => .object type.shape
  | _, .abstract type => type.shape
  | _, .converted n inner => inner.shape.convert n

end OutputType

/-! ## Tables of definitions -/

/-- The input and output definitions that may refer to each other. -/
structure Definitions (S : Signature) where
  input : InputTable S.Value S.inputs
  output : (i : Fin S.outputs) → OutputType S (S.home i)

/-- The output type a field refers to. -/
def OutputRef.type (D : Definitions S) {c : S.Context} (r : OutputRef S c) : OutputType S c :=
  r.conversions.carry OutputType.converted (D.output r.target)

/-- The shape of the output a field refers to. -/
def OutputRef.shape (D : Definitions S) {c : S.Context} (r : OutputRef S c) : OutputShape S c :=
  (r.type D).shape

@[simp] theorem OutputRef.type_convert (D : Definitions S) {c d : S.Context} (n : S.Conversion c d)
    (r : OutputRef S c) : (r.convert n).type D = .converted n (r.type D) := rfl

@[simp] theorem OutputRef.shape_convert (D : Definitions S) {c d : S.Context}
    (n : S.Conversion c d) (r : OutputRef S c) :
    (r.convert n).shape D = (r.shape D).convert n := rfl

end QueryTypes
