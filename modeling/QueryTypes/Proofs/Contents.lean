import QueryTypes.Schema.Catalog

/-!
# What definitions declare

`Contents` is a declaration as data: unlike a signature it is not written out, so two declarations
have the same contents only if they declare the same. It does not say in which context a type is, and
no conversion changes it.
-/

namespace QueryTypes

variable {S : Signature} {c d : S.Context}

/-- The slots of an input object. -/
def InputShape.slots {n : Nat} : InputShape n → List (Slot (InputShape n))
  | .object _ fields => fields
  | _ => []

/-- The tokens of an enum. -/
def InputShape.values {n : Nat} : InputShape n → List String
  | .enumeration _ values => values
  | _ => []

/-- The tokens of an enum. -/
def OutputShape.values : OutputShape S c → List String
  | .enumeration _ values => values
  | _ => []

/-- What a definition declares: its kind, and its fields with their arguments and the types that all
of these refer to, its members, or its tokens, each in order. -/
structure Contents where
  kind : TypeKind
  fields : List Declaration
  members : List String
  values : List String
  deriving DecidableEq

/-- What an output declares. -/
def OutputShape.contents (D : Definitions S) (s : OutputShape S c) : Contents :=
  ⟨s.kind, (s.fields?.getD []).map (FieldShape.declaration D), s.members.map ObjectShape.name,
    s.values⟩

/-- What an input declares; the fields of input objects take no arguments. -/
def InputShape.contents {n : Nat} (s : InputShape n) : Contents :=
  ⟨s.kind, s.slots.map fun f => ⟨f.name, [], f.typeRef⟩, [], s.values⟩

@[simp] theorem FieldShape.declaration_convert (D : Definitions S) (n : S.Conversion c d)
    (f : FieldShape S c) : (f.convert n).declaration D = f.declaration D := by
  simp [declaration, FieldShape.convert]

/-- No conversion changes what an output declares. -/
@[simp] theorem OutputShape.contents_convert (D : Definitions S) (n : S.Conversion c d)
    (s : OutputShape S c) : (s.convert n).contents D = s.contents D := by
  cases s <;>
    simp [contents, OutputShape.convert, fields?, members, values, ObjectShape.convert,
      Function.comp_def, kind]

end QueryTypes
