import QueryTypes.OutputType.Basic

/-!
# Declarations

What a field declares, as schema documents print it: its name, its arguments with their type
references, and the type reference of its output.
-/

namespace QueryTypes

/-- A field with its arguments and the types they all refer to. -/
structure Declaration where
  name : String
  arguments : List (String × TypeRef)
  type : TypeRef
  deriving DecidableEq

namespace Declaration

/-- An argument or input field with its type. -/
def argumentText (a : String × TypeRef) : String := a.1 ++ ": " ++ a.2.text

/-- The arguments one after the other. -/
def argumentTexts (d : Declaration) : String := ", ".intercalate (d.arguments.map argumentText)

/-- The declaration as documents print it; a field without arguments has no parentheses. -/
def text (d : Declaration) : String :=
  if d.arguments.isEmpty then d.name ++ ": " ++ d.type.text
  else d.name ++ "(" ++ d.argumentTexts ++ "): " ++ d.type.text

/-- The declaration as definitions are compared: always with parentheses. -/
def signature (d : Declaration) : String :=
  d.name ++ "(" ++ d.argumentTexts ++ "): " ++ d.type.text

end Declaration

/-- A slot with the type it refers to. -/
def Slot.declaration {n : Nat} (slot : Slot (InputShape n)) : String × TypeRef :=
  (slot.name, slot.typeRef)

/-- What a field declares; its output is looked up in the table. -/
def FieldShape.declaration {S : Signature} {c : S.Context} (D : Definitions S)
    (f : FieldShape S c) : Declaration :=
  ⟨f.name, f.arguments.map Slot.declaration, (f.output.shape D).typeRef⟩

end QueryTypes
