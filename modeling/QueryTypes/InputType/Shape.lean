import QueryTypes.TypeRef

/-!
# Shapes of inputs

What an input type declares, without how it decodes. A reference names a definition of a table of
`n` input definitions, so the shapes of recursive types are finite.
-/

namespace QueryTypes

/-- Whether a slot belongs to an input object or to the arguments of a field. -/
inductive SlotKind where
  | field
  | argument
  deriving DecidableEq, Repr

/-- The declaration of one slot, its input described by an `α`. -/
structure Slot (α : Type) where
  name : String
  kind : SlotKind
  input : α
  hasDefault : Bool

/-- The shape of an input type over a table of `n` definitions. -/
inductive InputShape (n : Nat) where
  | scalar (name : String)
  | enumeration (name : String) (values : List String)
  | object (name : String) (fields : List (Slot (InputShape n)))
  | list (item : InputShape n)
  | optional (inner : InputShape n)
  | reference (name : String) (target : Fin n)

namespace InputShape
variable {n : Nat}

/-- The name inside all lists and optionals. -/
def namedType : InputShape n → String
  | .scalar name => name
  | .enumeration name _ => name
  | .object name _ => name
  | .list item => item.namedType
  | .optional inner => inner.namedType
  | .reference name _ => name

/-- The name at this level; lists and optionals have none. -/
def name? : InputShape n → Option String
  | .list _ => none
  | .optional _ => none
  | s => some s.namedType

def isOptional : InputShape n → Bool
  | .optional _ => true
  | _ => false

/-- How declarations refer to the type. -/
def typeRef : InputShape n → TypeRef
  | .list item => .list item.typeRef true
  | .optional inner => inner.typeRef.optional
  | s => .named s.namedType true

/-- The inputs of the fields of an input object, in declared order. -/
def fieldInputs : InputShape n → List (InputShape n)
  | .object _ fields => fields.map Slot.input
  | _ => []

mutual
/-- Equality of declarations. References are equal when their names are, whatever they lead to. -/
def same : InputShape n → InputShape n → Bool
  | .scalar a, .scalar b => a == b
  | .enumeration a vs, .enumeration b ws => a == b && vs == ws
  | .object a fs, .object b gs => a == b && sameSlots fs gs
  | .list a, .list b => same a b
  | .optional a, .optional b => same a b
  | .reference a _, .reference b _ => a == b
  | _, _ => false

def sameSlots : List (Slot (InputShape n)) → List (Slot (InputShape n)) → Bool
  | [], [] => true
  | ⟨a, k, s, d⟩ :: fs, ⟨b, l, t, e⟩ :: gs =>
    a == b && k == l && same s t && d == e && sameSlots fs gs
  | _, _ => false
end

instance : BEq (InputShape n) := ⟨same⟩

end InputShape

/-- How the declaration of a slot refers to its type. -/
def Slot.typeRef {n : Nat} (slot : Slot (InputShape n)) : TypeRef := slot.input.typeRef

end QueryTypes
