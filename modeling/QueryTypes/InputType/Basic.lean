import QueryTypes.InputType.Shape
import QueryTypes.Json.Basic

/-!
# Input types

Typed decoders of payloads into host values of type `V`, built from scalars, enums and input
objects, then wrapped as lists and optionals. A reference unfolds to a definition of a table of `n`
input types when a payload reaches it, which is how input objects refer to themselves.
-/

namespace QueryTypes

mutual
/-- A decoder into `V` over a table of `n` definitions. -/
inductive InputType (V : Type) (n : Nat) where
  /-- A leaf that `read` accepts or refuses with a message. -/
  | scalar (name : String) (read : Json → Except String V)
  /-- A token with the value it stands for. -/
  | enumeration (name : String) (pairs : List (String × V))
  /-- An input object with the given slots. -/
  | object (name : String) (slots : Slots V n)
  /-- A list whose decoded elements `assemble` joins. -/
  | list (item : InputType V n) (assemble : List V → V)
  /-- Null, or a payload of the inner type. -/
  | optional (inner : InputType V n) (assemble : Option V → V)
  /-- A transformation of the decoded value. -/
  | map (f : V → V) (inner : InputType V n)
  /-- A definition of the table, under a name of its own. -/
  | reference (name : String) (target : Fin n)

/-- Ordered slots decoded in one step, a tree whose leaves are the slots from left to right. -/
inductive Slots (V : Type) (n : Nat) where
  /-- One slot, with the value that stands in for an absent payload if there is one. -/
  | single (name : String) (kind : SlotKind) (input : InputType V n) (default : Option V)
  /-- The slots of both sides, their results joined by `combine`. -/
  | merge (combine : V → V → V) (left right : Slots V n)
  /-- A transformation of the result. -/
  | map (f : V → V) (slots : Slots V n)
end

/-- A table of `n` input definitions that refer to each other. -/
abbrev InputTable (V : Type) (n : Nat) := Fin n → InputType V n

variable {V : Type} {n : Nat}

mutual
/-- What the type declares. An enum declares each token once, where it stands first. -/
def InputType.shape : InputType V n → InputShape n
  | .scalar name _ => .scalar name
  | .enumeration name pairs => .enumeration name (Keyed.ofPairs pairs).keys
  | .object name slots => .object name slots.declarations
  | .list item _ => .list item.shape
  | .optional inner _ => .optional inner.shape
  | .map _ inner => inner.shape
  | .reference name target => .reference name target

/-- The declared slots from left to right. -/
def Slots.declarations : Slots V n → List (Slot (InputShape n))
  | .single name kind input default => [⟨name, kind, input.shape, default.isSome⟩]
  | .merge _ left right => left.declarations ++ right.declarations
  | .map _ slots => slots.declarations
end

/-- How many slots there are. -/
def Slots.size : Slots V n → Nat
  | .single .. => 1
  | .merge _ left right => left.size + right.size
  | .map _ slots => slots.size

theorem Slots.length_declarations (slots : Slots V n) : slots.declarations.length = slots.size := by
  match slots with
  | .single .. => simp [declarations, size]
  | .merge _ left right =>
    simp [declarations, size, length_declarations left, length_declarations right]
  | .map _ inner => simp [declarations, size, length_declarations inner]

theorem Slots.size_pos (slots : Slots V n) : 0 < slots.size := by
  match slots with
  | .single .. => simp [size]
  | .merge _ left right => have := size_pos left; simp only [size]; omega
  | .map _ inner => simpa [size] using size_pos inner

end QueryTypes
