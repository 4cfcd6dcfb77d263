import QueryTypes.Deferral
import QueryTypes.InputType.Basic

/-!
# Signatures

What output definitions are built over: the values of the host, its contexts, and the sizes of the
two tables of definitions that may refer to each other.
-/

namespace QueryTypes

/-- The host's values and contexts, and how many input and output definitions there are. -/
structure Signature extends Effects where
  Value : Type
  /-- How enums compare values. -/
  [equality : BEq Value]
  inputs : Nat
  outputs : Nat
  /-- The context each output definition of the table is written in. -/
  home : Fin outputs → Context

instance (S : Signature) : BEq S.Value := S.equality

namespace Signature
variable (S : Signature)

/-- Input types over the signature. -/
abbrev Input := InputType S.Value S.inputs

/-- Groups of slots over the signature. -/
abbrev Arguments := Slots S.Value S.inputs

/-- Declared arguments over the signature. -/
abbrev Argument := Slot (InputShape S.inputs)

/-- Resolutions to values of type `α` in a context of the signature. -/
abbrev Resolves (c : S.Context) (α : Type) := Resolution S.toEffects c α

/-- Chains of the signature's conversions. -/
abbrev Conversions (c d : S.Context) := Chain S.toEffects c d

end Signature
end QueryTypes
