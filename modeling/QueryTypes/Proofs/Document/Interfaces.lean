import QueryTypes.JsonHost.Basic
import QueryTypes.Proofs.Document.Blocks

/-!
# Interfaces in documents

An interface is checked against the members that it was built with, but a document prints the first
definition of each name. The two meet in the signatures: a member is entered under its name with the
signatures that the interface's own member has, and fields that are compared alike print alike.
-/

namespace QueryTypes

variable {S : Signature} {c : S.Context} {D : Definitions S}

/-! ## Fields that print alike -/

/-- The lines of a block that declare fields. -/
def Block.fieldLines : Block → List String
  | .interface _ fields => fields.map fun f => "  " ++ f.text
  | .object _ _ fields => fields.map fun f => "  " ++ f.text
  | _ => []

theorem Block.lines_interface (name : String) (fields : List Declaration) :
    (Block.interface name fields).lines =
      ("interface " ++ name ++ " \x7b") ::
        (Block.interface name fields).fieldLines ++ ["\x7d"] := by
  simp [lines, bodyLines, fieldLines]

theorem Block.lines_object (name : String) (interfaces : List String) (fields : List Declaration) :
    (Block.object name interfaces fields).lines =
      ("type " ++ name ++ implementsText interfaces ++ " \x7b") ::
        (Block.object name interfaces fields).fieldLines ++ ["\x7d"] := by
  simp [lines, bodyLines, fieldLines]

namespace Catalog
variable {catalog : Catalog S c}

theorem mem_interfacesOf {object name : String} :
    name ∈ catalog.interfacesOf object ↔ ∃ key fields members,
      (key, .interface name fields members) ∈ catalog.outputs ∧ ∃ m ∈ members, m.name = object := by
  simp only [interfacesOf, List.mem_filterMap]
  constructor
  · rintro ⟨⟨key, t⟩, ht, heq⟩
    cases t with
    | interface name' fields members =>
      simp only [Option.ite_none_right_eq_some, List.any_eq_true, beq_iff_eq] at heq
      obtain ⟨hmember, heq⟩ := heq
      cases heq
      exact ⟨key, fields, members, ht, hmember⟩
    | _ => cases heq
  · rintro ⟨key, fields, members, ht, hmember⟩
    exact ⟨_, ht, by simpa using hmember⟩

end Catalog

/-! ## Accepted schemas -/

namespace Pets
open JsonHost

/-- A field of the given name, its text written by the output at `target`. -/
def textField (name : String) (target : Fin 4) : String × Resolver (host 0 4) Context.thunk :=
  (name, .declared (.pure ⟨target, .nil⟩ fun v => part v (.name name)))

/-- A dog, its texts written by the output at `target`. -/
def dog (target : Fin 4) : ObjectType (host 0 4) Context.thunk :=
  ⟨"Dog", [textField "name" target, textField "breed" target]⟩

/-- Pets, of which dogs are the only kind. -/
def pet : AbstractType (host 0 4) Context.thunk :=
  .interface "Pet" [textField "name" 1] [.concrete (dog 1) (ofKind 1)]

/-- Two ways to write a text, a dog, and pets that have been built with another dog. -/
def definitions : Definitions (host 0 4) where
  input := Fin.elim0
  output
    | 0 => .scalar "String" id
    | 1 => .scalar "String" Writer.text.write
    | 2 => .object (dog 0)
    | 3 => .abstract pet

/-- The dog is found before the pets. -/
def query : ObjectType (host 0 4) Context.thunk :=
  ⟨"Query", [("dog", .declared (.pure ⟨2, .nil⟩ id)), ("pet", .declared (.pure ⟨3, .nil⟩ id))]⟩

def schema : Schema (host 0 4) Context.thunk where
  query := query
  catalog.outputs := [("Query", .object query.shape), ("Dog", .object (dog 0).shape),
    ("Pet", pet.shape), ("String", .scalar "String")]
  catalog.inputs := []

theorem accepted : Schema.ofQuery definitions query = .ok schema := by rfl

end Pets
end QueryTypes
