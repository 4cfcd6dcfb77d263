import QueryTypes.Proofs.Contents
import QueryTypes.Schema.Basic
import Mathlib.Logic.Relation

/-!
# Links between definitions

A definition is an output or an input with no list, optional or reference around it. Definitions link
to each other through fields, members, arguments and the fields of input objects, and what a host or
client can ever meet is what the query type reaches along such links. `Links` does not ask whether a
name has been entered in a catalog before: it goes on below every definition.
-/

namespace QueryTypes

variable {S : Signature} {c : S.Context}

/-! ## Inside lists, optionals and references -/

/-- The output inside all lists and optionals. -/
def OutputShape.core : OutputShape S c → OutputShape S c
  | .list item => item.core
  | .optional inner => inner.core
  | s => s

/-- The definition that an input comes down to, through any number of lists, optionals and references
of a table. -/
inductive InputShape.LeadsTo {V : Type} {n : Nat} (table : InputTable V n) :
    InputShape n → InputShape n → Prop
  | scalar (name : String) : LeadsTo table (.scalar name) (.scalar name)
  | enumeration (name : String) (values : List String) :
      LeadsTo table (.enumeration name values) (.enumeration name values)
  | object (name : String) (fields : List (Slot (InputShape n))) :
      LeadsTo table (.object name fields) (.object name fields)
  | list {item d : InputShape n} : LeadsTo table item d → LeadsTo table (.list item) d
  | optional {inner d : InputShape n} : LeadsTo table inner d → LeadsTo table (.optional inner) d
  | reference {name : String} {target : Fin n} {d : InputShape n} :
      LeadsTo table (table target).shape d → LeadsTo table (.reference name target) d

theorem InputShape.fieldInputs_eq {n : Nat} (s : InputShape n) :
    s.fieldInputs = s.slots.map Slot.input := by
  cases s <;> rfl

@[simp] theorem OutputShape.namedType_core (s : OutputShape S c) : s.core.namedType = s.namedType := by
  induction s with
  | list _ ih => exact ih
  | optional _ ih => exact ih
  | _ => rfl

@[simp] theorem TypeRef.name_optional (r : TypeRef) : r.optional.name = r.name := by
  cases r <;> rfl

theorem OutputShape.name_typeRef (s : OutputShape S c) : s.typeRef.name = s.namedType := by
  induction s with
  | list _ ih => exact ih
  | optional _ ih => exact (TypeRef.name_optional _).trans ih
  | _ => rfl

theorem InputShape.name_typeRef {n : Nat} (s : InputShape n) : s.typeRef.name = s.namedType := by
  match s with
  | .list item => exact name_typeRef item
  | .optional inner => exact (TypeRef.name_optional _).trans (name_typeRef inner)
  | .scalar _ | .enumeration _ _ | .object _ _ | .reference _ _ => rfl

namespace InputShape.LeadsTo
variable {V : Type} {n : Nat} {table : InputTable V n} {s d e : InputShape n}

/-- An input leads to one definition at most. -/
theorem unique (hd : LeadsTo table s d) (he : LeadsTo table s e) : d = e := by
  induction hd with
  | scalar => cases he; rfl
  | enumeration => cases he; rfl
  | object => cases he; rfl
  | list _ ih => cases he with | list he => exact ih he
  | optional _ ih => cases he with | optional he => exact ih he
  | reference _ ih => cases he with | reference he => exact ih he

end InputShape.LeadsTo

/-! ## Following references -/

namespace InputShape
variable {V : Type} {n : Nat} {table : InputTable V n}

theorem leadsTo_of_definitionWith {unfold : Fin n → Option (InputShape n)}
    (hu : ∀ target d, unfold target = some d → (table target).shape.LeadsTo table d) :
    ∀ {s d : InputShape n}, s.definitionWith unfold = some d → s.LeadsTo table d
  | .scalar name, _, h => by cases h; exact .scalar name
  | .enumeration name values, _, h => by cases h; exact .enumeration name values
  | .object name fields, _, h => by cases h; exact .object name fields
  | .list _, _, h => .list (leadsTo_of_definitionWith hu h)
  | .optional _, _, h => .optional (leadsTo_of_definitionWith hu h)
  | .reference _ target, d, h => .reference (hu target d h)

theorem leadsTo_of_definitionAt {fuel : Nat} :
    ∀ target d, definitionAt table fuel target = some d → (table target).shape.LeadsTo table d := by
  induction fuel with
  | zero => exact fun _ _ h => by cases h
  | succ fuel ih => exact fun _ _ h => leadsTo_of_definitionWith ih h

/-- What a catalog enters for an input is what the input leads to. -/
theorem leadsTo_of_definition? {s d : InputShape n} (h : s.definition? table = some d) :
    s.LeadsTo table d :=
  leadsTo_of_definitionWith leadsTo_of_definitionAt h

end InputShape

/-! ## Definitions -/

/-- A definition on the side of outputs or of inputs. -/
inductive Definition (S : Signature) (c : S.Context) where
  | output (shape : OutputShape S c)
  | input (shape : InputShape S.inputs)

/-- The two sides, each with names of its own in a catalog. -/
inductive Side where
  | output | input

/-- The opposite side. -/
def Side.other : Side → Side
  | .output => .input
  | .input => .output

namespace Definition

def side : Definition S c → Side
  | .output _ => .output
  | .input _ => .input

def name : Definition S c → String
  | .output s => s.namedType
  | .input s => s.namedType

def kind : Definition S c → TypeKind
  | .output s => s.kind
  | .input s => s.kind

/-- What the definition declares. -/
def contents (D : Definitions S) : Definition S c → Contents
  | .output s => s.contents D
  | .input s => s.contents

/-- The texts by which a catalog compares definitions. -/
def signature (D : Definitions S) : Definition S c → List String
  | .output s => s.signature D
  | .input s => s.signature

/-- The fields of an object or interface. -/
def fields : Definition S c → List (FieldShape S c)
  | .output s => s.fields?.getD []
  | .input _ => []

/-- The inputs of the arguments of all fields, or of the fields of an input object. -/
def inputs : Definition S c → List (InputShape S.inputs)
  | .output s => (s.fields?.getD []).flatMap fun f => f.arguments.map Slot.input
  | .input s => s.fieldInputs

/-- The members of an interface or union. -/
def members : Definition S c → List (ObjectShape S c)
  | .output s => s.members
  | .input _ => []

/-- The definitions that a definition refers to directly. -/
inductive Links (D : Definitions S) (d : Definition S c) : Definition S c → Prop
  | field {f : FieldShape S c} : f ∈ d.fields → Links D d (.output (f.output.shape D).core)
  | member {m : ObjectShape S c} : m ∈ d.members → Links D d (.output (.object m))
  | input {s i : InputShape S.inputs} : s ∈ d.inputs → s.LeadsTo D.input i → Links D d (.input i)

/-- What has no members and asks for no inputs refers to what its fields give. -/
theorem Links.exists_field {D : Definitions S} {d e : Definition S c} (h : d.Links D e)
    (hmembers : d.members = []) (hinputs : d.inputs = []) :
    ∃ f ∈ d.fields, e = .output (f.output.shape D).core := by
  cases h with
  | @field f hf => exact ⟨f, hf, rfl⟩
  | member hm =>
    rw [hmembers] at hm
    cases hm
  | input hs _ =>
    rw [hinputs] at hs
    cases hs

/-- What has no parts refers to nothing. -/
theorem not_links {D : Definitions S} {d e : Definition S c} (hfields : d.fields = [])
    (hmembers : d.members = []) (hinputs : d.inputs = []) : ¬ d.Links D e := by
  intro h
  obtain ⟨f, hf, -⟩ := h.exists_field hmembers hinputs
  rw [hfields] at hf
  cases hf

end Definition

/-- The definition of a query type. -/
def ObjectType.definition (query : ObjectType S c) : Definition S c := .output (.object query.shape)

/-- The definitions that a query type reaches, the ones below a repeated name included. -/
def Reaches (D : Definitions S) (query : ObjectType S c) : Definition S c → Prop :=
  Relation.ReflTransGen (Definition.Links D) query.definition

/-- Any two definitions of one name on one side declare the same. -/
def Coherent (D : Definitions S) (query : ObjectType S c) : Prop :=
  ∀ d e, Reaches D query d → Reaches D query e → d.side = e.side → d.name = e.name →
    d.contents D = e.contents D

/-- Every reached input is referred to by the name of the definition that it leads to, so references
are named like what they stand for. -/
def TruthfulReferences (D : Definitions S) (query : ObjectType S c) : Prop :=
  ∀ d, Reaches D query d → ∀ s ∈ d.inputs, ∀ i, s.LeadsTo D.input i → s.namedType = i.namedType

end QueryTypes
