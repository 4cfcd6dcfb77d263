import QueryTypes.JsonHost.Basic
import QueryTypes.Proofs.Catalog.Accepted
import QueryTypes.Proofs.Catalog.Conversion

/-!
# Definitions under conversions

A conversion carries the computations of a schema to another context and leaves its definitions what
they are. What a shape says can be asked for along paths that go into lists, optionals and members
and unfold the outputs of fields; two shapes are the same definition if they say the same along every
path. A converted schema has the same definitions, and collecting them anew gives it back.
-/

namespace QueryTypes

variable {S : Signature} {c d e : S.Context} {D : Definitions S}

/-! ## Along paths into a shape -/

/-- A step into a shape: into a list, an optional, the output of a field, or a member. -/
inductive Descent where
  | item
  | inner
  | field (index : Nat)
  | member (index : Nat)

/-- What a shape says without a step: what it is, how declarations refer to it, and its fields with
their arguments and types, its tokens and its members. -/
structure Statement (S : Signature) where
  kind : TypeKind
  name? : Option String
  isOptional : Bool
  typeRef : TypeRef
  fields : List (String × List S.Argument × TypeRef)
  values : List String
  members : List String

namespace OutputShape

def statement (D : Definitions S) (s : OutputShape S c) : Statement S where
  kind := s.kind
  name? := s.name?
  isOptional := s.isOptional
  typeRef := s.typeRef
  fields := (s.fields?.getD []).map fun f => (f.name, f.arguments, (f.output.shape D).typeRef)
  values := s.values
  members := s.members.map ObjectShape.name

/-- Where a step leads to; the output of a field is looked up in the table. -/
def descend? (D : Definitions S) : Descent → OutputShape S c → Option (OutputShape S c)
  | .item, .list item => some item
  | .inner, .optional inner => some inner
  | .field i, s => (s.fields?.getD [])[i]?.map fun f => f.output.shape D
  | .member i, s => s.members[i]?.map .object
  | _, _ => none

/-- Where a path leads to. -/
def follow? (D : Definitions S) : List Descent → OutputShape S c → Option (OutputShape S c)
  | [], s => some s
  | step :: path, s => (s.descend? D step).bind (follow? D path)

/-- Two shapes, of whatever contexts, say the same along every path. -/
def SameDefinition (D : Definitions S) (s' : OutputShape S d) (s : OutputShape S c) : Prop :=
  ∀ path, (s'.follow? D path).map (statement D) = (s.follow? D path).map (statement D)

theorem statement_convert (n : S.Conversion c d) (s : OutputShape S c) :
    (s.convert n).statement D = s.statement D := by
  have hvalues : (s.convert n).values = s.values := by cases s <;> rfl
  have hfields (fields : List (FieldShape S c)) :
      (fields.map (·.convert n)).map
          (fun f => (f.name, f.arguments, (f.output.shape D).typeRef)) =
        fields.map fun f => (f.name, f.arguments, (f.output.shape D).typeRef) := by
    rw [List.map_map]
    exact List.map_congr_left fun f _ => by simp [FieldShape.convert]
  have hmembers : (s.members.map (ObjectShape.convert n)).map ObjectShape.name =
      s.members.map ObjectShape.name := by
    rw [List.map_map]
    rfl
  simp only [statement, kind_convert, name?_convert, isOptional_convert, typeRef_convert,
    fields_convert, hfields, hvalues, members_convert, hmembers]

theorem descend?_convert (n : S.Conversion c d) (step : Descent) (s : OutputShape S c) :
    (s.convert n).descend? D step = (s.descend? D step).map (convert n) := by
  cases step with
  | item => cases s <;> rfl
  | inner => cases s <;> rfl
  | field i =>
    simp only [descend?, fields_convert, List.getElem?_map, Option.map_map]
    rfl
  | member i =>
    simp only [descend?, members_convert, List.getElem?_map, Option.map_map]
    rfl

theorem follow?_convert (n : S.Conversion c d) (path : List Descent) (s : OutputShape S c) :
    (s.convert n).follow? D path = (s.follow? D path).map (convert n) := by
  induction path generalizing s with
  | nil => rfl
  | cons step path ih =>
    simp only [follow?, descend?_convert]
    cases s.descend? D step with
    | none => rfl
    | some t => exact ih t

theorem SameDefinition.convert {s' : OutputShape S d} {s : OutputShape S c}
    (h : s'.SameDefinition D s) (n : S.Conversion d e) : (s'.convert n).SameDefinition D s := by
  intro path
  rw [follow?_convert, Option.map_map, ← h path]
  exact congrArg (Option.map · _) (funext (statement_convert n))

end OutputShape

/-! ## Documents -/

namespace Catalog

theorem filterMap_outputs_convert {β : Type} {n : S.Conversion c d} {catalog : Catalog S c}
    {f' : String × OutputShape S d → Option β} {f : String × OutputShape S c → Option β}
    (h : ∀ o, f' (o.1, o.2.convert n) = f o) :
    (catalog.convert n).outputs.filterMap f' = catalog.outputs.filterMap f := by
  rw [Catalog.convert, List.filterMap_map]
  exact congrArg (List.filterMap · _) (funext h)

theorem scalarNames_convert (n : S.Conversion c d) (catalog : Catalog S c) :
    (catalog.convert n).scalarNames = catalog.scalarNames := by
  unfold scalarNames
  exact congrArg (fun outputs => (Keyed.ofPairs (outputs ++ _)).keys)
    (filterMap_outputs_convert fun ⟨_, s⟩ => by cases s <;> rfl)

theorem enums_convert (n : S.Conversion c d) (catalog : Catalog S c) :
    (catalog.convert n).enums = catalog.enums := by
  unfold enums
  exact congrArg (fun outputs => firstOfEach (outputs ++ _))
    (filterMap_outputs_convert fun ⟨_, s⟩ => by cases s <;> rfl)

theorem interfacesOf_convert (n : S.Conversion c d) (catalog : Catalog S c) (object : String) :
    (catalog.convert n).interfacesOf object = catalog.interfacesOf object := by
  refine filterMap_outputs_convert fun ⟨_, s⟩ => ?_
  cases s with
  | interface name fields members =>
    simp only [OutputShape.convert, List.any_map]
    rfl
  | _ => rfl

theorem declarations_convert (n : S.Conversion c d) (fields : List (FieldShape S c)) :
    (fields.map (·.convert n)).map (FieldShape.declaration D) =
      fields.map (FieldShape.declaration D) := by
  rw [List.map_map]
  exact List.map_congr_left fun f _ => f.declaration_convert D n

theorem blocks_convert (n : S.Conversion c d) (catalog : Catalog S c) :
    (catalog.convert n).blocks D = catalog.blocks D := by
  have hinterfaces : (catalog.convert n).outputs.filterMap (fun o => interfaceBlock? D o.2) =
      catalog.outputs.filterMap fun o => interfaceBlock? D o.2 := by
    refine filterMap_outputs_convert fun ⟨_, s⟩ => ?_
    cases s with
    | interface name fields members =>
      simp only [OutputShape.convert, interfaceBlock?, declarations_convert]
    | _ => rfl
  have hobjects : (catalog.convert n).outputs.filterMap
        (fun o => objectBlock? D (catalog.convert n) o.2) =
      catalog.outputs.filterMap fun o => objectBlock? D catalog o.2 := by
    refine filterMap_outputs_convert fun ⟨_, s⟩ => ?_
    cases s with
    | object shape =>
      simp only [OutputShape.convert, ObjectShape.convert, objectBlock?, interfacesOf_convert,
        declarations_convert]
    | _ => rfl
  have hunions : (catalog.convert n).outputs.filterMap (fun o => unionBlock? o.2) =
      catalog.outputs.filterMap fun o => unionBlock? o.2 := by
    refine filterMap_outputs_convert fun ⟨_, s⟩ => ?_
    cases s with
    | union name members =>
      simp only [OutputShape.convert, unionBlock?, List.map_map]
      rfl
    | _ => rfl
  rw [blocks, blocks, scalarNames_convert, enums_convert, hinterfaces, hobjects, hunions,
    inputs_convert]

end Catalog

/-! ## Schemas -/

namespace Schema

/-- Two schemas have the same definitions: the same names in the same order with the same outputs at
every depth, the same inputs, the same query type at every depth, and the same text. -/
structure SameDefinitions (D : Definitions S) (s' : Schema S d) (s : Schema S c) : Prop where
  names : s'.catalog.outputs.keys = s.catalog.outputs.keys
  outputs : List.Forall₂ (fun o' o => o'.1 = o.1 ∧ o'.2.SameDefinition D o.2)
    s'.catalog.outputs s.catalog.outputs
  inputs : s'.catalog.inputs = s.catalog.inputs
  queryName : s'.query.name = s.query.name
  query : OutputShape.SameDefinition D (.object s'.query.shape) (.object s.query.shape)
  text : (s'.document D).text = (s.document D).text

theorem sameDefinitions_refl (s : Schema S c) : s.SameDefinitions D s :=
  ⟨rfl, List.forall₂_same.2 fun _ _ => ⟨rfl, fun _ => rfl⟩, rfl, rfl, fun _ => rfl, rfl⟩

/-- One more conversion leaves the definitions what they are. -/
theorem SameDefinitions.convert {s' : Schema S d} {s : Schema S c} (h : s'.SameDefinitions D s)
    (n : S.Conversion d e) : (s'.convert n).SameDefinitions D s where
  names := by
    rw [← h.names]
    exact List.map_map ..
  outputs := List.forall₂_map_left_iff.2 (h.outputs.imp fun _ _ ho => ⟨ho.1, ho.2.convert n⟩)
  inputs := h.inputs
  queryName := h.queryName
  query := by
    have hquery : (s'.convert n).query.shape = s'.query.shape.convert n :=
      ObjectType.shape_convert n s'.query
    rw [hquery]
    exact h.query.convert n
  text := by
    have hdocument : (s'.convert n).document D = s'.document D :=
      congrArg (Document.mk s'.query.name) (s'.catalog.blocks_convert n)
    rw [hdocument, h.text]

/-- However often an accepted schema is converted, its definitions stay the same at every depth and
print the same, and collecting and checking them anew from the converted query type accepts it again
and gives the converted schema. -/
theorem converted_keeps_definitions {query : ObjectType S c} {schema : Schema S c}
    (h : Schema.ofQuery D query = .ok schema) (chain : S.Conversions c d) :
    (chain.carry Schema.convert schema).SameDefinitions D schema ∧
      Schema.ofQuery D (chain.carry Schema.convert schema).query =
        .ok (chain.carry Schema.convert schema) := by
  induction chain with
  | nil => exact ⟨sameDefinitions_refl schema, query_eq_of_ofQuery h ▸ h⟩
  | snoc chain n ih =>
    obtain ⟨hsame, hagain⟩ := ih
    refine ⟨hsame.convert n, ?_⟩
    change Schema.ofQuery D ((chain.carry Schema.convert schema).query.convert n) = _
    rw [ofQuery_convert, hagain]
    rfl

end Schema

/-! ## People with friends -/

namespace Friends
open JsonHost

/-- People have friends, who are people again. -/
def person : ObjectType (host 0 1) Context.thunk :=
  ⟨"Person", [("friends", .declared (.pure ⟨Fin.last 0, .nil⟩ id))]⟩

/-- Lists of people. -/
def definitions : Definitions (host 0 1) where
  input := Fin.elim0
  output _ := .list (fun | .array people => people | _ => []) (.object person)

def query : ObjectType (host 0 1) Context.thunk :=
  ⟨"Query", [("people", .declared (.pure ⟨Fin.last 0, .nil⟩ id))]⟩

def schema : Schema (host 0 1) Context.thunk where
  query := query
  catalog.outputs := [("Query", .object query.shape), ("Person", .object person.shape)]
  catalog.inputs := []

theorem accepted : Schema.ofQuery definitions query = .ok schema := by rfl

/-- Keeps a log, then adds a line to it. -/
def logging : (host 0 1).Conversions Context.thunk Context.log :=
  (Chain.nil.snoc Conversion.log).snoc (Conversion.tag "again")

/-- With every resolution logged twice, the friends of people are people with friends as before, and
the query type is accepted again. -/
theorem friends_logged :
    let logged := logging.carry Schema.convert schema
    ((OutputShape.object logged.query.shape).follow? definitions
        [.field 0, .item, .field 0, .item]).map (OutputShape.statement definitions) =
      some ⟨.object, some "Person", false, .named "Person" true,
        [("friends", [], .list (.named "Person" true) true)], [], []⟩ ∧
    Schema.ofQuery definitions logged.query = .ok logged :=
  ⟨(Schema.converted_keeps_definitions accepted logging).1.query _,
    (Schema.converted_keeps_definitions accepted logging).2⟩

end Friends
end QueryTypes
