import QueryTypes.Proofs.Document.Interfaces
import QueryTypes.Proofs.Document.Lines

/-!
# What the text of a schema tells

In the document of an accepted schema everything is named well but, maybe, references to inputs.
Where these are named like what they stand for, the text gives back the document, and so all that
the schema declares. What it does not give back is how often an optional is around an optional, and
whether an input stood in its place or was referred to by name.
-/

namespace QueryTypes

variable {S : Signature} {c : S.Context} {D : Definitions S}

/-! ## Equal declarations -/

/-- A list or an optional around a type. -/
inductive Layer where
  | list | optional

/-- Puts a layer around others; an optional of an optional is an optional. -/
def Layer.around : Layer → List Layer → List Layer
  | .optional, .optional :: layers => .optional :: layers
  | layer, layers => layer :: layers

/-- The layers with each run of optionals made one. -/
def Layer.collapse (layers : List Layer) : List Layer := layers.foldr around []

/-- The lists and optionals around the named type, from the outside. -/
def OutputShape.layers : OutputShape S c → List Layer
  | .list item => .list :: item.layers
  | .optional inner => .optional :: inner.layers
  | _ => []

/-- The lists and optionals around the named type, from the outside. -/
def InputShape.layers {n : Nat} : InputShape n → List Layer
  | .list item => .list :: item.layers
  | .optional inner => .optional :: inner.layers
  | _ => []

namespace TypeRef

/-- The lists and optionals around the name, from the outside. -/
def layers : TypeRef → List Layer
  | .named _ required => if required then [] else [.optional]
  | .list item required => (if required then [] else [.optional]) ++ .list :: item.layers

@[simp] theorem layers_optional (t : TypeRef) :
    t.optional.layers = Layer.around .optional t.layers := by
  cases t with
  | named name required => cases required <;> rfl
  | list item required => cases required <;> rfl

theorem eq_of_layers_eq {s t : TypeRef} (hname : s.name = t.name) (hlayers : s.layers = t.layers) :
    s = t := by
  induction s generalizing t with
  | named a required =>
    obtain rfl : a = t.name := hname
    cases t with
    | named b required' => cases required <;> cases required' <;> first | rfl | cases hlayers
    | list item required' => cases required <;> cases required' <;> cases hlayers
  | list item required ih =>
    cases t with
    | named b required' => cases required <;> cases required' <;> cases hlayers
    | list item' required' =>
      have hitem : item.layers = item'.layers → item = item' := ih hname
      cases required <;> cases required' <;> simp [layers] at hlayers
      · rw [hitem hlayers]
      · rw [hitem hlayers]

/-- A type reference is its name in its lists and optionals. -/
theorem eq_iff {s t : TypeRef} : s = t ↔ s.name = t.name ∧ s.layers = t.layers := by
  constructor
  · rintro rfl
    exact ⟨rfl, rfl⟩
  · rintro ⟨hname, hlayers⟩
    exact eq_of_layers_eq hname hlayers

end TypeRef

theorem OutputShape.layers_typeRef (s : OutputShape S c) :
    s.typeRef.layers = Layer.collapse s.layers := by
  induction s with
  | list item ih => exact congrArg (Layer.list :: ·) ih
  | optional inner ih => exact (TypeRef.layers_optional _).trans (congrArg _ ih)
  | _ => rfl

theorem InputShape.layers_typeRef {n : Nat} (s : InputShape n) :
    s.typeRef.layers = Layer.collapse s.layers := by
  match s with
  | .list item => exact congrArg (Layer.list :: ·) (layers_typeRef item)
  | .optional inner => exact (TypeRef.layers_optional _).trans (congrArg _ (layers_typeRef inner))
  | .scalar _ | .enumeration _ _ | .object _ _ | .reference _ _ => rfl

section TwoSchemas
variable {S' : Signature} {c' : S'.Context} {D' : Definitions S'}

/-- Outputs are referred to alike if they have one named type in the same lists and optionals. -/
theorem OutputShape.typeRef_eq_iff {s : OutputShape S c} {t : OutputShape S' c'} :
    s.typeRef = t.typeRef ↔
      s.namedType = t.namedType ∧ Layer.collapse s.layers = Layer.collapse t.layers := by
  rw [TypeRef.eq_iff, s.name_typeRef, t.name_typeRef, s.layers_typeRef, t.layers_typeRef]

theorem Slot.declaration_eq_iff {n m : Nat} {a : Slot (InputShape n)} {b : Slot (InputShape m)} :
    a.declaration = b.declaration ↔ a.name = b.name ∧ a.input.namedType = b.input.namedType ∧
      Layer.collapse a.input.layers = Layer.collapse b.input.layers := by
  rw [Slot.declaration, Slot.declaration, Prod.mk.injEq, TypeRef.eq_iff, Slot.typeRef, Slot.typeRef,
    a.input.name_typeRef, b.input.name_typeRef, a.input.layers_typeRef, b.input.layers_typeRef]

/-- Fields declare the same if they agree in their names, in the names of their arguments in order,
and for all of these in the named type and in the lists and optionals around it, where an optional
of an optional counts once. -/
theorem FieldShape.declaration_eq_iff {f : FieldShape S c} {g : FieldShape S' c'} :
    f.declaration D = g.declaration D' ↔
      f.name = g.name ∧
      List.Forall₂ (fun a b => a.name = b.name ∧ a.input.namedType = b.input.namedType ∧
        Layer.collapse a.input.layers = Layer.collapse b.input.layers) f.arguments g.arguments ∧
      (f.output.shape D).namedType = (g.output.shape D').namedType ∧
      Layer.collapse (f.output.shape D).layers = Layer.collapse (g.output.shape D').layers := by
  have harguments : f.arguments.map Slot.declaration = g.arguments.map Slot.declaration ↔
      List.Forall₂ (fun a b => a.declaration = b.declaration) f.arguments g.arguments := by
    rw [← List.forall₂_eq_eq_eq, List.forall₂_map_left_iff, List.forall₂_map_right_iff]
  simp only [declaration, Declaration.mk.injEq, harguments, Slot.declaration_eq_iff,
    OutputShape.typeRef_eq_iff]

end TwoSchemas

/-! ## Accepted schemas -/

section Accepted
variable {query : ObjectType S c} {schema : Schema S c}

theorem isName_of_mem_values (h : Schema.ofQuery D query = .ok schema) {name : String}
    {r : Definition S c} (hr : schema.catalog.Holds name r) {value : String}
    (hvalue : value ∈ (r.contents D).values) : isName value := by
  cases r with
  | output s =>
    cases s with
    | enumeration name values =>
      have henum : WellFormedEnum name values := wellFormed_of_holds h hr
      exact henum.names value hvalue
    | _ => cases hvalue
  | input s =>
    cases s with
    | enumeration name values =>
      have henum : WellFormedEnum name values := wellFormed_of_holds h hr
      exact henum.names value hvalue
    | _ => cases hvalue

theorem isName_of_mem_members (h : Schema.ofQuery D query = .ok schema) {name : String}
    {r : Definition S c} (hr : schema.catalog.Holds name r) {member : String}
    (hmember : member ∈ (r.contents D).members) : isName member := by
  cases r with
  | output t =>
    obtain ⟨m, hm, rfl⟩ := List.mem_map.1 hmember
    obtain ⟨o, ho, -, -⟩ := entered_member h hr hm
    exact isName_of_holds h (r := .output (.object o)) (Keyed.mem_of_lookup ho)
  | input i => cases hmember

theorem isName_of_mem_interfacesOf (h : Schema.ofQuery D query = .ok schema) {object name : String}
    (hname : name ∈ schema.catalog.interfacesOf object) : isName name := by
  obtain ⟨key, fields, members, hentry, -⟩ := Catalog.mem_interfacesOf.1 hname
  obtain rfl : key = name := name_of_mem_outputs h hentry
  exact isName_of_holds h (r := .output (.interface key fields members)) hentry

/-- Where references are named like what they stand for, all that the document names has a usable
name. -/
theorem document_wellFormed (h : Schema.ofQuery D query = .ok schema)
    (htrue : schema.catalog.Truthful D) : (schema.document D).WellFormed := by
  have hconsistent := ofQuery_consistent h
  constructor
  · have hfirst := List.mem_of_mem_head? (Catalog.head?_collect (ofQuery_collect h))
    have hentry : schema.catalog.Holds query.name query.definition := hfirst
    have hname := isName_of_holds h hentry
    rwa [← query_eq_of_ofQuery h] at hname
  · intro b hb
    obtain ⟨r, hr, -, hprints⟩ := hconsistent.exists_entry hb
    constructor
    · exact isName_of_holds h hr
    · intro d hd
      rw [hprints.fields] at hd
      exact wellFormed_of_declared h htrue hr hd
    · intro value hvalue
      rw [hprints.values] at hvalue
      exact isName_of_mem_values h hr hvalue
    · intro member hmember
      cases b with
      | union name members =>
        rw [hprints.members rfl] at hmember
        exact isName_of_mem_members h hr hmember
      | _ => cases hmember
    · intro interface hinterface
      cases b with
      | object name interfaces fields =>
        obtain ⟨⟨key, t⟩, -, heq⟩ := List.mem_filterMap.1 (Catalog.mem_blocks_iff.1 hb)
        cases t <;> cases heq
        exact isName_of_mem_interfacesOf h hinterface
      | _ => cases hinterface

/-- The text of an accepted schema tells what the schema declares, where references to inputs are
named like what they stand for. Schemas of one text have query types of one name, and have in the
same order the same scalars that are not built in, enums with their values, input objects with their
fields, interfaces with theirs, object types with their interfaces and fields, and unions with their
members. When two fields are the same, `FieldShape.declaration_eq_iff` says. -/
theorem text_determines_schema {S' : Signature} {c' : S'.Context} {D' : Definitions S'}
    {query' : ObjectType S' c'} {schema' : Schema S' c'}
    (h : Schema.ofQuery D query = .ok schema) (h' : Schema.ofQuery D' query' = .ok schema')
    (htrue : schema.catalog.Truthful D) (htrue' : schema'.catalog.Truthful D')
    (htext : (schema.document D).text = (schema'.document D').text) :
    schema.query.name = schema'.query.name ∧
      ∀ kind, schema.catalog.group D kind = schema'.catalog.group D' kind := by
  have hsame : schema.document D = schema'.document D' :=
    Document.eq_of_text_eq (document_wellFormed h htrue) (document_wellFormed h' htrue') htext
  refine ⟨congrArg Document.query hsame, ?_⟩
  intro kind
  have hblocks : schema.catalog.blocks D = schema'.catalog.blocks D' :=
    congrArg Document.blocks hsame
  rw [← Catalog.filter_kind_blocks, hblocks, Catalog.filter_kind_blocks]

end Accepted

/-! ## Trees by name and in place -/

namespace Trees
open JsonHost

/-- A tree or null, where the tree is referred to by name. -/
def once : InputType Json 1 := .optional byName orNull

/-- A tree or null or null again, where the tree is defined in place. -/
def twice : InputType Json 1 :=
  .optional (.optional (definitions.input (Fin.last 0)) orNull) orNull

theorem accepted_once : Schema.ofQuery definitions (depthOf once) = .ok (schemaOf once) := by rfl

theorem accepted_twice : Schema.ofQuery definitions (depthOf twice) = .ok (schemaOf twice) := by rfl

theorem truthful {tree : InputType Json 1}
    (htree : tree.shape.LeadsTo definitions.input (definitions.input (Fin.last 0)).shape)
    (hname : tree.shape.namedType = "Tree") : (schemaOf tree).catalog.Truthful definitions := by
  intro name r hr s hs i hlead
  cases r with
  | output t =>
    change (name, t) ∈ [_, _] at hr
    rcases List.mem_pair.1 hr with hr | hr <;> cases hr
    · cases List.mem_singleton.1 hs
      rw [hlead.unique htree]
      exact hname
    · cases hs
  | input t =>
    cases List.mem_singleton.1 hr
    cases List.mem_singleton.1 hs
    rw [hlead.unique (.list (.reference (.object _ _)))]
    rfl

/-- The two queries have one text, and so the same definitions. -/
theorem one_text_one_catalog : (schemaOf once).query.name = (schemaOf twice).query.name ∧
    ∀ kind, (schemaOf once).catalog.group definitions kind =
      (schemaOf twice).catalog.group definitions kind :=
  text_determines_schema accepted_once accepted_twice
    (truthful (.optional (.reference (.object _ _))) rfl)
    (truthful (.optional (.optional (.object _ _))) rfl) (by rfl)

end Trees
end QueryTypes
