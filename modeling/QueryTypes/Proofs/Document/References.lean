import QueryTypes.Proofs.Document.Blocks

/-!
# References in documents

A document defines what it refers to, or it is built in: outputs are referred to by the names they
are entered under. Inputs need not be. A reference to an input stands in the document with a name of
its own, which no rule looks at, while the definition that it leads to is entered and checked under
another.
-/

namespace QueryTypes

variable {S : Signature} {c : S.Context} {D : Definitions S}

/-- The type references in a block. -/
def Block.references (b : Block) : List TypeRef := b.fields.flatMap Declaration.references

/-- The name is one that documents need not define, or this one defines it. -/
def Document.Knows (d : Document) (name : String) : Prop :=
  name ∈ builtInScalars ∨ ∃ b ∈ d.blocks, b.name = name

section Accepted
variable {query : ObjectType S c} {schema : Schema S c}

/-- What is entered is known by a usable name. -/
theorem known_of_holds (h : Schema.ofQuery D query = .ok schema) {name : String}
    {r : Definition S c} (hr : schema.catalog.Holds name r) :
    isName name ∧ (schema.document D).Knows name := by
  refine ⟨isName_of_holds h hr, ?_⟩
  have hconsistent := ofQuery_consistent h
  by_cases hbuilt : r.IsBuiltIn
  · have hname := (hconsistent.named name r hr).1
    exact .inl (hname ▸ hbuilt.2)
  · exact .inr (hconsistent.exists_block hr hbuilt)

/-- In the document of an accepted schema every type reference has a usable name that is built in or
defined, with one exception: a reference to an input may have another name than the definition that
it leads to, and then it is that definition's name which is usable, and built in or defined. So
references of output fields are always known, and all references are where they are named like what
they stand for. -/
theorem references_known (h : Schema.ofQuery D query = .ok schema) :
    (∀ b ∈ (schema.document D).blocks, b.kind ≠ .input → ∀ d ∈ b.fields,
      isName d.type.name ∧ (schema.document D).Knows d.type.name) ∧
    (∀ b ∈ (schema.document D).blocks, ∀ t ∈ b.references,
      (isName t.name ∧ (schema.document D).Knows t.name) ∨
        ∃ r s i, schema.catalog.Holds b.name r ∧ s ∈ r.inputs ∧ s.typeRef = t ∧
          s.LeadsTo D.input i ∧ i.namedType ≠ t.name ∧
          isName i.namedType ∧ (schema.document D).Knows i.namedType) ∧
    (schema.catalog.Truthful D → ∀ b ∈ (schema.document D).blocks, ∀ t ∈ b.references,
      isName t.name ∧ (schema.document D).Knows t.name) := by
  have hconsistent := ofQuery_consistent h
  refine ⟨?_, ?_, ?_⟩
  · intro b hb hkind d hd
    obtain ⟨r, hr, -, hprints⟩ := hconsistent.exists_entry hb
    rw [hprints.fields] at hd
    cases r with
    | output t =>
      obtain ⟨e, he⟩ := entered_of_type h hr hd
      exact known_of_holds h he
    | input i =>
      -- only input objects have fields on this side
      rw [hprints.kind] at hkind
      cases i with
      | object name fields => exact absurd rfl hkind
      | _ => cases hd
  · intro b hb t ht
    obtain ⟨r, hr, -, hprints⟩ := hconsistent.exists_entry hb
    obtain ⟨d, hd, ht⟩ := List.mem_flatMap.1 ht
    rw [hprints.fields] at hd
    rcases entered_of_reference h hr hd ht with ⟨e, he⟩ | ⟨s, hs, rfl⟩
    · exact .inl (known_of_holds h he)
    · obtain ⟨i, hlead, e, he⟩ := entered_of_input h hr hs
      by_cases hname : i.namedType = s.typeRef.name
      · exact .inl (hname ▸ known_of_holds h he)
      · exact .inr ⟨r, s, i, hr, hs, rfl, hlead, hname, known_of_holds h he⟩
  · intro htrue b hb t ht
    obtain ⟨r, hr, -, hprints⟩ := hconsistent.exists_entry hb
    obtain ⟨d, hd, ht⟩ := List.mem_flatMap.1 ht
    rw [hprints.fields] at hd
    obtain ⟨e, he⟩ := entered_of_truthful_reference h htrue hr hd ht
    exact known_of_holds h he

end Accepted

/-! ## A reference with a name of its own -/

namespace Lives
open JsonHost

/-- Lives are input objects with a count. -/
def definitions : Definitions (host 1 1) where
  input _ := .object "Life" (.single "count" .field (.scalar "Int" Reader.int.read) none)
  output _ := .scalar "Int" id

/-- A cat with lives, which are referred to by the given name. -/
def query (name : String) : ObjectType (host 1 1) .thunk :=
  ⟨"Query", [("cat", .declared (.withArguments
    (.single "lives" .argument (.reference name (Fin.last 0)) none) ⟨Fin.last 0, .nil⟩
    fun _ lives => .pure lives))]⟩

def schema (name : String) : Schema (host 1 1) .thunk where
  query := query name
  catalog.outputs := [("Query", .object (query name).shape), ("Int", .scalar "Int")]
  catalog.inputs := [("Life", (definitions.input (Fin.last 0)).shape), ("Int", .scalar "Int")]

theorem accepted_lives : Schema.ofQuery definitions (query "Life") = .ok (schema "Life") := by rfl

/-- The query type as documents print it. -/
def block (name : String) : Block :=
  .object "Query" [] [⟨"cat", [("lives", .named name true)], .named "Int" true⟩]

theorem block_mem (name : String) : block name ∈ ((schema name).document definitions).blocks :=
  .tail _ (.head _)

theorem lives_mem (name : String) : .named name true ∈ (block name).references :=
  .tail _ (.head _)

/-- Nine lives: the document refers to a type by what is no name, and it defines no such type. -/
theorem exists_accepted_not_known : ∃ schema,
    Schema.ofQuery definitions (query "9 lives") = .ok schema ∧
    ∃ b ∈ (schema.document definitions).blocks, ∃ t ∈ b.references,
      ¬ isName t.name ∧ ¬ (schema.document definitions).Knows t.name := by
  refine ⟨schema "9 lives", by rfl, block "9 lives", block_mem _, _, lives_mem _, by decide, ?_⟩
  rintro (hbuilt | ⟨b, hb, hname⟩)
  · exact absurd hbuilt (by decide)
  · change b ∈ [_, _] at hb
    rcases List.mem_pair.1 hb with rfl | rfl <;> exact absurd hname (by decide)

theorem truthful : (schema "Life").catalog.Truthful definitions := by
  intro name r hr s hs i hlead
  cases r with
  | output t =>
    change (name, t) ∈ [_, _] at hr
    rcases List.mem_pair.1 hr with hr | hr <;> cases hr
    · cases List.mem_singleton.1 hs
      rw [hlead.unique (.reference (.object _ _))]
      rfl
    · cases hs
  | input t =>
    change (name, t) ∈ [_, _] at hr
    rcases List.mem_pair.1 hr with hr | hr <;> cases hr
    · cases List.mem_singleton.1 hs
      rw [hlead.unique (.scalar _)]
      rfl
    · cases hs

/-- Lives that are referred to by their name are known. -/
theorem lives_known : isName "Life" ∧ ((schema "Life").document definitions).Knows "Life" :=
  (references_known accepted_lives).2.2 truthful (block "Life") (block_mem _) _ (lives_mem _)

end Lives
end QueryTypes
