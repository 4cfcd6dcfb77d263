import QueryTypes.JsonHost.Basic
import QueryTypes.Proofs.Catalog.Accepted

/-!
# Catalogs as closures

The catalog of an accepted schema starts with the query type and is closed under the links of its
own entries: whatever an entry refers to has an entry of its name and kind. It holds nothing else,
for each entry is reached from the query type from entry to entry.
-/

namespace QueryTypes

variable {S : Signature} {c : S.Context} {D : Definitions S}

@[simp] theorem OutputShape.kind_core (s : OutputShape S c) : s.core.kind = s.kind := by
  induction s with
  | list _ ih => exact ih
  | optional _ ih => exact ih
  | _ => rfl

namespace Catalog
variable {catalog : Catalog S c} {query : ObjectType S c}

/-- One entry refers to another. -/
def LinksEntries (D : Definitions S) (catalog : Catalog S c) (r e : Definition S c) : Prop :=
  catalog.Holds r.name r ∧ catalog.Holds e.name e ∧ r.Links D e

/-- From the query type to the definition, from entry to entry. -/
def Chains (D : Definitions S) (catalog : Catalog S c) (query : ObjectType S c) :
    Definition S c → Prop :=
  Relation.ReflTransGen (catalog.LinksEntries D) query.definition

/-- What is in line to be entered: the query type, or what an entry with a chain to it refers to. -/
def Awaits (D : Definitions S) (catalog : Catalog S c) (query : ObjectType S c)
    (d : Definition S c) : Prop :=
  d = query.definition ∨ ∃ r, catalog.Holds r.name r ∧ catalog.Chains D query r ∧ r.Links D d

theorem Awaits.chains {d : Definition S c} (h : catalog.Awaits D query d)
    (hd : catalog.Holds d.name d) : catalog.Chains D query d := by
  rcases h with rfl | ⟨r, hr, hchain, hlink⟩
  · exact .refl
  · exact hchain.tail ⟨hr, hd, hlink⟩

/-- What is collected for an object type starts with that type. -/
theorem head?_collect {o : ObjectShape S c} (h : empty.collect D (.object o) = .ok catalog) :
    catalog.outputs.head? = some (o.name, .object o) := by
  obtain ⟨fuel, hfuel⟩ : ∃ fuel, outputSteps D (.object o) = fuel + 1 := by
    simp only [outputSteps, OutputShape.weight]
    exact ⟨_, by rw [Nat.add_assoc, Nat.add_comm]⟩
  rw [collect, hfuel] at h
  have hadd : empty.addOutput D (.object o) = .ok (some ⟨[(o.name, .object o)], []⟩) := rfl
  simp only [collectLine, hadd] at h
  obtain ⟨mid, hargs, h⟩ := Outcome.bind_eq_ok h
  have hextends := (collectInputs_grows hargs).extends.trans (collectLine_grows h).extends
  obtain ⟨rest, hrest⟩ := hextends.outputs
  rw [← hrest]
  rfl

end Catalog

section Accepted
variable {query : ObjectType S c} {schema : Schema S c}

/-- Every entry has a chain of entries from the query type. -/
theorem chains_of_holds (h : Schema.ofQuery D query = .ok schema) {name : String}
    {r : Definition S c} (hr : schema.catalog.Holds name r) : schema.catalog.Chains D query r := by
  obtain ⟨hname, hawaits, -⟩ := (ofQuery_collectedWith (P := schema.catalog.Awaits D query) h
    (fun d e hd hawaits he => .inr ⟨d, hd, hawaits.chains hd, he⟩) (.inl rfl)).2 name r hr
  exact hawaits.chains (hname ▸ hr)

theorem output?_of_covers {t : OutputShape S c} (h : schema.catalog.Covers D (.output t)) :
    ∃ s, schema.output? t.namedType = some s ∧ s.kind = t.kind := by
  obtain ⟨r, hr, hkind, -⟩ := h
  obtain ⟨s, hs, rfl⟩ := Option.map_eq_some_iff.1 hr
  exact ⟨s, hs, hkind⟩

theorem input?_of_covers {i : InputShape S.inputs} (h : schema.catalog.Covers D (.input i)) :
    ∃ j, schema.input? i.namedType = some j ∧ j.kind = i.kind := by
  obtain ⟨r, hr, hkind, -⟩ := h
  obtain ⟨j, hj, rfl⟩ := Option.map_eq_some_iff.1 hr
  exact ⟨j, hj, hkind⟩

/-- The catalog of an accepted schema is the closure of the query type under its own entries. The
query type comes first, and names are distinct on either side. Each entry is a named definition
under its own name; the outputs of its fields, its members, and the definitions that its inputs lead
to are entered, with their kinds; and a chain of entries leads to it from the query type. -/
theorem catalog_is_closure (h : Schema.ofQuery D query = .ok schema) :
    schema.catalog.outputs.head? = some (query.name, .object query.shape) ∧
    (Keyed.keys schema.catalog.outputs).Nodup ∧ (Keyed.keys schema.catalog.inputs).Nodup ∧
    ∀ name r, schema.catalog.Holds name r →
      name = r.name ∧ r.IsNamed ∧
      (∀ f ∈ r.fields, ∃ s, schema.output? (f.output.shape D).namedType = some s ∧
        s.kind = (f.output.shape D).kind) ∧
      (∀ m ∈ r.members, ∃ s, schema.output? m.name = some s ∧ s.kind = .object) ∧
      (∀ s ∈ r.inputs, ∃ i j, s.LeadsTo D.input i ∧ schema.input? i.namedType = some j ∧
        j.kind = i.kind) ∧
      Relation.ReflTransGen (schema.catalog.LinksEntries D) query.definition r := by
  have hconsistent := ofQuery_consistent h
  refine ⟨Catalog.head?_collect (ofQuery_collect h), hconsistent.outputs, hconsistent.inputs, ?_⟩
  intro name r hr
  obtain ⟨hname, hnamed⟩ := hconsistent.named name r hr
  obtain ⟨-, -, hdone⟩ := (ofQuery_collected h).2 name r hr
  refine ⟨hname, hnamed, ?_, ?_, ?_, chains_of_holds h hr⟩
  · intro f hf
    have hcore := output?_of_covers (hdone.links _ (.field hf))
    rwa [OutputShape.namedType_core, OutputShape.kind_core] at hcore
  · intro m hm
    exact output?_of_covers (hdone.links _ (.member hm))
  · intro s hs
    obtain ⟨i, hlead⟩ := hdone.leads s hs
    obtain ⟨j, hj, hkind⟩ := input?_of_covers (hdone.links _ (.input hs hlead))
    exact ⟨i, j, hlead, hj, hkind⟩

end Accepted

/-! ## Trees of trees -/

namespace Trees
open JsonHost

/-- A tree, by name. -/
def byName : InputType Json 1 := .reference "Tree" (Fin.last 0)

/-- Trees are input objects whose children are trees again. -/
def definitions : Definitions (host 1 1) where
  input _ := .object "Tree" (.single "children" .field (.list byName .array) none)
  output _ := .scalar "Int" id

/-- The depth of a tree; the tree is an argument of the given type. -/
def depthOf (tree : InputType Json 1) : ObjectType (host 1 1) .thunk :=
  ⟨"Query", [("depth", .declared (.withArguments (.single "tree" .argument tree none)
    ⟨Fin.last 0, .nil⟩ fun _ tree => .pure tree))]⟩

def schemaOf (tree : InputType Json 1) : Schema (host 1 1) .thunk where
  query := depthOf tree
  catalog.outputs := [("Query", .object (depthOf tree).shape), ("Int", .scalar "Int")]
  catalog.inputs := [("Tree", (definitions.input (Fin.last 0)).shape)]

theorem accepted : Schema.ofQuery definitions (depthOf byName) = .ok (schemaOf byName) := by rfl

/-- The children of a tree are entered as trees, and the tree is reached through the query type. -/
theorem children_entered :
    (∃ i j, (InputShape.list byName.shape).LeadsTo definitions.input i ∧
      (schemaOf byName).input? i.namedType = some j ∧ j.kind = i.kind) ∧
    Relation.ReflTransGen ((schemaOf byName).catalog.LinksEntries definitions)
      (depthOf byName).definition (.input (definitions.input (Fin.last 0)).shape) := by
  obtain ⟨-, -, -, hentries⟩ := catalog_is_closure accepted
  obtain ⟨-, -, -, -, hinputs, hchain⟩ :=
    hentries "Tree" (.input (definitions.input (Fin.last 0)).shape) (.head _)
  exact ⟨hinputs _ (.head _), hchain⟩

end Trees
end QueryTypes
