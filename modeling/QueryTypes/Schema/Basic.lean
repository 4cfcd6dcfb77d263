import QueryTypes.Bound.Basic
import QueryTypes.Schema.Document
import QueryTypes.Schema.Rules

/-!
# Schemas

A query type together with the catalog of everything reachable from it, all rules kept.
-/

namespace QueryTypes

variable {S : Signature} {c d : S.Context}

/-- A query type and the named types reachable from it. -/
structure Schema (S : Signature) (c : S.Context) where
  query : ObjectType S c
  catalog : Catalog S c

/-- The same definitions in another context. -/
def Catalog.convert (n : S.Conversion c d) (catalog : Catalog S c) : Catalog S d :=
  ⟨catalog.outputs.map fun o => (o.1, o.2.convert n), catalog.inputs⟩

namespace Schema

/-- Collects every type reachable from the query type and checks the rules. -/
def ofQuery (D : Definitions S) (query : ObjectType S c) : Outcome SchemaError (Schema S c) := do
  let catalog ← (Catalog.empty.collect D (.object query.shape)).mapError Rejection.reason
  Outcome.ofExcept (checkDefinitions D catalog.outputs catalog.inputs)
  return ⟨query, catalog⟩

/-- The output type of the given name. -/
def output? (s : Schema S c) (name : String) : Option (OutputShape S c) :=
  s.catalog.outputs.lookup name

/-- The input type of the given name. -/
def input? (s : Schema S c) (name : String) : Option (InputShape S.inputs) :=
  s.catalog.inputs.lookup name

/-- Pairs a root value with the query type. -/
def bind (s : Schema S c) (root : S.Value) : BoundObject S c := s.query.bind root

/-- The schema in another context. The definitions stay what they are, so the rules are not checked
again. -/
def convert (n : S.Conversion c d) (s : Schema S c) : Schema S d :=
  ⟨s.query.convert n, s.catalog.convert n⟩

/-- The schema as a document. -/
def document (D : Definitions S) (s : Schema S c) : Document :=
  ⟨s.query.name, s.catalog.blocks D⟩

end Schema
end QueryTypes
