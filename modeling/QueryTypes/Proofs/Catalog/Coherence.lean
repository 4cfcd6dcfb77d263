import QueryTypes.JsonHost.Basic
import QueryTypes.Proofs.Catalog.Collection

/-!
# For which definitions a schema speaks

A schema speaks for a definition when the entry of its name declares the same. Collecting goes on
below the first definition of a name only. Whatever a later one refers to is compared by name and
then left out, so a schema speaks for everything its query type reaches exactly when the query type
was coherent to begin with; that is not checked.
-/

namespace QueryTypes

variable {S : Signature} {c : S.Context}

/-- The entry of the definition's name, on its side, declares the same. -/
def Catalog.SpeaksFor (D : Definitions S) (catalog : Catalog S c) (d : Definition S c) : Prop :=
  ∃ r, catalog.entered? d.side d.name = some r ∧ r.contents D = d.contents D

/-! ## Definitions that declare the same -/

namespace Definition
variable {D : Definitions S} {r d : Definition S c}

theorem exists_of_map_eq {α β γ : Type} {f : α → γ} {g : β → γ} {as : List α} {bs : List β}
    (h : as.map f = bs.map g) {b : β} (hb : b ∈ bs) : ∃ a ∈ as, f a = g b :=
  List.mem_map.1 (h ▸ List.mem_map_of_mem hb)

/-- A field has a counterpart that is declared the same. -/
theorem exists_field (hside : r.side = d.side) (h : r.contents D = d.contents D)
    {f : FieldShape S c} (hf : f ∈ d.fields) : ∃ g ∈ r.fields, g.declaration D = f.declaration D := by
  cases d with
  | input i => cases hf
  | output t =>
    cases r with
    | input i => cases hside
    | output s => exact exists_of_map_eq (congrArg Contents.fields h) hf

/-- A member has a counterpart of its name. -/
theorem exists_member (hside : r.side = d.side) (h : r.contents D = d.contents D)
    {m : ObjectShape S c} (hm : m ∈ d.members) : ∃ k ∈ r.members, k.name = m.name := by
  cases d with
  | input i => cases hm
  | output t =>
    cases r with
    | input i => cases hside
    | output s => exact exists_of_map_eq (congrArg Contents.members h) hm

/-- An input has a counterpart that is referred to by the same name. -/
theorem exists_input (hside : r.side = d.side) (h : r.contents D = d.contents D)
    {s : InputShape S.inputs} (hs : s ∈ d.inputs) : ∃ t ∈ r.inputs, t.namedType = s.namedType := by
  cases d with
  | output t =>
    cases r with
    | input i => cases hside
    | output t' =>
      obtain ⟨f, hf, hs⟩ := List.mem_flatMap.1 hs
      obtain ⟨a, ha, rfl⟩ := List.mem_map.1 hs
      obtain ⟨g, hg, hgf⟩ := exists_of_map_eq (congrArg Contents.fields h) hf
      obtain ⟨b, hb, hba⟩ := exists_of_map_eq (congrArg Declaration.arguments hgf) ha
      have href : b.typeRef = a.typeRef := congrArg Prod.snd hba
      refine ⟨b.input, List.mem_flatMap.2 ⟨g, hg, List.mem_map_of_mem hb⟩, ?_⟩
      rw [← b.input.name_typeRef, ← a.input.name_typeRef]
      exact congrArg TypeRef.name href
  | input i =>
    cases r with
    | output t => cases hside
    | input j =>
      rw [inputs, InputShape.fieldInputs_eq] at hs
      obtain ⟨a, ha, rfl⟩ := List.mem_map.1 hs
      obtain ⟨b, hb, hba⟩ := exists_of_map_eq (congrArg Contents.fields h) ha
      have href : b.typeRef = a.typeRef := congrArg Declaration.type hba
      refine ⟨b.input, by rw [inputs, InputShape.fieldInputs_eq]; exact List.mem_map_of_mem hb, ?_⟩
      rw [← b.input.name_typeRef, ← a.input.name_typeRef]
      exact congrArg TypeRef.name href

end Definition

/-! ## What stands in a catalog -/

namespace Catalog
variable {D : Definitions S} {catalog : Catalog S c} {r d : Definition S c}

theorem Covers.entered (h : catalog.Covers D d) : ∃ r, catalog.entered? d.side d.name = some r := by
  obtain ⟨r, hr, -⟩ := h
  exact ⟨r, hr⟩

/-- What a definition refers to by way of outputs is entered as soon as another that declares the
same is completed. -/
theorem entered_of_links (hr : catalog.Completes D r) (hside : r.side = d.side)
    (h : r.contents D = d.contents D) {t : OutputShape S c} (ht : d.Links D (.output t)) :
    ∃ e, catalog.entered? .output t.namedType = some e := by
  cases ht with
  | @field f hf =>
    obtain ⟨g, hg, hgf⟩ := Definition.exists_field hside h hf
    have href : (g.output.shape D).typeRef = (f.output.shape D).typeRef :=
      congrArg Declaration.type hgf
    have hname : (g.output.shape D).core.namedType = (f.output.shape D).core.namedType := by
      rw [OutputShape.namedType_core, OutputShape.namedType_core, ← OutputShape.name_typeRef,
        ← OutputShape.name_typeRef, href]
    exact hname ▸ (hr.links _ (.field hg)).entered
  | @member m hm =>
    obtain ⟨k, hk, hname⟩ := Definition.exists_member hside h hm
    change ∃ e, catalog.entered? .output m.name = some e
    exact hname ▸ (hr.links _ (.member hk)).entered

end Catalog

/-! ## Accepted query types -/

section Accepted
variable {D : Definitions S} {query : ObjectType S c} {schema : Schema S c}

theorem ofQuery_collect (h : Schema.ofQuery D query = .ok schema) :
    Catalog.empty.collect D (.object query.shape) = .ok schema.catalog := by
  obtain ⟨catalog, hcollect, h⟩ := Outcome.bind_eq_ok h
  obtain ⟨-, -, h⟩ := Outcome.bind_eq_ok h
  cases h
  exact Outcome.mapError_eq_ok hcollect

theorem ofQuery_consistent (h : Schema.ofQuery D query = .ok schema) :
    schema.catalog.Consistent D :=
  Catalog.consistent_empty.grows (Catalog.collectLine_grows (ofQuery_collect h))

/-- An accepted query type is covered, and each entry stands under its own name, has everything it
refers to covered, and has any `P` that the query type has and that travels along the links of
entries. -/
theorem ofQuery_collectedWith {P : Definition S c → Prop} (h : Schema.ofQuery D query = .ok schema)
    (hP : ∀ d e, schema.catalog.Holds d.name d → P d → d.Links D e → P e)
    (hquery : P query.definition) :
    schema.catalog.Covers D query.definition ∧ ∀ name r, schema.catalog.Holds name r →
      name = r.name ∧ P r ∧ schema.catalog.Completes D r := by
  obtain ⟨hc, hset⟩ := Catalog.collectLine_collected hP (ofQuery_collect h) (.refl _) fun s hs => by
    rw [List.mem_singleton.1 hs]; exact hquery
  refine ⟨hset _ List.mem_cons_self, fun name r hr => ?_⟩
  rcases hc.grown name r hr with hr | hr
  · cases r <;> cases hr
  · exact hr

/-- Each entry of an accepted schema is reached. -/
theorem ofQuery_collected (h : Schema.ofQuery D query = .ok schema) :
    schema.catalog.Covers D query.definition ∧ ∀ name r, schema.catalog.Holds name r →
      name = r.name ∧ Reaches D query r ∧ schema.catalog.Completes D r :=
  ofQuery_collectedWith h (fun _ _ _ hd he => hd.tail he) .refl

/-- The schema speaks for a reached definition as soon as its name is entered. -/
theorem speaksFor_of_entered (h : Schema.ofQuery D query = .ok schema) (hco : Coherent D query)
    {r d : Definition S c} (hd : Reaches D query d)
    (hr : schema.catalog.entered? d.side d.name = some r) : schema.catalog.SpeaksFor D d := by
  obtain ⟨hholds, hside⟩ := Catalog.entered?_holds hr
  obtain ⟨hname, hreach, -⟩ := (ofQuery_collected h).2 _ _ hholds
  exact ⟨r, hr, hco r d hreach hd hside hname.symm⟩

/-- A coherent query type is spoken for if the inputs that definitions link to are entered, wherever
the schema speaks for the definition by a completed entry. -/
theorem speaksFor_of_coherent (h : Schema.ofQuery D query = .ok schema) (hco : Coherent D query)
    (hin : ∀ d r, Reaches D query d → Reaches D query r → r.side = d.side →
      r.contents D = d.contents D → schema.catalog.Completes D r → ∀ i, d.Links D (.input i) →
      ∃ e, schema.catalog.entered? .input i.namedType = some e) :
    ∀ d, Reaches D query d → schema.catalog.SpeaksFor D d := by
  intro d hd
  induction hd with
  | refl =>
    obtain ⟨r, hr⟩ := (ofQuery_collected h).1.entered
    exact speaksFor_of_entered h hco .refl hr
  | @tail d e hd he ih =>
    obtain ⟨r, hr, hcontents⟩ := ih
    obtain ⟨hholds, hside⟩ := Catalog.entered?_holds hr
    obtain ⟨-, hreach, hdone⟩ := (ofQuery_collected h).2 _ _ hholds
    cases e with
    | output t =>
      -- `d` itself may have been left out, but the entry that declares the same was not
      obtain ⟨r', hr'⟩ := Catalog.entered_of_links hdone hside hcontents he
      exact speaksFor_of_entered h hco (hd.tail he) hr'
    | input i =>
      obtain ⟨r', hr'⟩ := hin d r hd hreach hside hcontents hdone i he
      exact speaksFor_of_entered h hco (hd.tail he) hr'

/-- An input that a definition links to is entered, where references are named like what they stand
for. -/
theorem entered_of_truthful (htrue : TruthfulReferences D query) {d r : Definition S c}
    (hd : Reaches D query d) (hr : Reaches D query r) (hside : r.side = d.side)
    (hcontents : r.contents D = d.contents D) (hdone : schema.catalog.Completes D r)
    {i : InputShape S.inputs} (hi : d.Links D (.input i)) :
    ∃ e, schema.catalog.entered? .input i.namedType = some e := by
  cases hi with
  | @input s _ hs hlead =>
    obtain ⟨t, ht, hname⟩ := Definition.exists_input hside hcontents hs
    obtain ⟨j, hj⟩ := hdone.leads t ht
    have hij : j.namedType = i.namedType := by
      rw [← htrue r hr t ht j hj, ← htrue d hd s hs i hlead, hname]
    exact hij ▸ (hdone.links _ (.input ht hj)).entered

/-- An accepted schema speaks for everything its query type reaches, the definitions below a repeated
name included, if and only if the query type is coherent and the name of every input it reaches is
entered; the latter can only fail where a reference is not named like what it stands for. What holds
in any case is that each entry stands under its own name, is reached, and refers to nothing but
definitions whose names are entered, of the same kind and with the same signature. -/
theorem ofQuery_speaksFor_iff (h : Schema.ofQuery D query = .ok schema) :
    ((∀ d, Reaches D query d → schema.catalog.SpeaksFor D d) ↔
      Coherent D query ∧ ∀ i, Reaches D query (.input i) →
        ∃ e, schema.catalog.entered? .input i.namedType = some e) ∧
    (TruthfulReferences D query →
      ((∀ d, Reaches D query d → schema.catalog.SpeaksFor D d) ↔ Coherent D query)) ∧
    (∀ name r, schema.catalog.Holds name r → name = r.name ∧ Reaches D query r ∧
      ∀ e, r.Links D e → schema.catalog.Covers D e) := by
  have hcoherent (hs : ∀ d, Reaches D query d → schema.catalog.SpeaksFor D d) :
      Coherent D query := by
    intro d e hd he hside hname
    obtain ⟨r, hr, hrd⟩ := hs d hd
    obtain ⟨r', hr', hre⟩ := hs e he
    rw [hside, hname, hr'] at hr
    cases hr
    exact hrd.symm.trans hre
  refine ⟨⟨fun hs => ⟨hcoherent hs, fun i hi => ?_⟩, fun ⟨hco, hin⟩ => ?_⟩,
    fun htrue => ⟨hcoherent, fun hco => ?_⟩, fun name r hr => ?_⟩
  · obtain ⟨r, hr, -⟩ := hs _ hi
    exact ⟨r, hr⟩
  · exact speaksFor_of_coherent h hco fun d r hd _ _ _ _ i hi => hin i (hd.tail hi)
  · exact speaksFor_of_coherent h hco fun d r hd hr hside hcontents hdone i hi =>
      entered_of_truthful htrue hd hr hside hcontents hdone hi
  · obtain ⟨hname, hreach, hdone⟩ := (ofQuery_collected h).2 name r hr
    exact ⟨hname, hreach, hdone.links⟩

end Accepted

/-! ## Below a repeated name -/

namespace Users
open JsonHost

/-- The outputs below the users: leaves, an address for each, and the users themselves. The last user
has definitions of their own all the way down, which declare what those of the first one do. -/
def definitions : Definitions (host 0 9) where
  input := Fin.elim0
  output
    | 0 => .scalar "String" id
    | 1 => .scalar "Int" id
    | 2 => .object ⟨"Address", [("city", .declared (.pure ⟨0, .nil⟩ id))]⟩
    | 3 => .object ⟨"Address", [("zip", .declared (.pure ⟨1, .nil⟩ id))]⟩
    | 4 => .object ⟨"User", [("address", .declared (.pure ⟨2, .nil⟩ id))]⟩
    | 5 => .object ⟨"User", [("address", .declared (.pure ⟨3, .nil⟩ id))]⟩
    | 6 => .scalar "String" id
    | 7 => .object ⟨"Address", [("city", .declared (.pure ⟨6, .nil⟩ id))]⟩
    | 8 => .object ⟨"User", [("address", .declared (.pure ⟨7, .nil⟩ id))]⟩

/-- A query whose two fields refer to the given outputs. -/
def query (author reviewer : Fin 9) : ObjectType (host 0 9) .thunk :=
  ⟨"Query", [("author", .declared (.pure ⟨author, .nil⟩ id)),
    ("reviewer", .declared (.pure ⟨reviewer, .nil⟩ id))]⟩

/-- What the entry of a name declares, in an accepted schema. -/
def declared? (result : Outcome SchemaError (Schema (host 0 9) .thunk)) (name : String) :
    Option Contents :=
  match result with
  | .ok schema => (schema.output? name).map (OutputShape.contents definitions)
  | _ => none

theorem accepted_of_declared? {result : Outcome SchemaError (Schema (host 0 9) .thunk)}
    {name : String} {contents : Contents} (h : declared? result name = some contents) :
    ∃ schema, result = .ok schema ∧
      (schema.output? name).map (OutputShape.contents definitions) = some contents := by
  cases result with
  | ok schema => exact ⟨schema, rfl, h⟩
  | error e => cases h
  | unfinished => cases h

/-- Below a user, the address is reached. -/
theorem reaches_address (author reviewer address : Fin 9)
    (h : (definitions.output reviewer).shape =
      .object ⟨"User", [⟨"address", [], ⟨address, .nil⟩⟩]⟩) :
    Reaches definitions (query author reviewer)
      (.output (definitions.output address).shape.core) := by
  have huser : (query author reviewer).definition.Links definitions
      (.output (definitions.output reviewer).shape.core) :=
    .field (D := definitions) (f := ⟨"reviewer", [], ⟨reviewer, .nil⟩⟩) (.tail _ (.head _))
  rw [h] at huser
  have haddress : Definition.Links definitions
      (.output (OutputShape.object ⟨"User", [⟨"address", [], ⟨address, .nil⟩⟩]⟩))
      (.output (definitions.output address).shape.core) :=
    .field (D := definitions) (f := ⟨"address", [], ⟨address, .nil⟩⟩) (.head _)
  exact .tail (.tail .refl huser) haddress

/-- The address of the second user is reached, but `Address` stands for that of the first. -/
theorem exists_accepted_not_speaksFor : ∃ schema,
    Schema.ofQuery definitions (query 4 5) = .ok schema ∧
      ∃ d, Reaches definitions (query 4 5) d ∧ ¬ schema.catalog.SpeaksFor definitions d := by
  have hdeclared : declared? (Schema.ofQuery definitions (query 4 5)) "Address" =
      some ⟨.object, [⟨"city", [], .named "String" true⟩], [], []⟩ := by decide +kernel
  obtain ⟨schema, hschema, haddress⟩ := accepted_of_declared? hdeclared
  have hzip : Reaches definitions (query 4 5) (.output (definitions.output 3).shape) :=
    reaches_address 4 5 3 rfl
  refine ⟨schema, hschema, _, hzip, ?_⟩
  rintro ⟨r, hr, hcontents⟩
  obtain ⟨s, hs, rfl⟩ := Option.map_eq_some_iff.1 hr
  change schema.output? "Address" = some s at hs
  rw [hs] at haddress
  have hcity : s.contents definitions = _ := Option.some.inj haddress
  have hnumber : s.contents definitions = ⟨.object, [⟨"zip", [], .named "Int" true⟩], [], []⟩ :=
    hcontents
  rw [hcity] at hnumber
  exact absurd hnumber (by decide)

/-- What a query for the first and the last user reaches. -/
def reached : List (Definition (host 0 9) .thunk) :=
  (query 4 8).definition ::
    ([4, 8, 2, 7, 0].map fun t => .output (definitions.output t).shape)

/-- These definitions have fields only, and what the fields give is among them. -/
theorem fields_reached {d : Definition (host 0 9) .thunk} (hd : d ∈ reached) :
    d.side = .output ∧ d.members = [] ∧ d.inputs = [] ∧
      ∀ f ∈ d.fields, .output (f.output.shape definitions).core ∈ reached := by
  simp only [reached, List.map_cons, List.map_nil, List.mem_cons, List.not_mem_nil, or_false] at hd
  rcases hd with rfl | rfl | rfl | rfl | rfl | rfl <;> refine ⟨rfl, rfl, rfl, fun f hf => ?_⟩
  · rcases List.mem_cons.1 hf with rfl | hf
    · exact List.mem_of_getElem? (i := 1) rfl
    · exact List.mem_singleton.1 hf ▸ List.mem_of_getElem? (i := 2) rfl
  · exact List.mem_singleton.1 hf ▸ List.mem_of_getElem? (i := 3) rfl
  · exact List.mem_singleton.1 hf ▸ List.mem_of_getElem? (i := 4) rfl
  · exact List.mem_singleton.1 hf ▸ List.mem_of_getElem? (i := 5) rfl
  · exact List.mem_singleton.1 hf ▸ List.mem_of_getElem? (i := 5) rfl
  · cases hf

theorem mem_reached {d : Definition (host 0 9) .thunk} (h : Reaches definitions (query 4 8) d) :
    d ∈ reached := by
  induction h with
  | refl => exact List.mem_cons_self
  | tail _ hlink ih =>
    obtain ⟨-, hmembers, hinputs, hfields⟩ := fields_reached ih
    obtain ⟨f, hf, rfl⟩ := hlink.exists_field hmembers hinputs
    exact hfields f hf

/-- Those of one name declare the same. -/
theorem contents_reached : ∀ x ∈ reached.map fun d => (d.name, d.contents definitions),
    ∀ y ∈ reached.map fun d => (d.name, d.contents definitions), x.1 = y.1 → x.2 = y.2 := by
  decide +kernel

/-- The schema speaks for both users and all that is below them; the addresses below them are two
definitions of one name. -/
theorem users_speaksFor : ∃ schema, Schema.ofQuery definitions (query 4 8) = .ok schema ∧
    (∀ d, Reaches definitions (query 4 8) d → schema.catalog.SpeaksFor definitions d) ∧
    Reaches definitions (query 4 8) (.output (definitions.output 7).shape) ∧
    (definitions.output 7).shape ≠ (definitions.output 2).shape := by
  have hdeclared : declared? (Schema.ofQuery definitions (query 4 8)) "Address" =
      some ⟨.object, [⟨"city", [], .named "String" true⟩], [], []⟩ := by decide +kernel
  obtain ⟨schema, hschema, -⟩ := accepted_of_declared? hdeclared
  refine ⟨schema, hschema, (ofQuery_speaksFor_iff hschema).1.2 ⟨?_, ?_⟩, ?_, ?_⟩
  · intro d e hd he _ hname
    exact contents_reached _ (List.mem_map_of_mem (mem_reached hd)) _
      (List.mem_map_of_mem (mem_reached he)) hname
  · intro i hi
    cases (fields_reached (mem_reached hi)).1
  · exact reaches_address 4 8 7 rfl
  · intro h
    cases h

end Users
end QueryTypes
