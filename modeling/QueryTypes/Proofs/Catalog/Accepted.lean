import QueryTypes.Proofs.Catalog.Coherence
import QueryTypes.Proofs.Document.Texts
import QueryTypes.Proofs.Rules.WellFormed

/-!
# Accepted query types

What an accepted schema says of the definitions it has entered: each is a named type, each keeps the
rules, and whatever it refers to is entered as well. Members are entered as objects. An input is
entered under the name of the definition that it leads to (`entered_of_input`), which need not be
the name it is referred to by; where it always is, all that entries declare is well formed.
-/

namespace QueryTypes

variable {S : Signature} {c : S.Context} {D : Definitions S}

/-! ## Well-formed definitions -/

theorem WellFormedFields.wellNamed {fields : List (FieldShape S c)} (h : WellFormedFields fields)
    {f : FieldShape S c} (hf : f ∈ fields) : (f.declaration D).WellNamed where
  name := h.names f hf
  arguments a ha := by
    obtain ⟨slot, hslot, rfl⟩ := List.mem_map.1 ha
    exact (h.arguments f hf).names slot hslot

namespace OutputShape
variable {t : OutputShape S c}

theorem WellFormed.fields (h : t.WellFormed D) {f : FieldShape S c} (hf : f ∈ t.fields?.getD []) :
    WellFormedFields (t.fields?.getD []) := by
  cases t with
  | object o => exact h.2
  | interface name fields members => exact h.2.1
  | _ => cases hf

theorem isSome_name?_core (s : OutputShape S c) : s.core.name?.isSome := by
  induction s with
  | list item ih => exact ih
  | optional inner ih => exact ih
  | _ => rfl

theorem exists_object (hname : t.name?.isSome) (hkind : t.kind = .object) : ∃ o, t = .object o := by
  cases t with
  | object o => exact ⟨o, rfl⟩
  | list item => cases hname
  | optional inner => cases hname
  | _ => cases hkind

end OutputShape

namespace Definition
variable {r : Definition S c}

/-- The definition keeps the rules of its kind. -/
def WellFormed (D : Definitions S) : Definition S c → Prop
  | .output s => s.WellFormed D
  | .input s => s.WellFormed

theorem WellFormed.isName (h : r.WellFormed D) (hnamed : r.IsNamed) : isName r.name := by
  cases r with
  | output s =>
    cases s with
    | scalar name => exact h
    | enumeration name values => exact WellFormedEnum.name h
    | object o => exact h.1
    | interface name fields members => exact h.1
    | union name members => exact h.1
    | list | optional => cases hnamed
  | input s =>
    cases s with
    | scalar name => exact h
    | enumeration name values => exact WellFormedEnum.name h
    | object name fields => exact h.1
    | list | optional | reference => cases hnamed

/-- Fields and their arguments are named well. -/
theorem WellFormed.wellNamed (h : r.WellFormed D) {d : Declaration}
    (hd : d ∈ (r.contents D).fields) : d.WellNamed := by
  cases r with
  | output s =>
    obtain ⟨f, hf, rfl⟩ := List.mem_map.1 hd
    exact (OutputShape.WellFormed.fields h hf).wellNamed hf
  | input s =>
    obtain ⟨slot, hslot, rfl⟩ := List.mem_map.1 hd
    cases s with
    | object name fields =>
      have hnames : WellFormedNames Slot.name fields := h.2.2
      exact ⟨hnames.names slot hslot, nofun⟩
    | _ => cases hslot

end Definition

/-- The types that a declaration refers to: that of the field, then those of its arguments. -/
def Declaration.references (d : Declaration) : List TypeRef := d.type :: d.arguments.map Prod.snd

/-- No list or optional is around a reached output. -/
theorem isSome_name?_of_reaches {query : ObjectType S c} {t : OutputShape S c}
    (h : Reaches D query (.output t)) : t.name?.isSome := by
  generalize hd : (Definition.output t : Definition S c) = d at h
  cases h with
  | refl =>
    cases hd
    rfl
  | tail _ hlink =>
    subst hd
    cases hlink with
    | field hf => exact OutputShape.isSome_name?_core _
    | member hm => rfl

/-! ## Entries of an accepted schema -/

/-- The inputs of all entries are referred to by the names of the definitions that they lead to. -/
def Catalog.Truthful (D : Definitions S) (catalog : Catalog S c) : Prop :=
  ∀ name r, catalog.Holds name r → ∀ s ∈ r.inputs, ∀ i, s.LeadsTo D.input i →
    s.namedType = i.namedType

section Accepted
variable {query : ObjectType S c} {schema : Schema S c} {name : String} {r : Definition S c}

theorem query_eq_of_ofQuery (h : Schema.ofQuery D query = .ok schema) : schema.query = query := by
  obtain ⟨_, -, h⟩ := Outcome.bind_eq_ok h
  obtain ⟨_, -, h⟩ := Outcome.bind_eq_ok h
  cases h
  rfl

theorem ofQuery_wellFormed (h : Schema.ofQuery D query = .ok schema) :
    (∀ o ∈ schema.catalog.outputs, o.2.WellFormed D) ∧
      ∀ i ∈ schema.catalog.inputs, i.2.WellFormed := by
  obtain ⟨catalog, -, h⟩ := Outcome.bind_eq_ok h
  obtain ⟨_, hchecked, h⟩ := Outcome.bind_eq_ok h
  cases h
  cases hcheck : checkDefinitions D catalog.outputs catalog.inputs with
  | error e => rw [hcheck] at hchecked; cases hchecked
  | ok _ => exact checkDefinitions_eq_ok_iff.1 hcheck

theorem wellFormed_of_holds (h : Schema.ofQuery D query = .ok schema)
    (hr : schema.catalog.Holds name r) : r.WellFormed D := by
  cases r with
  | output s => exact (ofQuery_wellFormed h).1 _ hr
  | input s => exact (ofQuery_wellFormed h).2 _ hr

/-- Every name that is entered is a name. -/
theorem isName_of_holds (h : Schema.ofQuery D query = .ok schema)
    (hr : schema.catalog.Holds name r) : isName name := by
  obtain ⟨rfl, hnamed⟩ := (ofQuery_consistent h).named name r hr
  exact (wellFormed_of_holds h hr).isName hnamed

theorem name_of_mem_outputs (h : Schema.ofQuery D query = .ok schema) {t : OutputShape S c}
    (ht : (name, t) ∈ schema.catalog.outputs) : name = t.namedType :=
  ((ofQuery_collected h).2 name (.output t) ht).1

/-- A member of an entered interface or union is entered as an object, with the same signatures of
its fields. -/
theorem entered_member (h : Schema.ofQuery D query = .ok schema) {t : OutputShape S c}
    (ht : (name, t) ∈ schema.catalog.outputs) {m : ObjectShape S c} (hm : m ∈ t.members) :
    ∃ o : ObjectShape S c, schema.output? m.name = some (.object o) ∧ o.name = m.name ∧
      FieldShape.signatures D o.fields = FieldShape.signatures D m.fields := by
  obtain ⟨-, hentries⟩ := ofQuery_collected h
  -- the link to the member was visited: its name is taken, with the signatures of the member
  obtain ⟨-, -, hdone⟩ := hentries name (.output t) ht
  obtain ⟨r, hr, hkind, hsignature⟩ := hdone.links (.output (.object m)) (.member hm)
  obtain ⟨hholds, hside⟩ := Catalog.entered?_holds hr
  obtain ⟨hname, hreach, -⟩ := hentries m.name r hholds
  cases r with
  | input i => cases hside
  | output s =>
    obtain ⟨o, rfl⟩ := OutputShape.exists_object (isSome_name?_of_reaches hreach) hkind
    obtain ⟨s, hs, heq⟩ := Option.map_eq_some_iff.1 hr
    cases heq
    exact ⟨o, hs, hname.symm, hsignature⟩

/-- The type of an output field is entered. -/
theorem entered_of_type (h : Schema.ofQuery D query = .ok schema) {t : OutputShape S c}
    (ht : schema.catalog.Holds name (.output t)) {d : Declaration}
    (hd : d ∈ (t.contents D).fields) : ∃ e, schema.catalog.Holds d.type.name e := by
  obtain ⟨-, -, hdone⟩ := (ofQuery_collected h).2 name _ ht
  obtain ⟨f, hf, rfl⟩ := List.mem_map.1 hd
  obtain ⟨e, he⟩ := (hdone.links _ (.field hf)).entered
  have hname : (f.declaration D).type.name = (f.output.shape D).core.namedType :=
    (OutputShape.name_typeRef _).trans (OutputShape.namedType_core _).symm
  exact ⟨e, hname ▸ (Catalog.entered?_holds he).1⟩

/-- The definition that an input leads to is entered, under its own name. -/
theorem entered_of_input (h : Schema.ofQuery D query = .ok schema)
    (hr : schema.catalog.Holds name r) {s : InputShape S.inputs} (hs : s ∈ r.inputs) :
    ∃ i, s.LeadsTo D.input i ∧ ∃ e, schema.catalog.Holds i.namedType e := by
  obtain ⟨-, -, hdone⟩ := (ofQuery_collected h).2 name r hr
  obtain ⟨i, hlead⟩ := hdone.leads s hs
  obtain ⟨e, he⟩ := (hdone.links _ (.input hs hlead)).entered
  exact ⟨i, hlead, e, (Catalog.entered?_holds he).1⟩

/-- A type that an entry refers to is entered by the name of the reference, or it is the type of an
input. -/
theorem entered_of_reference (h : Schema.ofQuery D query = .ok schema)
    (hr : schema.catalog.Holds name r) {d : Declaration} (hd : d ∈ (r.contents D).fields)
    {t : TypeRef} (ht : t ∈ d.references) :
    (∃ e, schema.catalog.Holds t.name e) ∨ ∃ s ∈ r.inputs, s.typeRef = t := by
  cases r with
  | output o =>
    rcases List.mem_cons.1 ht with rfl | ht
    · exact .inl (entered_of_type h hr hd)
    · obtain ⟨f, hf, rfl⟩ := List.mem_map.1 hd
      obtain ⟨a, ha, rfl⟩ := List.mem_map.1 ht
      obtain ⟨slot, hslot, rfl⟩ := List.mem_map.1 ha
      exact .inr ⟨slot.input, List.mem_flatMap.2 ⟨f, hf, List.mem_map_of_mem hslot⟩, rfl⟩
  | input o =>
    obtain ⟨slot, hslot, rfl⟩ := List.mem_map.1 hd
    obtain rfl : t = slot.typeRef := List.mem_singleton.1 ht
    refine .inr ⟨slot.input, ?_, rfl⟩
    rw [Definition.inputs, InputShape.fieldInputs_eq]
    exact List.mem_map_of_mem hslot

theorem TruthfulReferences.truthful (htrue : TruthfulReferences D query)
    (h : Schema.ofQuery D query = .ok schema) : schema.catalog.Truthful D := by
  intro name r hr
  obtain ⟨-, hreach, -⟩ := (ofQuery_collected h).2 name r hr
  exact htrue r hreach

/-- Where references are named like what they stand for, every name that an entry refers to is
entered. -/
theorem entered_of_truthful_reference (h : Schema.ofQuery D query = .ok schema)
    (htrue : schema.catalog.Truthful D) (hr : schema.catalog.Holds name r) {d : Declaration}
    (hd : d ∈ (r.contents D).fields) {t : TypeRef} (ht : t ∈ d.references) :
    ∃ e, schema.catalog.Holds t.name e := by
  rcases entered_of_reference h hr hd ht with he | ⟨s, hs, rfl⟩
  · exact he
  · obtain ⟨i, hlead, he⟩ := entered_of_input h hr hs
    rwa [InputShape.name_typeRef, htrue name r hr s hs i hlead]

/-- The fields of an entry print well-formed declarations, if references are named like what they
stand for. -/
theorem wellFormed_of_declared (h : Schema.ofQuery D query = .ok schema)
    (htrue : schema.catalog.Truthful D) (hr : schema.catalog.Holds name r) {d : Declaration}
    (hd : d ∈ (r.contents D).fields) : d.WellFormed := by
  have hname (t : TypeRef) (ht : t ∈ d.references) : isName t.name := by
    obtain ⟨e, he⟩ := entered_of_truthful_reference h htrue hr hd ht
    exact isName_of_holds h he
  refine ⟨(wellFormed_of_holds h hr).wellNamed hd, ?_, hname d.type List.mem_cons_self⟩
  intro a ha
  exact hname a.2 (List.mem_cons_of_mem _ (List.mem_map_of_mem ha))

end Accepted
end QueryTypes
