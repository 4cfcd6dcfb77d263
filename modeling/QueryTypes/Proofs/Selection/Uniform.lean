import QueryTypes.Proofs.Catalog.Accepted
import QueryTypes.Proofs.Document.Texts
import QueryTypes.Proofs.Selection.Errors

/-!
# Uniform definitions

Outputs are uniform when those of one name have the same kind and declare the same fields,
arguments and members. An accepted schema of uniform outputs has an entry for each of them that
declares what it declares. With references named like what they stand for, all that entries print is
well formed, so a member that prints a field of its interface declares that field with the same
arguments.
-/

namespace QueryTypes

variable {S : Signature} {c : S.Context} {D : Definitions S}

/-! ## Outputs that declare the same -/

/-- The outputs have one kind and declare the same fields with their arguments, and the same
members. The tokens of enums may differ. -/
structure OutputShape.Alike (D : Definitions S) (s t : OutputShape S c) : Prop where
  kind : s.kind = t.kind
  fields : (s.contents D).fields = (t.contents D).fields
  members : (s.contents D).members = (t.contents D).members

/-- Any two reached outputs of one name declare the same. -/
def Uniform (D : Definitions S) (query : ObjectType S c) : Prop :=
  ∀ s t : OutputShape S c, Reaches D query (.output s) → Reaches D query (.output t) →
    s.namedType = t.namedType → s.Alike D t

namespace OutputShape.Alike
variable {s t : OutputShape S c}

theorem symm (h : s.Alike D t) : t.Alike D s := ⟨h.kind.symm, h.fields.symm, h.members.symm⟩

/-- Only enums declare anything else. -/
theorem contents_eq (h : s.Alike D t) (hkind : t.kind ≠ .enum) : s.contents D = t.contents D := by
  have hvalues {u : OutputShape S c} (hu : u.kind ≠ .enum) : u.values = [] := by
    cases u with
    | enumeration name values => exact absurd rfl hu
    | _ => rfl
  simp only [contents, Contents.mk.injEq]
  exact ⟨h.kind, h.fields, h.members, (hvalues (h.kind ▸ hkind)).trans (hvalues hkind).symm⟩

theorem exists_field? (h : s.Alike D t) {name : String} {f : FieldShape S c}
    (hf : t.field? name = some f) :
    ∃ g, s.field? name = some g ∧ g.declaration D = f.declaration D := by
  have hfind (u : OutputShape S c) : (u.field? name).map (FieldShape.declaration D) =
      (u.contents D).fields.find? (·.name == name) := by
    simp only [field?, contents, List.find?_map]
    rfl
  have heq : (s.field? name).map (FieldShape.declaration D) = some (f.declaration D) := by
    rw [hfind, h.fields, ← hfind, hf]
    rfl
  exact Option.map_eq_some_iff.1 heq

theorem exists_field (h : s.Alike D t) {f : FieldShape S c} (hf : f ∈ t.fields?.getD []) :
    ∃ g ∈ s.fields?.getD [], g.declaration D = f.declaration D :=
  Definition.exists_of_map_eq h.fields hf

theorem exists_member (h : s.Alike D t) {m : ObjectShape S c} (hm : m ∈ t.members) :
    ∃ k ∈ s.members, k.name = m.name :=
  Definition.exists_of_map_eq h.members hm

end OutputShape.Alike

theorem FieldShape.exists_argument_iff {f : FieldShape S c} {key : String} :
    (∃ a ∈ f.arguments, a.name = key) ↔ ∃ a ∈ (f.declaration D).arguments, a.1 = key := by
  simp [declaration, Slot.declaration]

theorem FieldShape.exists_argument_of_declaration {f g : FieldShape S c}
    (h : g.declaration D = f.declaration D) {key : String} (hf : ∃ a ∈ f.arguments, a.name = key) :
    ∃ a ∈ g.arguments, a.name = key := by
  rw [exists_argument_iff (D := D)] at hf ⊢
  rwa [h]

theorem OutputShape.Alike.declares {s t : OutputShape S c} (h : s.Alike D t) {field : String}
    {args : Keyed Payload} (ht : t.Declares field args) : s.Declares field args := by
  obtain ⟨f, hf, hargs⟩ := ht
  obtain ⟨g, hg, hgf⟩ := h.exists_field? hf
  exact ⟨g, hg, fun key hkey => FieldShape.exists_argument_of_declaration hgf (hargs key hkey)⟩

/-! ## Entries of a uniform schema -/

section Accepted
variable {query : ObjectType S c} {schema : Schema S c}

/-- What stands in the schema under a name is reached, and a definition of that name. -/
theorem reaches_of_output? (h : Schema.ofQuery D query = .ok schema) {name : String}
    {r : OutputShape S c} (hr : schema.output? name = some r) :
    (name, r) ∈ schema.catalog.outputs ∧ r.namedType = name ∧ Reaches D query (.output r) ∧
      schema.catalog.Completes D (.output r) := by
  have hmem : (name, r) ∈ schema.catalog.outputs := Keyed.mem_of_lookup hr
  obtain ⟨hname, hreach, hdone⟩ := (ofQuery_collected h).2 name (.output r) hmem
  exact ⟨hmem, hname.symm, hreach, hdone⟩

theorem Definition.kind_ne_enum_of_links {s : OutputShape S c} {e : Definition S c}
    (h : (Definition.output s).Links D e) : s.kind ≠ .enum := by
  cases s with
  | enumeration _ _ | list _ | optional _ =>
    exact absurd h (not_links rfl rfl rfl)
  | _ => exact TypeKind.noConfusion

theorem Definition.not_links_output {i : InputShape S.inputs} {t : OutputShape S c} :
    ¬ (Definition.input i : Definition S c).Links D (.output t) := by
  intro h
  cases h with
  | field hf => cases hf
  | member hm => cases hm

/-- Every reached output has an entry under its name that declares what it declares. -/
theorem entered_of_reaches (h : Schema.ofQuery D query = .ok schema) (hu : Uniform D query)
    {t : OutputShape S c} (ht : Reaches D query (.output t)) :
    ∃ r, schema.output? t.namedType = some r ∧ r.Alike D t := by
  have hentry {t : OutputShape S c} (ht : Reaches D query (.output t)) {r : Definition S c}
      (hr : schema.catalog.entered? .output t.namedType = some r) :
      ∃ s, schema.output? t.namedType = some s ∧ s.Alike D t := by
    obtain ⟨s, hs, -⟩ := Option.map_eq_some_iff.1 hr
    obtain ⟨-, hname, hreach, -⟩ := reaches_of_output? h hs
    exact ⟨s, hs, hu s t hreach ht hname⟩
  generalize hd : (Definition.output t : Definition S c) = d at ht
  induction ht generalizing t with
  | refl =>
    cases hd
    obtain ⟨r, hr⟩ := (ofQuery_collected h).1.entered
    exact hentry .refl hr
  | @tail d e hd' he ih =>
    subst hd
    cases d with
    | input i => exact absurd he Definition.not_links_output
    | output s =>
      -- `s` itself may have been left out, but the entry that declares the same was not
      obtain ⟨r, hr, halike⟩ := ih rfl
      obtain ⟨-, -, -, hdone⟩ := reaches_of_output? h hr
      obtain ⟨r', hr'⟩ := Catalog.entered_of_links (d := .output s) hdone rfl
        (halike.contents_eq (Definition.kind_ne_enum_of_links he)) he
      exact hentry (hd'.tail he) hr'

/-! ## What entries print -/

/-- A member declares the fields of its interface, with the arguments that they have there. -/
theorem declares_of_member (h : Schema.ofQuery D query = .ok schema) (hu : Uniform D query)
    (htrue : TruthfulReferences D query) {name field : String} {args : Keyed Payload}
    {r : OutputShape S c} (hr : schema.output? name = some r) (hd : r.Declares field args)
    {k : ObjectShape S c} (hk : k ∈ r.members) : (OutputShape.object k).Declares field args := by
  obtain ⟨hmem, -, hreach, -⟩ := reaches_of_output? h hr
  obtain ⟨f, hf, hargs⟩ := hd
  have hfmem : f ∈ r.fields?.getD [] := List.mem_of_find?_eq_some hf
  have hname : f.name = field := by simpa using List.find?_some hf
  obtain ⟨d, hdfield, htext⟩ : k.Implements D f := by
    have hwf := (ofQuery_wellFormed h).1 _ hmem
    cases r with
    | interface name fields members => exact hwf.2.2.2 k hk f hfmem
    | object o => cases hk
    | _ => cases hfmem
  have hwellFormed {name : String} {r : OutputShape S c} (hr : schema.output? name = some r)
      {f : FieldShape S c} (hf : f ∈ r.fields?.getD []) : (f.declaration D).WellFormed :=
    wellFormed_of_declared (r := .output r) h (htrue.truthful h) (reaches_of_output? h hr).1
      (List.mem_map_of_mem hf)
  -- the member's own field is declared like one of an entry, so its text tells all of it
  have hdwf : (d.declaration D).WellFormed := by
    obtain ⟨rk, hrk, halike⟩ := entered_of_reaches h hu (hreach.tail (.member hk))
    obtain ⟨g, hg, hgd⟩ := halike.exists_field (f := d) (List.mem_of_find?_eq_some hdfield)
    exact hgd ▸ hwellFormed hrk hg
  have hdf : d.declaration D = f.declaration D :=
    Declaration.eq_of_text_eq hdwf (hwellFormed hr hfmem) htext
  exact ⟨d, hname ▸ hdfield, fun key hkey =>
    FieldShape.exists_argument_of_declaration hdf (hargs key hkey)⟩

end Accepted
end QueryTypes
