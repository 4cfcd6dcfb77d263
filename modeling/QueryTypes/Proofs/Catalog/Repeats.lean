import Mathlib.Data.List.Forall2
import QueryTypes.JsonHost.Basic
import QueryTypes.Proofs.Catalog.Turns

/-!
# Repeated names

A later definition of a name is compared with the entry of the name by signature, a list of texts,
and is not looked at any further. The delimiters in the signature of an entry stand where they are
read (`Declaration.printsLike_of_signature_eq`), so what is taken for an entry prints like it, field
by field. It declares the same only if its own names are usable, which is not checked: an argument
whose name holds a comma passes for two.
-/

namespace QueryTypes

variable {S : Signature} {c : S.Context} {D : Definitions S}

/-! ## What signatures tell -/

theorem forall₂_of_map_eq {α β γ : Type} {R : α → β → Prop} {f : α → γ} {g : β → γ} {as : List α}
    {bs : List β} (hR : ∀ a ∈ as, ∀ b, f a = g b → R a b) (h : as.map f = bs.map g) :
    List.Forall₂ R as bs := by
  induction as generalizing bs with
  | nil =>
    cases bs with
    | nil => exact .nil
    | cons b bs => cases h
  | cons a as ih =>
    cases bs with
    | nil => cases h
    | cons b bs =>
      obtain ⟨ha, has⟩ := List.forall_mem_cons.1 hR
      obtain ⟨hhead, htail⟩ := List.cons.inj h
      exact .cons (ha b hhead) (ih has htail)

theorem append_inj_of_ne {α : Type} {as bs as' bs' : List α} (hleft : ∀ b ∈ bs, ∀ a ∈ as', b ≠ a)
    (hright : ∀ a ∈ as, ∀ b ∈ bs', a ≠ b) (h : as ++ bs = as' ++ bs') : as = as' ∧ bs = bs' := by
  rcases List.append_eq_append_iff.1 h with ⟨rest, rfl, rfl⟩ | ⟨rest, rfl, rfl⟩
  · cases rest with
    | nil => exact ⟨(List.append_nil as).symm, rfl⟩
    | cons b rest => exact absurd rfl (hleft b (by simp) b (by simp))
  · cases rest with
    | nil => exact ⟨List.append_nil as', rfl⟩
    | cons a rest => exact absurd rfl (hright a (by simp) a (by simp))

namespace Declaration
variable {d e : Declaration}

/-- The name, the arguments and the type print alike. -/
structure PrintsLike (d e : Declaration) : Prop where
  name : d.name = e.name
  arguments : d.argumentTexts = e.argumentTexts
  type : d.type.text = e.type.text

/-- The signature of a declaration with usable names tells how each part prints, whatever has the
same signature. -/
theorem printsLike_of_signature_eq (hd : d.WellFormed) (h : d.signature = e.signature) :
    d.PrintsLike e := by
  have hname : Lacks '(' d.name := lacks_of_isName hd.name (by decide)
  have harguments (ch : Char) (hch : isNamePart ch = false)
      (hmarks : ch ∉ [',', ':', ' ', '[', ']', '!']) : Lacks ch d.argumentTexts :=
    hd.lacks_argumentTexts hch hmarks
  have htype (ch : Char) (hch : isNamePart ch = false) (hmarks : ch ∉ ['[', ']', '!']) :
      Lacks ch d.type.text :=
    TypeRef.lacks_text hd.type hch hmarks
  have hchars := congrArg String.toList h
  rw [toList_signature, toList_signature] at hchars
  -- each of the two parentheses stands in the signature once
  have hopen : '(' ∉ d.argumentTexts.toList ++ ')' :: ':' :: ' ' :: d.type.text.toList := by
    simpa using ⟨harguments '(' (by decide) (by decide), htype '(' (by decide) (by decide)⟩
  obtain ⟨hnames, -, hrest⟩ := (List.append_cons_inj_of_notMem hname hopen).1 hchars
  have hclose : ')' ∉ ':' :: ' ' :: d.type.text.toList := by
    have hlacks := htype ')' (by decide) (by decide)
    simpa [Lacks] using hlacks
  obtain ⟨htexts, -, htypes⟩ := (List.append_cons_inj_of_notMem
    (harguments ')' (by decide) (by decide)) hclose).1 hrest
  simp only [List.cons.injEq, true_and] at htypes
  exact ⟨String.toList_inj.1 hnames, String.toList_inj.1 htexts, String.toList_inj.1 htypes⟩

/-- What is compared as a field of an input object tells the name and how the type prints. -/
theorem printsLike_of_argumentText_eq {a b : String × TypeRef} (hname : isName a.1)
    (htype : isName a.2.name) (h : argumentText a = argumentText b) :
    PrintsLike ⟨a.1, [], a.2⟩ ⟨b.1, [], b.2⟩ := by
  have hcolon : ':' ∉ a.1.toList := lacks_of_isName hname (by decide)
  have hcolon' : ':' ∉ ' ' :: a.2.text.toList := by
    have hlacks : Lacks ':' a.2.text := TypeRef.lacks_text htype (by decide) (by decide)
    simpa [Lacks] using hlacks
  have hchars := congrArg String.toList h
  rw [toList_argumentText, toList_argumentText] at hchars
  obtain ⟨hnames, -, hrest⟩ := (List.append_cons_inj_of_notMem hcolon hcolon').1 hchars
  exact ⟨String.toList_inj.1 hnames, rfl, String.toList_inj.1 (List.cons.inj hrest).2⟩

/-- Declarations with usable names that print alike are equal. -/
theorem PrintsLike.eq (h : d.PrintsLike e) (hd : d.WellFormed) (he : e.WellFormed) : d = e := by
  have hsignature : d.signature = e.signature := by
    rw [signature, signature, h.name, h.arguments, h.type]
  exact eq_of_text_eq hd he (text_eq_of_signature_eq hd.toWellNamed he.toWellNamed hsignature)

theorem eq_of_forall₂_printsLike {ds es : List Declaration} (h : List.Forall₂ PrintsLike ds es)
    (hd : ∀ d ∈ ds, d.WellFormed) (he : ∀ e ∈ es, e.WellFormed) : ds = es := by
  induction h with
  | nil => rfl
  | cons hhead _ ih =>
    obtain ⟨hd, hds⟩ := List.forall_mem_cons.1 hd
    obtain ⟨he, hes⟩ := List.forall_mem_cons.1 he
    rw [hhead.eq hd he, ih hds hes]

end Declaration

/-- Two definitions declare parts that print alike, in the same order. -/
structure Contents.PrintsLike (r d : Contents) : Prop where
  kind : r.kind = d.kind
  fields : List.Forall₂ Declaration.PrintsLike r.fields d.fields
  members : r.members = d.members
  values : r.values = d.values

/-- Definitions that print alike declare the same exactly if both use usable names. -/
theorem Contents.PrintsLike.eq_iff {r d : Contents} (h : r.PrintsLike d)
    (hr : ∀ x ∈ r.fields, x.WellFormed) : r = d ↔ ∀ x ∈ d.fields, x.WellFormed := by
  constructor
  · rintro rfl
    exact hr
  · intro hd
    have hfields : r.fields = d.fields := Declaration.eq_of_forall₂_printsLike h.fields hr hd
    cases r
    cases d
    simp only [mk.injEq]
    exact ⟨h.kind, hfields, h.members, h.values⟩

/-! ## Definitions of one kind -/

theorem FieldShape.printsLike_of_signatures_eq {fields fields' : List (FieldShape S c)}
    (hfields : ∀ x ∈ fields.map (FieldShape.declaration D), x.WellFormed)
    (h : FieldShape.signatures D fields = FieldShape.signatures D fields') :
    List.Forall₂ Declaration.PrintsLike (fields.map (FieldShape.declaration D))
      (fields'.map (FieldShape.declaration D)) := by
  refine forall₂_of_map_eq (f := Declaration.signature) (g := Declaration.signature)
    (fun x hx y hxy => Declaration.printsLike_of_signature_eq (hfields x hx) hxy) ?_
  rw [List.map_map, List.map_map]
  exact h

theorem ObjectShape.names_eq_of_memberSignatures_eq {members members' : List (ObjectShape S c)}
    (h : ObjectShape.memberSignatures members = ObjectShape.memberSignatures members') :
    members.map ObjectShape.name = members'.map ObjectShape.name := by
  have hinjective : Function.Injective fun name : String => "| " ++ name := fun a b hab => by
    simpa using hab
  refine List.map_injective_iff.2 hinjective ?_
  rw [List.map_map, List.map_map]
  exact h

/-- Fields and members are told apart: a field has a parenthesis, and a member starts with a
stroke. -/
theorem OutputShape.signatures_split {fields fields' : List (FieldShape S c)}
    {members members' : List (ObjectShape S c)} (hfields : ∀ f ∈ fields, isName f.name)
    (hmembers : ∀ m ∈ members, isName m.name)
    (h : FieldShape.signatures D fields ++ ObjectShape.memberSignatures members =
      FieldShape.signatures D fields' ++ ObjectShape.memberSignatures members') :
    FieldShape.signatures D fields = FieldShape.signatures D fields' ∧
      ObjectShape.memberSignatures members = ObjectShape.memberSignatures members' := by
  refine append_inj_of_ne (fun s hs t ht hst => ?_) (fun s hs t ht hst => ?_) h
  · obtain ⟨m, hm, rfl⟩ := List.mem_map.1 hs
    obtain ⟨f, -, rfl⟩ := List.mem_map.1 ht
    have hlacks : Lacks '(' ("| " ++ m.name) :=
      lacks_append.2 ⟨by simp [Lacks], lacks_of_isName (hmembers m hm) (by decide)⟩
    have hopen : ¬ Lacks '(' (f.declaration D).signature := by
      simp [Lacks, Declaration.toList_signature]
    exact hopen (hst ▸ hlacks)
  · obtain ⟨f, hf, rfl⟩ := List.mem_map.1 hs
    obtain ⟨m, -, rfl⟩ := List.mem_map.1 ht
    obtain ⟨first, rest, hfirst, hpart⟩ := exists_cons_of_isName (hfields f hf)
    have hname : (f.declaration D).name.toList = first :: rest := hfirst
    have hchars := congrArg String.toList hst
    rw [Declaration.toList_signature, hname, String.toList_append] at hchars
    have hstroke : first = '|' := (List.cons.inj hchars).1
    exact absurd hpart (hstroke ▸ by decide)

/-- An output with usable names tells by its kind and signature how everything that it declares
prints, whatever has the same ones. -/
theorem OutputShape.printsLike_of_signature_eq {s t : OutputShape S c} (hs : s.name?.isSome)
    (ht : t.name?.isSome) (hfields : ∀ x ∈ (s.contents D).fields, x.WellFormed)
    (hmembers : ∀ m ∈ s.members, isName m.name) (hkind : s.kind = t.kind)
    (h : s.signature D = t.signature D) : (s.contents D).PrintsLike (t.contents D) := by
  cases s with
  | list | optional => cases hs
  | scalar name =>
    cases t with
    | list | optional => cases ht
    | scalar name' => exact ⟨rfl, .nil, rfl, rfl⟩
    | _ => cases hkind
  | enumeration name values =>
    cases t with
    | list | optional => cases ht
    | enumeration name' values' => exact ⟨rfl, .nil, rfl, h⟩
    | _ => cases hkind
  | object o =>
    cases t with
    | list | optional => cases ht
    | object o' => exact ⟨rfl, FieldShape.printsLike_of_signatures_eq hfields h, rfl, rfl⟩
    | _ => cases hkind
  | interface name fields members =>
    cases t with
    | list | optional => cases ht
    | interface name' fields' members' =>
      have hnames : ∀ f ∈ fields, isName f.name := fun f hf =>
        (hfields (f.declaration D) (List.mem_map_of_mem hf)).name
      obtain ⟨hsame, hsame'⟩ := OutputShape.signatures_split hnames hmembers h
      exact ⟨rfl, FieldShape.printsLike_of_signatures_eq hfields hsame,
        ObjectShape.names_eq_of_memberSignatures_eq hsame', rfl⟩
    | _ => cases hkind
  | union name members =>
    cases t with
    | list | optional => cases ht
    | union name' members' =>
      exact ⟨rfl, .nil, ObjectShape.names_eq_of_memberSignatures_eq h, rfl⟩
    | _ => cases hkind

/-- So does an input. -/
theorem InputShape.printsLike_of_signature_eq {s t : InputShape S.inputs}
    (hs : (Definition.input s : Definition S c).IsNamed)
    (ht : (Definition.input t : Definition S c).IsNamed)
    (hfields : ∀ x ∈ s.contents.fields, x.WellFormed) (hkind : s.kind = t.kind)
    (h : s.signature = t.signature) : s.contents.PrintsLike t.contents := by
  cases s with
  | list | optional | reference => cases hs
  | scalar name =>
    cases t with
    | list | optional | reference => cases ht
    | scalar name' => exact ⟨rfl, .nil, rfl, rfl⟩
    | _ => cases hkind
  | enumeration name values =>
    cases t with
    | list | optional | reference => cases ht
    | enumeration name' values' => exact ⟨rfl, .nil, rfl, h⟩
    | _ => cases hkind
  | object name fields =>
    cases t with
    | list | optional | reference => cases ht
    | object name' fields' =>
      have hnamed : ∀ f ∈ fields, isName f.name ∧ isName f.typeRef.name := fun f hf =>
        have hf := hfields _ (List.mem_map_of_mem hf)
        ⟨hf.name, hf.type⟩
      have hsame : List.Forall₂ (fun f g : Slot (InputShape S.inputs) =>
          Declaration.PrintsLike ⟨f.name, [], f.typeRef⟩ ⟨g.name, [], g.typeRef⟩) fields fields' :=
        forall₂_of_map_eq (fun f hf g hfg =>
          Declaration.printsLike_of_argumentText_eq (hnamed f hf).1 (hnamed f hf).2 hfg) h
      refine ⟨rfl, ?_, rfl, rfl⟩
      simpa only [contents, slots, List.forall₂_map_left_iff, List.forall₂_map_right_iff] using hsame
    | _ => cases hkind

/-- A definition with usable names tells by its kind and signature how everything that it declares
prints. -/
theorem Definition.printsLike_of_signature_eq {r d : Definition S c} (hside : r.side = d.side)
    (hr : r.IsNamed) (hd : d.IsNamed) (hfields : ∀ x ∈ (r.contents D).fields, x.WellFormed)
    (hmembers : ∀ m ∈ r.members, isName m.name) (hkind : r.kind = d.kind)
    (h : r.signature D = d.signature D) : (r.contents D).PrintsLike (d.contents D) := by
  cases r with
  | output s =>
    cases d with
    | output t => exact OutputShape.printsLike_of_signature_eq hr hd hfields hmembers hkind h
    | input t => cases hside
  | input s =>
    cases d with
    | output t => cases hside
    | input t => exact InputShape.printsLike_of_signature_eq hr hd hfields hkind h

/-! ## Definitions that are met again -/

theorem Catalog.Takes.extends {before after : Catalog S c} {d : Definition S c}
    (h : before.Takes D d (some after)) : before.Extends after := by
  rcases h with ⟨hr, -⟩ | ⟨-, -, hr⟩
  · cases hr
  · rw [Option.some.inj hr]
    exact extends_enter before d

namespace Work
variable {w w' : Work S c} {d : Definition S c}

/-- The definition that is at hand is taken for the entry of its name. -/
inductive Repeats (D : Definitions S) : Work S c → Definition S c → Prop
  | input {s : InputShape S.inputs} {inputs : List (InputShape S.inputs)}
      {outputs : List (OutputShape S c)} {catalog : Catalog S c} :
      (Definition.input s : Definition S c).IsNamed → catalog.addInput D s = .ok none →
      Repeats D ⟨s :: inputs, outputs, catalog⟩ (.input s)
  | output {s : OutputShape S c} {line : List (OutputShape S c)} {catalog : Catalog S c} :
      (Definition.output s : Definition S c).IsNamed → catalog.addOutput D s = .ok none →
      Repeats D ⟨[], s :: line, catalog⟩ (.output s)

theorem Repeats.covers (h : w.Repeats D d) : d.IsNamed ∧ w.catalog.Covers D d := by
  cases h with
  | input hnamed hadd =>
    rcases Catalog.addInput_takes hadd with ⟨-, hcovers⟩ | ⟨-, -, hr⟩
    · exact ⟨hnamed, hcovers⟩
    · cases hr
  | output hnamed hadd =>
    rcases Catalog.addOutput_takes hadd with ⟨-, hcovers⟩ | ⟨-, -, hr⟩
    · exact ⟨hnamed, hcovers⟩
    · cases hr

/-- One turn keeps what is entered. -/
theorem extends_of_turn (h : w.turn D = .next w') : w.catalog.Extends w'.catalog := by
  have hinput {s : InputShape S.inputs} {rest : List (InputShape S.inputs)}
      {outputs : List (OutputShape S c)} {catalog : Catalog S c} (hlead : s.LeadsTo D.input s)
      (h : turn D ⟨s :: rest, outputs, catalog⟩ = .next w') : catalog.Extends w'.catalog := by
    rw [turn_of_leadsTo hlead] at h
    split at h
    · cases h
    · cases h
      exact .refl _
    · rename_i extended hadd
      cases h
      exact (Catalog.addInput_takes hadd).extends
  obtain ⟨inputs, outputs, catalog⟩ := w
  cases inputs with
  | cons s rest =>
    cases s with
    | list item | optional inner | reference name target =>
      cases h
      exact .refl _
    | scalar name => exact hinput (.scalar name) h
    | enumeration name values => exact hinput (.enumeration name values) h
    | object name fields => exact hinput (.object name fields) h
  | nil =>
    cases outputs with
    | nil => cases h
    | cons s line =>
      by_cases hnamed : (Definition.output s : Definition S c).IsNamed
      · rw [turn_output (fun item hs => by cases hs; cases hnamed)
          (fun inner hs => by cases hs; cases hnamed)] at h
        split at h
        · cases h
        · cases h
          exact .refl _
        · rename_i extended hadd
          cases h
          exact (Catalog.addOutput_takes hadd).extends
      · cases s with
        | list item | optional inner =>
          cases h
          exact .refl _
        | _ => exact absurd rfl hnamed

/-- So does any number of turns. -/
theorem Turns.extends (h : w.Turns D w') : w.catalog.Extends w'.catalog := by
  induction h with
  | refl => exact .refl _
  | tail _ hnext ih => exact ih.trans (extends_of_turn hnext)

end Work

/-- The collection of a query type meets the definition under a name that is entered already, and
takes it for the entry. -/
def Repeated (D : Definitions S) (query : ObjectType S c) (d : Definition S c) : Prop :=
  ∃ w, Work.Turns D ⟨[], [.object query.shape], .empty⟩ w ∧ w.Repeats D d

section Accepted
variable {query : ObjectType S c} {schema : Schema S c} {d r : Definition S c}

/-- The entry that a definition is taken for is one of the schema. -/
theorem Repeated.covers (hd : Repeated D query d) (h : Schema.ofQuery D query = .ok schema) :
    d.IsNamed ∧ schema.catalog.Covers D d := by
  obtain ⟨w, hw, hrepeats⟩ := hd
  obtain ⟨hnamed, hcovers⟩ := hrepeats.covers
  have hend : Work.Turns D ⟨[], [.object query.shape], .empty⟩ ⟨[], [], schema.catalog⟩ := by
    have hfollows := Catalog.collect_follows (D := D) (.object query.shape) Catalog.empty
    rw [ofQuery_collect h] at hfollows
    exact hfollows
  have hextends : w.catalog.Extends schema.catalog := by
    rcases hw.total hend with hrest | hrest
    · exact hrest.extends
    · rw [hrest.eq_of_last rfl]
      exact .refl _
  exact ⟨hnamed, hcovers.mono hextends⟩

/-- The members of entries have usable names. -/
theorem isName_of_member (h : Schema.ofQuery D query = .ok schema) {name : String}
    (hr : schema.catalog.Holds name r) {m : ObjectShape S c} (hm : m ∈ r.members) :
    isName m.name := by
  cases r with
  | input s => cases hm
  | output s =>
    obtain ⟨o, ho, -, -⟩ := entered_member h hr hm
    exact isName_of_holds h (r := .output (.object o)) (Keyed.mem_of_lookup ho)

/-- A later definition of a name that is accepted is of the kind of the entry, and prints like it
field by field, with the same members and values in the same order. It declares the same exactly if
its own fields, arguments and types have usable names, which nothing checks. The entry has usable
names itself where references are named like what they stand for. -/
theorem repeated_matches_entry (h : Schema.ofQuery D query = .ok schema)
    (hd : Repeated D query d) :
    ∃ r, schema.catalog.entered? d.side d.name = some r ∧ r.kind = d.kind ∧
      ((∀ x ∈ (r.contents D).fields, x.WellFormed) →
        (r.contents D).PrintsLike (d.contents D) ∧
        (r.contents D = d.contents D ↔ ∀ x ∈ (d.contents D).fields, x.WellFormed)) ∧
      (schema.catalog.Truthful D → ∀ x ∈ (r.contents D).fields, x.WellFormed) := by
  obtain ⟨hdnamed, r, hr, hkind, hsignature⟩ := hd.covers h
  obtain ⟨hholds, hside⟩ := Catalog.entered?_holds hr
  obtain ⟨-, hrnamed⟩ := (ofQuery_consistent h).named _ _ hholds
  refine ⟨r, hr, hkind, fun hfields => ?_, fun htrue x hx =>
    wellFormed_of_declared h htrue hholds hx⟩
  have hprints : (r.contents D).PrintsLike (d.contents D) :=
    Definition.printsLike_of_signature_eq hside hrnamed hdnamed hfields
      (fun m hm => isName_of_member h hholds hm) hkind hsignature
  exact ⟨hprints, hprints.eq_iff hfields⟩

end Accepted

/-! ## Posts -/

namespace Posts
open JsonHost

/-- A number under the given type name. -/
def number (typeName : String) : (host 0 5).Input := .scalar typeName Reader.int.read

/-- An argument without default. -/
def argument (name : String) (input : (host 0 5).Input) : (host 0 5).Arguments :=
  .single name .argument input none

/-- A user whose posts take the given arguments. -/
def user (slots : (host 0 5).Arguments) : OutputType (host 0 5) .thunk :=
  .object ⟨"User", [("posts", .declared (.withArguments slots ⟨0, .nil⟩ fun _ args => .pure args))]⟩

/-- Texts, and two pairs of users that print alike: two arguments and a single one with a comma in
its name, and a list of numbers and a number whose type is named like the list. -/
def definitions : Definitions (host 0 5) where
  input := Fin.elim0
  output
    | 0 => .scalar "String" id
    | 1 => user (.merge pair (argument "first" (number "Int")) (argument "after" (number "Int")))
    | 2 => user (argument "first: Int!, after" (number "Int"))
    | 3 => user (argument "ids" (.list (number "Int") .array))
    | 4 => user (argument "ids" (number "[Int!]"))

/-- A query whose two fields refer to the given outputs. -/
def query (author reviewer : Fin 5) : ObjectType (host 0 5) .thunk :=
  ⟨"Query", [("author", .declared (.pure ⟨author, .nil⟩ id)),
    ("reviewer", .declared (.pure ⟨reviewer, .nil⟩ id))]⟩

/-- The query and the author are entered, then the inputs of the arguments, and then comes the
reviewer. -/
theorem repeated_reviewer :
    Repeated definitions (query 1 1) (.output (definitions.output 1).shape) ∧
      Repeated definitions (query 1 2) (.output (definitions.output 2).shape) ∧
      Repeated definitions (query 3 4) (.output (definitions.output 4).shape) := by
  refine ⟨?_, ?_, ?_⟩
  all_goals exact ⟨_, .head (by rfl) (.head (by rfl) (.head (by rfl) (.head (by rfl) .refl))),
    .output rfl (by rfl)⟩

/-- The schema is accepted, and an entry passes for a definition that declares something else. -/
def Mistakes (query : ObjectType (host 0 5) .thunk) : Prop :=
  ∃ schema, Schema.ofQuery definitions query = .ok schema ∧ ∃ d r, Repeated definitions query d ∧
    schema.catalog.entered? d.side d.name = some r ∧ r.contents definitions ≠ d.contents definitions

/-- One argument that is named like two passes for the two of the entry, and one type that is named
like a list passes for the list. -/
theorem exists_repeated_not_same : Mistakes (query 1 2) ∧ Mistakes (query 3 4) := by
  obtain ⟨-, hcomma, hlist⟩ := repeated_reviewer
  constructor
  · exact ⟨_, by rfl, _, _, hcomma, by rfl, by decide⟩
  · exact ⟨_, by rfl, _, _, hlist, by rfl, by decide⟩

theorem wellFormed_posts :
    ∀ x ∈ ((definitions.output 1).shape.contents definitions).fields, x.WellFormed := by
  intro x hx
  rw [List.mem_singleton.1 hx]
  exact ⟨⟨by decide, by decide⟩, by decide, by decide⟩

/-- A user that is met twice is the same both times. -/
theorem repeated_matches_entry_user : ∃ schema,
    Schema.ofQuery definitions (query 1 1) = .ok schema ∧
      Repeated definitions (query 1 1) (.output (definitions.output 1).shape) ∧
      ∃ r, schema.catalog.entered? .output "User" = some r ∧
        r.contents definitions = (definitions.output 1).shape.contents definitions := by
  have haccepted : ∃ schema, Schema.ofQuery definitions (query 1 1) = .ok schema ∧
      schema.catalog.entered? .output "User" = some (.output (definitions.output 1).shape) :=
    ⟨_, by rfl, by rfl⟩
  obtain ⟨schema, hschema, huser⟩ := haccepted
  obtain ⟨r, hr, -, hsame, -⟩ := repeated_matches_entry hschema repeated_reviewer.1
  obtain rfl := Option.some.inj (huser.symm.trans hr)
  exact ⟨schema, hschema, repeated_reviewer.1, _, hr, (hsame wellFormed_posts).2.2 wellFormed_posts⟩

end Posts
end QueryTypes
