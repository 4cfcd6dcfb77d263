import QueryTypes.Proofs.Conversion.JsonHost
import QueryTypes.Proofs.Decoding.Grammar
import QueryTypes.Proofs.RoundTrip.Encoding

/-!
# Encoding and decoding back

`Paired` says that an output type and an input type are built side by side from the same parts, and
for which values: those whose leaves read back, whose enum parts have tokens, and whose objects and
lists are put together again from what their fields and items are taken to be. Every such value
encodes, and its JSON decodes to the value. The induction is on how the pair is built; what it
carries up is that no JSON of a type that is not optional is null, so that an optional one level up
can tell its absent value from a present one.
-/

namespace QueryTypes

variable {S : Signature} {c : S.Context} {D : Definitions S} {R : Runner S.toEffects}

/-! ## Pairs of types -/

/-- An object whose fields take no arguments, the value of each taken from the parent. -/
def ObjectType.ofProjections (name : String) (names : List String)
    (output : String → OutputRef S c) (resolve : String → S.Value → S.Resolves c S.Value) :
    ObjectType S c :=
  ⟨name, names.map fun f => (f, .declared (.simple (output f) (resolve f)))⟩

/-- An output type and an input type of the same parts, with the values they agree on. -/
inductive Paired (D : Definitions S) (R : Runner S.toEffects) :
    OutputType S c → S.Input → (S.Value → Prop) → Prop
  /-- What is written is not null and reads back. -/
  | scalar {name inputName : String} {encode : S.Value → Json}
      {read : Json → Except String S.Value} {values : S.Value → Prop} :
      (∀ v, values v → encode v ≠ .null ∧ read (encode v) = .ok v) →
      Paired D R (.scalar name encode) (.scalar inputName read) values
  /-- One list of distinct tokens, for values that have one. Several tokens may stand for a value;
  what equals the value is the value. -/
  | enumeration {name inputName : String} {pairs : List (String × S.Value)}
      {values : S.Value → Prop} :
      (pairs.map Prod.fst).Nodup → (∀ v, values v → ∃ p ∈ pairs, (p.2 == v) = true) →
      (∀ v, values v → ∀ p ∈ pairs, (p.2 == v) = true → p.2 = v) →
      Paired D R (.enumeration name pairs) (.enumeration inputName pairs) values
  | list {item : OutputType S c} {input : S.Input} {values : S.Value → Prop}
      {items : S.Value → List S.Value} {assemble : List S.Value → S.Value} :
      Paired D R item input values →
      Paired D R (.list items item) (.list input assemble)
        fun v => assemble (items v) = v ∧ ∀ x ∈ items v, values x
  /-- The type inside is not optional itself. -/
  | optional {inner : OutputType S c} {input : S.Input} {values : S.Value → Prop}
      {view : S.Value → Option S.Value} {assemble : Option S.Value → S.Value} :
      Paired D R inner input values → input.shape.isOptional = false →
      Paired D R (.optional view inner) (.optional input assemble)
        fun v => assemble (view v) = v ∧ ∀ x, view v = some x → values x
  /-- The fields take no arguments; run, they give the values that the slots put together. -/
  | object {name inputName : String} {names : List String} {output : String → OutputRef S c}
      {resolve : String → S.Value → S.Resolves c S.Value} {slots : S.Arguments}
      {values : String → S.Value → Prop} :
      (∀ f, f ∈ names ↔ ∃ e ∈ slots.entries, e.name = f) →
      (∀ e ∈ slots.entries, Paired D R ((output e.name).type D) e.input (values e.name)) →
      Paired D R (.object (.ofProjections name names output resolve)) (.object inputName slots)
        fun v =>
          slots.assemble (slots.entries.map fun e => R.resolved (resolve e.name v)) = some v ∧
          ∀ e ∈ slots.entries, values e.name (R.resolved (resolve e.name v))

/-! ## Objects field by field -/

/-- The fields of an object put together from members: no other names, and under each name one of
the members of that name. -/
theorem Payload.keys_ofMembers (members : List (String × Json)) :
    ∃ fields, (Payload.leaf (Json.ofMembers members)).Keys fields ∧
      (∀ key ∈ fields.keys, key ∈ members.map Prod.fst) ∧
      ∀ key ∈ members.map Prod.fst,
        ∃ j, (key, j) ∈ members ∧ fields.lookup key = some (.leaf j) := by
  obtain ⟨written, hwritten⟩ : ∃ written, Json.ofMembers members = .object written := ⟨_, rfl⟩
  have hlookup (key : String) : written.lookup key = members.reverse.lookup key := by
    rw [← Json.member?_ofMembers, hwritten, Json.member?]
  have hkeys (key : String) : key ∈ Keyed.keys written ↔ key ∈ members.map Prod.fst := by
    rw [← Keyed.exists_lookup, hlookup, Keyed.exists_lookup]
    simp [Keyed.keys]
  rw [hwritten]
  refine ⟨_, .leaf written, fun key hkey => ?_, fun key hkey => ?_⟩
  · exact (hkeys key).1 (by simpa [Keyed.keys] using hkey)
  · obtain ⟨j, hj⟩ := Keyed.exists_lookup.2 ((hkeys key).2 hkey)
    refine ⟨j, List.mem_reverse.1 (Keyed.mem_of_lookup ((hlookup key).symm.trans hj)), ?_⟩
    rw [Keyed.lookup_map, hj]
    rfl

namespace ObjectType
variable {name : String} {names : List String} {output : String → OutputRef S c}
  {resolve : String → S.Value → S.Resolves c S.Value} {v : S.Value}

def projection (D : Definitions S) (output : String → OutputRef S c)
    (resolve : String → S.Value → S.Resolves c S.Value) (v : S.Value) (f : String) :
    S.FieldResolution c :=
  (resolve f v).map ((output f).type D).bind

theorem lookup_ofProjections {f : String} (hf : f ∈ names) :
    List.lookup f (ofProjections name names output resolve).fields =
      some (.declared (.simple (output f) (resolve f))) := by
  simp only [ofProjections]
  induction names with
  | nil => cases hf
  | cons g rest ih =>
    rw [List.map_cons, Keyed.lookup_cons]
    split
    · rename_i h
      cases h
      rfl
    · rename_i hne
      exact ih ((List.mem_cons.1 hf).resolve_left hne)

theorem names_ofProjections :
    ((ofProjections name names output resolve).bind v).shape.fields.map FieldShape.name =
      names := by
  change ((ofProjections name names output resolve).fields.shapes).map FieldShape.name = names
  simp [Fields.shapes, ofProjections, Function.comp_def]

theorem resolve_ofProjections {f : String} (hf : f ∈ names) :
    ((ofProjections name names output resolve).bind v).resolve D f [] =
      .ok (projection D output resolve v f) := by
  change (ofProjections name names output resolve).fields.resolve D name v f [] = _
  simp only [Fields.resolve, lookup_ofProjections hf]
  rfl

/-- An object of projections encodes as the members that encode the parts of its value. -/
theorem encodes_ofProjections_iff {j : Json} :
    (Bound.object ((ofProjections name names output resolve).bind v)).Encodes D R j ↔
      ∃ members : List (String × Json), members.map Prod.fst = names ∧
        (∀ f k, (f, k) ∈ members →
          (((output f).type D).bind (R.resolved (resolve f v))).Encodes D R k) ∧
        j = Json.ofMembers members := by
  have hnames : ((ofProjections name names output resolve).bind v).shape.fields.map
      FieldShape.name = names := names_ofProjections
  have hresolved (f : String) : R.resolved (projection D output resolve v f) =
      ((output f).type D).bind (R.resolved (resolve f v)) := R.resolved_map _ _
  constructor
  · intro h
    cases h with
    | @object _ resolved members hfields hresolve hmembers =>
      refine ⟨members, hfields.trans hnames, fun f k hk => ?_, rfl⟩
      obtain ⟨field, hfield, rfl⟩ := List.mem_map.1 (hfields ▸ List.mem_map_of_mem hk)
      have hf : field.name ∈ names := hnames ▸ List.mem_map_of_mem hfield
      have heq : resolved field.name = projection D output resolve v field.name :=
        Outcome.ok.inj ((hresolve field hfield).symm.trans (resolve_ofProjections hf))
      rw [← hresolved, ← heq]
      exact hmembers field.name k hk
  · rintro ⟨members, hfields, hmembers, rfl⟩
    have hresolve : ∀ f ∈ ((ofProjections name names output resolve).bind v).shape.fields,
        ((ofProjections name names output resolve).bind v).resolve D f.name [] =
          .ok (projection D output resolve v f.name) := fun f hf =>
      resolve_ofProjections (hnames ▸ List.mem_map_of_mem hf)
    refine .object (hfields.trans hnames.symm) hresolve fun f k hk => ?_
    rw [hresolved]
    exact hmembers f k hk

end ObjectType

/-! ## Encoding gives what decodes -/

/-- The value encodes, and every JSON that it encodes as stands for it. -/
structure Returns (D : Definitions S) (R : Runner S.toEffects) (out : OutputType S c)
    (input : S.Input) (v : S.Value) : Prop where
  encodes : ∃ j, (out.bind v).Encodes D R j
  gives : ∀ j, (out.bind v).Encodes D R j → input.Gives D.input (.leaf j) v
  /-- Null is left for an optional around the type. -/
  ne_null : input.shape.isOptional = false → ∀ j, (out.bind v).Encodes D R j → j ≠ .null

namespace Returns
variable {v : S.Value}

theorem scalar {name inputName : String} {encode : S.Value → Json}
    {read : Json → Except String S.Value} (hnull : encode v ≠ .null)
    (hread : read (encode v) = .ok v) :
    Returns D R (.scalar (c := c) name encode) (.scalar inputName read) v where
  encodes := ⟨_, .leaf (encode v)⟩
  gives j hj := by
    cases hj
    exact .scalar hnull hread
  ne_null _ j hj := by
    cases hj
    exact hnull

theorem enumeration {name inputName : String} {pairs : List (String × S.Value)}
    (htokens : (pairs.map Prod.fst).Nodup)
    (hmapped : ∃ p ∈ pairs, (p.2 == v) = true) (hsame : ∀ p ∈ pairs, (p.2 == v) = true → p.2 = v) :
    Returns D R (.enumeration (c := c) name pairs) (.enumeration inputName pairs) v := by
  obtain ⟨p, hfind⟩ := Option.isSome_iff_exists.1 (List.find?_isSome.2 hmapped)
  have hp : p ∈ pairs := List.mem_of_find?_eq_some hfind
  have hbeq : (p.2 == v) = true := List.find?_some (p := fun q : String × S.Value => q.2 == v) hfind
  obtain rfl : p.2 = v := hsame p hp hbeq
  have hbind : (OutputType.enumeration (c := c) name pairs).bind p.2 = .token p.1 := by
    simp only [OutputType.bind, hfind]
  refine ⟨⟨.string p.1, by rw [hbind]; exact .token p.1⟩, fun j hj => ?_, fun _ j hj => ?_⟩
  · rw [hbind] at hj
    cases hj
    exact .enumeration (.string p.1) (Keyed.lookup_ofPairs_of_mem htokens hp)
  · rw [hbind] at hj
    cases hj
    exact Json.noConfusion

theorem list {item : OutputType S c} {input : S.Input} {items : S.Value → List S.Value}
    {assemble : List S.Value → S.Value} (hassemble : assemble (items v) = v)
    (hitems : ∀ x ∈ items v, Returns D R item input x) :
    Returns D R (.list items item) (.list input assemble) v := by
  refine ⟨?_, fun j hj => ?_, fun _ j hj => ?_⟩
  · obtain ⟨js, hjs⟩ := Aligned.exists_forall₂ fun x hx => (hitems x hx).encodes
    exact ⟨.array js, Bound.encodes_list_iff.2 ⟨js, List.forall₂_map_left_iff.2 hjs, rfl⟩⟩
  · obtain ⟨js, hjs, rfl⟩ := Bound.encodes_list_iff.1 hj
    have hgives := (List.forall₂_and_left _ _).2 ⟨hitems, List.forall₂_map_left_iff.1 hjs⟩
    refine InputType.gives_list_iff.2 ⟨_, items v, .array js, ?_, hassemble⟩
    exact List.forall₂_map_left_iff.2 (hgives.imp fun x k hk => hk.1.gives k hk.2).flip
  · obtain ⟨js, -, rfl⟩ := Bound.encodes_list_iff.1 hj
    exact Json.noConfusion

theorem optional {inner : OutputType S c} {input : S.Input} {view : S.Value → Option S.Value}
    {assemble : Option S.Value → S.Value} (hinput : input.shape.isOptional = false)
    (hassemble : assemble (view v) = v)
    (hview : ∀ x, view v = some x → Returns D R inner input x) :
    Returns D R (.optional view inner) (.optional input assemble) v := by
  cases hx : view v with
  | none =>
    have hbind : (OutputType.optional view inner).bind v = .null := by
      simp only [OutputType.bind, hx]
    refine ⟨⟨.null, by rw [hbind]; exact .null⟩, fun j hj => ?_, fun hopt => ?_⟩
    · rw [hbind] at hj
      cases hj
      rw [← hassemble, hx]
      exact .null input assemble
    · simp [InputType.shape, InputShape.isOptional] at hopt
  | some x =>
    have hbind : (OutputType.optional view inner).bind v = inner.bind x := by
      simp only [OutputType.bind, hx]
    have hinner := hview x hx
    refine ⟨hbind ▸ hinner.encodes, fun j hj => ?_, fun hopt => ?_⟩
    · rw [hbind] at hj
      -- a present value is not taken for the absent one
      have hnull : (Payload.leaf j).isNull = false := by
        have := hinner.ne_null hinput j hj
        cases j <;> simp_all [Payload.isNull]
      rw [← hassemble, hx]
      exact .present hnull (hinner.gives j hj)
    · simp [InputType.shape, InputShape.isOptional] at hopt

theorem object {name inputName : String} {names : List String} {output : String → OutputRef S c}
    {resolve : String → S.Value → S.Resolves c S.Value} {slots : S.Arguments}
    (hnames : ∀ f, f ∈ names ↔ ∃ e ∈ slots.entries, e.name = f)
    (hassemble : slots.assemble (slots.entries.map fun e => R.resolved (resolve e.name v)) = some v)
    (hparts : ∀ e ∈ slots.entries,
      Returns D R ((output e.name).type D) e.input (R.resolved (resolve e.name v))) :
    Returns D R (.object (.ofProjections name names output resolve)) (.object inputName slots)
      v := by
  refine ⟨?_, fun j hj => ?_, fun _ j hj => ?_⟩
  · have hmembers : ∀ f ∈ names, ∃ k,
        (((output f).type D).bind (R.resolved (resolve f v))).Encodes D R k := fun f hf => by
      obtain ⟨e, he, rfl⟩ := (hnames f).1 hf
      exact (hparts e he).encodes
    obtain ⟨ks, hks⟩ := Aligned.exists_forall₂ hmembers
    obtain ⟨hlen, hzip⟩ := List.forall₂_iff_zip.1 hks
    exact ⟨_, ObjectType.encodes_ofProjections_iff.2
      ⟨names.zip ks, List.map_fst_zip hlen.le, fun f k => hzip, rfl⟩⟩
  · obtain ⟨members, hfields, hmembers, rfl⟩ := ObjectType.encodes_ofProjections_iff.1 hj
    obtain ⟨fields, hkeys, hdeclared, hlookup⟩ := Payload.keys_ofMembers members
    -- each slot finds a member of its name, whatever order the fields were written in
    rw [hfields] at hdeclared hlookup
    refine InputType.gives_object_iff.2
      ⟨fields, hkeys, fun key hkey => (hnames key).1 (hdeclared key hkey), _, ?_, hassemble⟩
    refine List.forall₂_map_right_iff.2 (List.forall₂_same.2 fun e he => ?_)
    obtain ⟨k, hk, hvalue⟩ := hlookup e.name ((hnames e.name).2 ⟨e, he, rfl⟩)
    rw [hvalue]
    exact .present ((hparts e he).gives k (hmembers e.name k hk))
  · obtain ⟨members, -, -, rfl⟩ := ObjectType.encodes_ofProjections_iff.1 hj
    exact Json.noConfusion

end Returns

/-- Every value that a pair agrees on comes back. -/
theorem Paired.returns {out : OutputType S c} {input : S.Input} {values : S.Value → Prop}
    (h : Paired D R out input values) {v : S.Value} (hv : values v) : Returns D R out input v := by
  induction h generalizing v with
  | scalar hscalar => exact .scalar (hscalar v hv).1 (hscalar v hv).2
  | enumeration htokens hmapped hsame => exact .enumeration htokens (hmapped v hv) (hsame v hv)
  | list _ ih => exact .list hv.1 fun x hx => ih (hv.2 x hx)
  | optional _ hinput ih => exact .optional hinput hv.1 fun x hx => ih (hv.2 x hx)
  | object hnames _ ih => exact .object hnames hv.1 fun e he => ih e he (hv.2 e he)

/-- Encoding and decoding are inverse over pairs of types built side by side: every value that the
pair agrees on encodes, and what it encodes as, whether by fields or at once, decodes to the
value. -/
theorem Paired.decode_encoded {out : OutputType S c} {input : S.Input} {values : S.Value → Prop}
    (h : Paired D R out input values) {v : S.Value} (hv : values v) :
    (∃ j, (out.bind v).Encodes D R j) ∧
      (∀ j, (out.bind v).Encodes D R j → input.decode D.input (.leaf j) = .ok v) ∧
      ∀ j, (out.bind v).toJson? = some j → input.decode D.input (.leaf j) = .ok v := by
  have hreturns := h.returns hv
  have hdecode (j : Json) (hj : (out.bind v).Encodes D R j) :
      input.decode D.input (.leaf j) = .ok v := InputType.decode_of_gives (hreturns.gives j hj)
  exact ⟨hreturns.encodes, hdecode, fun j hj => hdecode j (Bound.encodes_of_toJson? _ hj)⟩

/-! ## A person -/

namespace JsonHost

/-- Two tokens share a value. -/
def roles : List (String × Json) := [("ADMIN", .int 1), ("EDITOR", .int 2), ("OWNER", .int 1)]

/-- The outputs of a person's fields. -/
def personTexts : Definitions (host 0 3) where
  input := Fin.elim0
  output
    | 0 => .scalar "String" id
    | 1 => .list items (.enumeration "Role" roles)
    | 2 => .optional notNull (.scalar "Int" id)

/-- The output of the field of the given name. -/
def personOutput (field : String) : OutputRef (host 0 3) Context.thunk :=
  if field = "name" then ⟨0, .nil⟩ else if field = "roles" then ⟨1, .nil⟩ else ⟨2, .nil⟩

/-- The value of the field of the given name; the age is deferred. -/
def personPart (field : String) (person : Json) : (host 0 3).Resolves Context.thunk Json :=
  if field = "age" then .deferred fun _ => part person (.name field)
  else .pure (part person (.name field))

/-- A person as it is put together from its name and the pair of its roles and its age. -/
def ofParts : Json → Json
  | .array [name, .array [roles, age]] => .object [("name", name), ("roles", roles), ("age", age)]
  | j => j

def personSlots : (host 0 3).Arguments :=
  .map ofParts (.merge pair
    (.single "name" .field (.scalar "String" Reader.string.read) none)
    (.merge pair
      (.single "roles" .field (.list (.enumeration "Role" roles) .array) none)
      (.single "age" .field (.optional (.scalar "Int" Reader.int.read) orNull) none)))

def person : OutputType (host 0 3) Context.thunk :=
  .object (.ofProjections "Person" ["age", "name", "roles"] personOutput personPart)

def personInput : (host 0 3).Input := .object "PersonInput" personSlots

/-- An editor and administrator without an age. -/
def ada : Json :=
  .object [("name", .string "Ada"), ("roles", .array [.int 2, .int 1]), ("age", .null)]

/-- The values that have a token. -/
def HasRole (v : Json) : Prop := v = .int 1 ∨ v = .int 2

/-- Which values the fields of a person may have. -/
def PersonPart (field : String) (v : Json) : Prop :=
  if field = "name" then ∃ s, v = .string s
  else if field = "roles" then .array (items v) = v ∧ ∀ role ∈ items v, HasRole role
  else orNull (notNull v) = v ∧ ∀ age, notNull v = some age → age = .int 36

theorem name_paired :
    Paired (c := Context.thunk) personTexts runner (.scalar "String" id)
      (.scalar "String" Reader.string.read) fun v : Json => ∃ s, v = .string s :=
  .scalar fun _ ⟨_, hv⟩ => hv ▸ ⟨Json.noConfusion, rfl⟩

theorem role_paired :
    Paired (c := Context.thunk) personTexts runner (.enumeration "Role" roles)
      (.enumeration "Role" roles) HasRole := by
  have hsame (a b : Int) (h : (Json.int a == Json.int b) = true) : Json.int a = Json.int b :=
    congrArg Json.int (of_decide_eq_true h)
  refine .enumeration (by decide) (fun v hv => ?_) fun v hv p hp => ?_
  · rcases hv with rfl | rfl <;> decide
  · obtain ⟨i, hi⟩ : ∃ i, v = .int i := hv.elim (⟨_, ·⟩) (⟨_, ·⟩)
    obtain ⟨k, hk⟩ : ∃ k, p.2 = .int k := by
      simp only [roles, List.mem_cons, List.not_mem_nil, or_false] at hp
      rcases hp with rfl | rfl | rfl <;> exact ⟨_, rfl⟩
    rw [hi, hk]
    exact hsame k i

theorem age_paired :
    Paired (c := Context.thunk) personTexts runner (.scalar "Int" id)
      (.scalar "Int" Reader.int.read) fun v : Json => v = .int 36 :=
  .scalar fun _ hv => hv ▸ ⟨Json.noConfusion, rfl⟩

/-- A person is put together again from its parts, each of which may be there. -/
def IsPerson (v : Json) : Prop :=
  personSlots.assemble (personSlots.entries.map fun e => runner.resolved (personPart e.name v)) =
      some v ∧
    ∀ e ∈ personSlots.entries, PersonPart e.name (runner.resolved (personPart e.name v))

/-- The entries of a person, one after the other. -/
theorem forall_personSlots {P : Entry Json 0 → Prop}
    (hname : P ⟨"name", .field, .scalar "String" Reader.string.read, none⟩)
    (hroles : P ⟨"roles", .field, .list (.enumeration "Role" roles) .array, none⟩)
    (hage : P ⟨"age", .field, .optional (.scalar "Int" Reader.int.read) orNull, none⟩) :
    ∀ e ∈ personSlots.entries, P e := by
  simp [personSlots, Slots.entries, hname, hroles, hage]

theorem person_paired : Paired personTexts runner person personInput IsPerson := by
  have hnames (f : String) :
      f ∈ ["age", "name", "roles"] ↔ ∃ e ∈ personSlots.entries, e.name = f := by
    simp only [personSlots, Slots.entries, List.cons_append, List.nil_append, List.mem_cons,
      List.not_mem_nil, or_false, exists_eq_or_imp, exists_eq_left, @eq_comm _ f]
    tauto
  have hparts : ∀ e ∈ personSlots.entries,
      Paired personTexts runner ((personOutput e.name).type personTexts) e.input
        (PersonPart e.name) :=
    forall_personSlots name_paired (.list role_paired) (.optional age_paired rfl)
  exact .object hnames hparts

theorem isPerson_ada : IsPerson ada := by
  refine ⟨rfl, forall_personSlots ⟨"Ada", rfl⟩ ⟨rfl, ?_⟩ ⟨rfl, fun age hage => by cases hage⟩⟩
  change ∀ role ∈ [Json.int 2, Json.int 1], HasRole role
  simp [HasRole]

/-- A person without an age comes back, with the roles in order. -/
theorem ada_decode_encoded :
    (∃ j, (person.bind ada).Encodes personTexts runner j) ∧
      (∀ j, (person.bind ada).Encodes personTexts runner j →
        personInput.decode personTexts.input (.leaf j) = .ok ada) ∧
      ∀ j, (person.bind ada).toJson? = some j →
        personInput.decode personTexts.input (.leaf j) = .ok ada :=
  person_paired.decode_encoded isPerson_ada

end JsonHost
end QueryTypes
