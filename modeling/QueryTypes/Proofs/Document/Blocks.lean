import QueryTypes.Proofs.Catalog.Closure

/-!
# What a document defines

A document has one block for each name of an accepted schema, built-in scalars apart, and no others.
The blocks come in six groups, one for each kind of type. Within a group names are distinct because
those of a catalog are; across groups, because a name has one kind, even where it stands on both
sides (`contents_eq_of_holds`).
-/

namespace QueryTypes

variable {S : Signature} {c : S.Context} {D : Definitions S}

/-! ## What blocks say -/

namespace Block

/-- The kind of type that a block defines. -/
def kind : Block → TypeKind
  | .scalar _ => .scalar
  | .enumeration _ _ => .enum
  | .input _ _ => .input
  | .interface _ _ => .interface
  | .object _ _ _ => .object
  | .union _ _ => .union

/-- The fields of a block; those of input objects take no arguments. -/
def fields : Block → List Declaration
  | .input _ fields => fields.map fun f => ⟨f.1, [], f.2⟩
  | .interface _ fields => fields
  | .object _ _ fields => fields
  | _ => []

/-- The tokens of an enum. -/
def values : Block → List String
  | .enumeration _ values => values
  | _ => []

/-- The members of a union. -/
def members : Block → List String
  | .union _ members => members
  | _ => []

/-- The block defines what a definition declares. The members of an interface are no part of its
block. -/
structure Prints (D : Definitions S) (b : Block) (r : Definition S c) : Prop where
  name : b.name = r.name
  kind : b.kind = r.kind
  fields : b.fields = (r.contents D).fields
  values : b.values = (r.contents D).values
  members : b.kind = .union → b.members = (r.contents D).members

end Block

/-- A scalar that documents do not define. -/
def Definition.IsBuiltIn (r : Definition S c) : Prop := r.kind = .scalar ∧ r.name ∈ builtInScalars

theorem Definition.kind_contents (r : Definition S c) : (r.contents D).kind = r.kind := by
  cases r <;> rfl

theorem Block.Prints.of_contents_eq {b : Block} {r e : Definition S c} (h : b.Prints D r)
    (hname : r.name = e.name) (heq : r.contents D = e.contents D) : b.Prints D e where
  name := h.name.trans hname
  kind := by rw [h.kind, ← r.kind_contents (D := D), heq, e.kind_contents]
  fields := by rw [h.fields, heq]
  values := by rw [h.values, heq]
  members hunion := by rw [h.members hunion, heq]

/-! ## Entries of one name -/

/-- An output and an input that agree are two scalars, or two enums with the same tokens. -/
theorem Catalog.Agree.cases {s : OutputShape S c} {i : InputShape S.inputs}
    (h : Agree D (.output s) (.input i)) (hs : (Definition.output s).IsNamed)
    (hi : (Definition.input i : Definition S c).IsNamed) :
    (∃ a b, s = .scalar a ∧ i = .scalar b) ∨
      ∃ a b values, s = .enumeration a values ∧ i = .enumeration b values := by
  obtain ⟨hkind, hleaf, hsignature⟩ := h
  cases s with
  | scalar a =>
    cases i with
    | scalar b => exact .inl ⟨a, b, rfl, rfl⟩
    | list | optional | reference => cases hi
    | _ => cases hkind
  | enumeration a values =>
    cases i with
    | enumeration b values' =>
      obtain rfl : values = values' := hsignature
      exact .inr ⟨a, b, values, rfl, rfl⟩
    | list | optional | reference => cases hi
    | _ => cases hkind
  | list | optional => cases hs
  | _ => rcases hleaf with hleaf | hleaf <;> cases hleaf

theorem Catalog.Agree.contents_eq {r e : Definition S c} (h : Agree D r e) (hr : r.IsNamed)
    (he : e.IsNamed) (hside : r.side = .output) (hside' : e.side = .input) :
    r.contents D = e.contents D := by
  cases r with
  | input i => cases hside
  | output s =>
    cases e with
    | output t => cases hside'
    | input i =>
      rcases h.cases hr he with ⟨a, b, rfl, rfl⟩ | ⟨a, b, values, rfl, rfl⟩ <;> rfl

namespace Catalog
variable {catalog : Catalog S c} {r e : Definition S c} {name : String}

theorem Consistent.entered (h : catalog.Consistent D) (hr : catalog.Holds name r) :
    catalog.entered? r.side name = some r := by
  cases r with
  | output s => exact entered?_output (Keyed.lookup_eq_some_of_mem h.outputs hr)
  | input i => exact entered?_input (Keyed.lookup_eq_some_of_mem h.inputs hr)

/-- Whatever stands under one name, on either side, declares the same. -/
theorem Consistent.contents_eq (h : catalog.Consistent D) (hr : catalog.Holds name r)
    (he : catalog.Holds name e) : r.contents D = e.contents D := by
  have hrnamed := (h.named name r hr).2
  have henamed := (h.named name e he).2
  have hr := h.entered hr
  have he := h.entered he
  cases hside : r.side <;> cases hside' : e.side <;> rw [hside] at hr <;> rw [hside'] at he
  · rw [hr] at he
    cases he
    rfl
  · exact (h.shared name r e hr he).contents_eq hrnamed henamed hside hside'
  · exact ((h.shared name e r he hr).contents_eq henamed hrnamed hside' hside).symm
  · rw [hr] at he
    cases he
    rfl

/-! ## Groups of blocks -/

/-- The blocks of one kind. -/
def group (D : Definitions S) (catalog : Catalog S c) : TypeKind → List Block
  | .scalar => (catalog.scalarNames.filter fun name => !builtInScalars.contains name).map .scalar
  | .enum => catalog.enums.map fun e => .enumeration e.1 e.2
  | .input => catalog.inputs.filterMap fun i => inputBlock? i.2
  | .interface => catalog.outputs.filterMap fun o => interfaceBlock? D o.2
  | .object => catalog.outputs.filterMap fun o => objectBlock? D catalog o.2
  | .union => catalog.outputs.filterMap fun o => unionBlock? o.2

theorem blocks_eq_groups (D : Definitions S) (catalog : Catalog S c) :
    catalog.blocks D = catalog.group D .scalar ++ catalog.group D .enum ++ catalog.group D .input ++
      catalog.group D .interface ++ catalog.group D .object ++ catalog.group D .union := rfl

theorem mem_scalarNames : name ∈ catalog.scalarNames ↔
    (∃ key, (key, .scalar name) ∈ catalog.outputs) ∨
      ∃ key, (key, .scalar name) ∈ catalog.inputs := by
  rw [scalarNames, ← Keyed.exists_lookup, Keyed.exists_lookup_ofPairs]
  simp only [List.map_append, List.mem_append, List.mem_map, List.mem_filterMap]
  refine or_congr ⟨?_, ?_⟩ ⟨?_, ?_⟩
  · rintro ⟨_, ⟨⟨key, s⟩, hs, heq⟩, rfl⟩
    cases s <;> cases heq
    exact ⟨key, hs⟩
  · rintro ⟨key, hs⟩
    exact ⟨(name, ()), ⟨_, hs, rfl⟩, rfl⟩
  · rintro ⟨_, ⟨⟨key, i⟩, hi, heq⟩, rfl⟩
    cases i <;> cases heq
    exact ⟨key, hi⟩
  · rintro ⟨key, hi⟩
    exact ⟨(name, ()), ⟨_, hi, rfl⟩, rfl⟩

theorem mem_of_mem_firstOfEach {α : Type} {p : String × α} {pairs : List (String × α)}
    (h : p ∈ firstOfEach pairs) : p ∈ pairs := by
  induction pairs with
  | nil => cases h
  | cons q rest ih =>
    rcases List.mem_cons.1 h with rfl | h
    · exact List.mem_cons_self
    · exact List.mem_cons_of_mem _ (ih (List.mem_filter.1 h).1)

/-- Of each name the first pair is kept. -/
theorem exists_mem_firstOfEach {α : Type} {p : String × α} {pairs : List (String × α)}
    (h : p ∈ pairs) : ∃ q ∈ firstOfEach pairs, q.1 = p.1 := by
  induction pairs with
  | nil => cases h
  | cons q rest ih =>
    by_cases hname : q.1 = p.1
    · exact ⟨q, List.mem_cons_self, hname⟩
    · rcases List.mem_cons.1 h with rfl | h
      · exact absurd rfl hname
      · obtain ⟨q', hq', hname'⟩ := ih h
        refine ⟨q', List.mem_cons_of_mem _ (List.mem_filter.2 ⟨hq', ?_⟩), hname'⟩
        simpa [hname'] using Ne.symm hname

theorem nodup_keys_firstOfEach {α : Type} (pairs : List (String × α)) :
    (Keyed.keys (firstOfEach pairs)).Nodup := by
  induction pairs with
  | nil => exact List.nodup_nil
  | cons q rest ih =>
    rw [firstOfEach, Keyed.keys, List.map_cons, List.nodup_cons]
    refine ⟨?_, ih.sublist (List.filter_sublist.map _)⟩
    intro h
    obtain ⟨p, hp, hname⟩ := List.mem_map.1 h
    have hne := (List.mem_filter.1 hp).2
    simp [hname] at hne

theorem mem_enums {e : String × List String} (h : e ∈ catalog.enums) :
    (∃ key, (key, .enumeration e.1 e.2) ∈ catalog.outputs) ∨
      ∃ key, (key, .enumeration e.1 e.2) ∈ catalog.inputs := by
  have h := mem_of_mem_firstOfEach h
  simp only [List.mem_append, List.mem_filterMap] at h
  rcases h with ⟨⟨key, s⟩, hs, heq⟩ | ⟨⟨key, i⟩, hi, heq⟩
  · cases s <;> cases heq
    exact .inl ⟨key, hs⟩
  · cases i <;> cases heq
    exact .inr ⟨key, hi⟩

theorem exists_mem_enums {key : String} {values : List String}
    (h : (key, .enumeration name values) ∈ catalog.outputs ∨
      (key, .enumeration name values) ∈ catalog.inputs) : ∃ e ∈ catalog.enums, e.1 = name := by
  refine exists_mem_firstOfEach (p := (name, values)) ?_
  simp only [List.mem_append, List.mem_filterMap]
  rcases h with h | h
  · exact .inl ⟨_, h, rfl⟩
  · exact .inr ⟨_, h, rfl⟩

theorem kind_of_mem_group {b : Block} {kind : TypeKind} (h : b ∈ catalog.group D kind) :
    b.kind = kind := by
  cases kind with
  | scalar =>
    obtain ⟨_, -, rfl⟩ := List.mem_map.1 h
    rfl
  | enum =>
    obtain ⟨_, -, rfl⟩ := List.mem_map.1 h
    rfl
  | input =>
    obtain ⟨⟨_, i⟩, -, h⟩ := List.mem_filterMap.1 h
    cases i <;> cases h
    rfl
  | interface =>
    obtain ⟨⟨_, s⟩, -, h⟩ := List.mem_filterMap.1 h
    cases s <;> cases h
    rfl
  | object =>
    obtain ⟨⟨_, s⟩, -, h⟩ := List.mem_filterMap.1 h
    cases s <;> cases h
    rfl
  | union =>
    obtain ⟨⟨_, s⟩, -, h⟩ := List.mem_filterMap.1 h
    cases s <;> cases h
    rfl

/-- The blocks of one kind are a group. -/
theorem filter_kind_blocks (D : Definitions S) (catalog : Catalog S c) (kind : TypeKind) :
    (catalog.blocks D).filter (·.kind = kind) = catalog.group D kind := by
  have hgroup (k : TypeKind) : (catalog.group D k).filter (·.kind = kind) =
      if k = kind then catalog.group D k else [] := by
    split
    · rename_i heq
      exact List.filter_eq_self.2 fun b hb => by simpa [heq] using kind_of_mem_group hb
    · rename_i hne
      exact List.filter_eq_nil_iff.2 fun b hb => by simpa [kind_of_mem_group hb] using hne
  simp only [blocks_eq_groups, List.filter_append, hgroup]
  cases kind <;> simp

theorem mem_blocks_iff {b : Block} : b ∈ catalog.blocks D ↔ b ∈ catalog.group D b.kind := by
  rw [← filter_kind_blocks]
  simp

theorem interface_mem_blocks {key : String} {fields : List (FieldShape S c)}
    {members : List (ObjectShape S c)}
    (h : (key, .interface name fields members) ∈ catalog.outputs) :
    .interface name (fields.map (FieldShape.declaration D)) ∈ catalog.blocks D :=
  mem_blocks_iff.2 (List.mem_filterMap.2 ⟨_, h, rfl⟩)

theorem object_mem_blocks {key : String} {o : ObjectShape S c}
    (h : (key, .object o) ∈ catalog.outputs) :
    .object o.name (catalog.interfacesOf o.name) (o.fields.map (FieldShape.declaration D)) ∈
      catalog.blocks D :=
  mem_blocks_iff.2 (List.mem_filterMap.2 ⟨_, h, rfl⟩)

/-! ## Blocks and entries -/

/-- Every block prints an entry of its name. -/
theorem Consistent.exists_entry (h : catalog.Consistent D) {b : Block} (hb : b ∈ catalog.blocks D) :
    ∃ r, catalog.Holds b.name r ∧ ¬ r.IsBuiltIn ∧ b.Prints D r := by
  rw [mem_blocks_iff] at hb
  -- entries stand under their own names, so it is enough to find one under any name
  suffices hfound : ∃ key r, catalog.Holds key r ∧ ¬ r.IsBuiltIn ∧ b.Prints D r by
    obtain ⟨key, r, hr, hbuilt, hprints⟩ := hfound
    exact ⟨r, by rw [hprints.name, ← (h.named key r hr).1]; exact hr, hbuilt, hprints⟩
  generalize hkind : b.kind = kind at hb
  cases kind with
  | scalar =>
    obtain ⟨name, hname, rfl⟩ := List.mem_map.1 hb
    rw [List.mem_filter] at hname
    have hbuilt : name ∉ builtInScalars := by simpa using hname.2
    rcases mem_scalarNames.1 hname.1 with ⟨key, hr⟩ | ⟨key, hr⟩
    · exact ⟨key, .output (.scalar name), hr, fun hb => hbuilt hb.2, ⟨rfl, rfl, rfl, rfl, nofun⟩⟩
    · exact ⟨key, .input (.scalar name), hr, fun hb => hbuilt hb.2, ⟨rfl, rfl, rfl, rfl, nofun⟩⟩
  | enum =>
    obtain ⟨⟨name, values⟩, he, rfl⟩ := List.mem_map.1 hb
    rcases mem_enums he with ⟨key, hr⟩ | ⟨key, hr⟩
    · exact ⟨key, .output (.enumeration name values), hr, nofun, ⟨rfl, rfl, rfl, rfl, nofun⟩⟩
    · exact ⟨key, .input (.enumeration name values), hr, nofun, ⟨rfl, rfl, rfl, rfl, nofun⟩⟩
  | input =>
    obtain ⟨⟨key, i⟩, hr, heq⟩ := List.mem_filterMap.1 hb
    cases i <;> cases heq
    refine ⟨key, .input _, hr, nofun, ⟨rfl, rfl, ?_, rfl, nofun⟩⟩
    simp [Block.fields, Definition.contents, InputShape.contents, InputShape.slots,
      Slot.declaration]
  | interface =>
    obtain ⟨⟨key, s⟩, hr, heq⟩ := List.mem_filterMap.1 hb
    cases s <;> cases heq
    exact ⟨key, .output _, hr, nofun, ⟨rfl, rfl, rfl, rfl, nofun⟩⟩
  | object =>
    obtain ⟨⟨key, s⟩, hr, heq⟩ := List.mem_filterMap.1 hb
    cases s <;> cases heq
    exact ⟨key, .output _, hr, nofun, ⟨rfl, rfl, rfl, rfl, nofun⟩⟩
  | union =>
    obtain ⟨⟨key, s⟩, hr, heq⟩ := List.mem_filterMap.1 hb
    cases s <;> cases heq
    exact ⟨key, .output _, hr, nofun, ⟨rfl, rfl, rfl, rfl, fun _ => rfl⟩⟩

/-- Every entry that is no built-in scalar has a block of its name. -/
theorem Consistent.exists_block (h : catalog.Consistent D) (hr : catalog.Holds name r)
    (hbuilt : ¬ r.IsBuiltIn) : ∃ b ∈ catalog.blocks D, b.name = name := by
  obtain ⟨rfl, hnamed⟩ := h.named name r hr
  have hscalar {name : String} (hmem : name ∈ catalog.scalarNames) (hn : name ∉ builtInScalars) :
      Block.scalar name ∈ catalog.blocks D :=
    mem_blocks_iff.2 (List.mem_map_of_mem (List.mem_filter.2 ⟨hmem, by simpa using hn⟩))
  have henum {name : String} (hmem : ∃ e ∈ catalog.enums, e.1 = name) :
      ∃ b ∈ catalog.blocks D, b.name = name := by
    obtain ⟨e, he, rfl⟩ := hmem
    exact ⟨.enumeration e.1 e.2, mem_blocks_iff.2 (List.mem_map_of_mem he), rfl⟩
  cases r with
  | output s =>
    cases s with
    | scalar name =>
      have hname : name ∉ builtInScalars := fun hn => hbuilt ⟨rfl, hn⟩
      exact ⟨_, hscalar (mem_scalarNames.2 (.inl ⟨_, hr⟩)) hname, rfl⟩
    | enumeration name values => exact henum (exists_mem_enums (.inl hr))
    | list item => cases hnamed
    | optional inner => cases hnamed
    | object o => exact ⟨_, object_mem_blocks hr, rfl⟩
    | interface name fields members => exact ⟨_, interface_mem_blocks hr, rfl⟩
    | union name members =>
      exact ⟨.union name (members.map ObjectShape.name),
        mem_blocks_iff.2 (List.mem_filterMap.2 ⟨_, hr, rfl⟩), rfl⟩
  | input i =>
    cases i with
    | scalar name =>
      have hname : name ∉ builtInScalars := fun hn => hbuilt ⟨rfl, hn⟩
      exact ⟨_, hscalar (mem_scalarNames.2 (.inr ⟨_, hr⟩)) hname, rfl⟩
    | enumeration name values => exact henum (exists_mem_enums (.inr hr))
    | object name fields =>
      exact ⟨.input name (fields.map Slot.declaration),
        mem_blocks_iff.2 (List.mem_filterMap.2 ⟨_, hr, rfl⟩), rfl⟩
    | list item => cases hnamed
    | optional inner => cases hnamed
    | reference name target => cases hnamed

/-! ## Names of blocks -/

/-- Blocks that each come from one entry of a keyed list have distinct names, if they keep those of
the entries. -/
theorem nodup_names_filterMap {α : Type} {m : Keyed α} (h : (Keyed.keys m).Nodup)
    {block? : α → Option Block} (hname : ∀ p ∈ m, ∀ b, block? p.2 = some b → b.name = p.1) :
    ((m.filterMap fun p => block? p.2).map Block.name).Nodup := by
  induction m with
  | nil => exact List.nodup_nil
  | cons p rest ih =>
    obtain ⟨hfresh, hrest⟩ := List.nodup_cons.1 h
    have ih := ih hrest fun q hq => hname q (List.mem_cons_of_mem _ hq)
    cases hblock : block? p.2 with
    | none => simpa only [List.filterMap_cons, hblock] using ih
    | some b =>
      simp only [List.filterMap_cons, hblock, List.map_cons, List.nodup_cons]
      refine ⟨?_, ih⟩
      intro hmem
      obtain ⟨b', hb', heq⟩ := List.mem_map.1 hmem
      obtain ⟨q, hq, hqb⟩ := List.mem_filterMap.1 hb'
      have hkey : q.1 = p.1 := by
        rw [← hname q (List.mem_cons_of_mem _ hq) b' hqb, heq, hname p List.mem_cons_self b hblock]
      exact hfresh (hkey ▸ List.mem_map_of_mem hq)

theorem Consistent.nodup_names_group (h : catalog.Consistent D) (kind : TypeKind) :
    ((catalog.group D kind).map Block.name).Nodup := by
  cases kind with
  | scalar =>
    rw [group, List.map_map]
    exact ((Keyed.nodup_keys_ofPairs _).filter _).map fun _ _ heq => heq
  | enum =>
    rw [group, List.map_map]
    exact nodup_keys_firstOfEach _
  | input =>
    refine nodup_names_filterMap h.inputs ?_
    rintro ⟨key, i⟩ hi b heq
    cases i <;> cases heq
    exact (h.named key (.input _) hi).1.symm
  | interface =>
    refine nodup_names_filterMap h.outputs ?_
    rintro ⟨key, s⟩ hs b heq
    cases s <;> cases heq
    exact (h.named key (.output _) hs).1.symm
  | object =>
    refine nodup_names_filterMap h.outputs ?_
    rintro ⟨key, s⟩ hs b heq
    cases s <;> cases heq
    exact (h.named key (.output _) hs).1.symm
  | union =>
    refine nodup_names_filterMap h.outputs ?_
    rintro ⟨key, s⟩ hs b heq
    cases s <;> cases heq
    exact (h.named key (.output _) hs).1.symm

/-- Two blocks of one name are of one kind. -/
theorem Consistent.kind_eq_of_name_eq (h : catalog.Consistent D) {a b : Block}
    (ha : a ∈ catalog.blocks D) (hb : b ∈ catalog.blocks D) (hname : a.name = b.name) :
    a.kind = b.kind := by
  obtain ⟨r, hr, -, hprints⟩ := h.exists_entry ha
  obtain ⟨e, he, -, hprints'⟩ := h.exists_entry hb
  have hcontents := h.contents_eq (hname ▸ hr) he
  rw [hprints.kind, hprints'.kind, ← r.kind_contents (D := D), hcontents, e.kind_contents]

theorem nodup_names_of_groups {blocks : List Block}
    (hkind : ∀ a ∈ blocks, ∀ b ∈ blocks, a.name = b.name → a.kind = b.kind)
    (hgroup : ∀ kind, ((blocks.filter (·.kind = kind)).map Block.name).Nodup) :
    (blocks.map Block.name).Nodup := by
  induction blocks with
  | nil => exact List.nodup_nil
  | cons a rest ih =>
    rw [List.map_cons, List.nodup_cons]
    constructor
    · intro hmem
      obtain ⟨b, hb, hname⟩ := List.mem_map.1 hmem
      have hsame := hkind b (List.mem_cons_of_mem _ hb) a List.mem_cons_self hname
      -- both are in the group of their kind, where names are distinct
      have hnodup := hgroup a.kind
      rw [List.filter_cons_of_pos (by simp), List.map_cons, List.nodup_cons] at hnodup
      refine hnodup.1 (hname ▸ List.mem_map_of_mem (List.mem_filter.2 ⟨hb, ?_⟩))
      simpa using hsame
    · refine ih (fun b hb b' hb' => hkind b (List.mem_cons_of_mem _ hb) b'
        (List.mem_cons_of_mem _ hb')) fun kind => (hgroup kind).sublist ?_
      exact ((List.sublist_cons_self a rest).filter _).map _

theorem Consistent.nodup_names (h : catalog.Consistent D) :
    ((catalog.blocks D).map Block.name).Nodup :=
  nodup_names_of_groups (fun _ ha _ hb => h.kind_eq_of_name_eq ha hb) fun kind => by
    rw [filter_kind_blocks]
    exact h.nodup_names_group kind

end Catalog

theorem filter_name_eq_singleton {blocks : List Block} (h : (blocks.map Block.name).Nodup)
    {b : Block} (hb : b ∈ blocks) : blocks.filter (·.name = b.name) = [b] := by
  induction blocks with
  | nil => cases hb
  | cons a rest ih =>
    obtain ⟨hfresh, hrest⟩ := List.nodup_cons.1 h
    by_cases hname : a.name = b.name
    · have hne : ∀ d ∈ rest, ¬ d.name = b.name := by
        intro d hd heq
        exact hfresh (hname ▸ heq ▸ List.mem_map_of_mem hd)
      have hab : b = a := (List.mem_cons.1 hb).resolve_right fun hb => hne b hb rfl
      subst hab
      rw [List.filter_cons_of_pos (by simp), List.filter_eq_nil_iff.2 (by simpa using hne)]
    · have hb : b ∈ rest := (List.mem_cons.1 hb).resolve_left fun heq => hname (heq ▸ rfl)
      rw [List.filter_cons_of_neg (by simpa using hname), ih hrest hb]

/-! ## Accepted schemas -/

section Accepted
variable {query : ObjectType S c} {schema : Schema S c}

/-- What an accepted schema has under one name on both sides is one scalar, or one enum with the
same tokens in the same order. So its document defines each name that is no built-in scalar in
exactly one block, which prints the definition that is entered, and has no other blocks. -/
theorem defined_once (h : Schema.ofQuery D query = .ok schema) :
    (∀ name s i, schema.output? name = some s → schema.input? name = some i →
      (s = .scalar name ∧ i = .scalar name) ∨
        ∃ values, s = .enumeration name values ∧ i = .enumeration name values) ∧
    (∀ name r, schema.catalog.Holds name r → ¬ r.IsBuiltIn →
      ∃ b, (schema.document D).blocks.filter (·.name = name) = [b] ∧ b.Prints D r) ∧
    ∀ b ∈ (schema.document D).blocks,
      ∃ r, schema.catalog.Holds b.name r ∧ ¬ r.IsBuiltIn ∧ b.Prints D r := by
  have hconsistent := ofQuery_consistent h
  refine ⟨?_, ?_, fun b hb => hconsistent.exists_entry hb⟩
  · intro name s i hs hi
    have hagree := hconsistent.shared name (.output s) (.input i) (Catalog.entered?_output hs)
      (Catalog.entered?_input hi)
    obtain ⟨hsname, hsnamed⟩ := hconsistent.named name (.output s) (Keyed.mem_of_lookup hs)
    obtain ⟨hiname, hinamed⟩ := hconsistent.named name (.input i) (Keyed.mem_of_lookup hi)
    rcases hagree.cases hsnamed hinamed with ⟨a, b, rfl, rfl⟩ | ⟨a, b, values, rfl, rfl⟩
    · obtain rfl : name = a := hsname
      obtain rfl : name = b := hiname
      exact .inl ⟨rfl, rfl⟩
    · obtain rfl : name = a := hsname
      obtain rfl : name = b := hiname
      exact .inr ⟨values, rfl, rfl⟩
  · intro name r hr hbuilt
    obtain ⟨b, hb, rfl⟩ := hconsistent.exists_block hr hbuilt
    obtain ⟨e, he, -, hprints⟩ := hconsistent.exists_entry hb
    have hname : e.name = r.name :=
      (hconsistent.named b.name e he).1.symm.trans (hconsistent.named b.name r hr).1
    exact ⟨b, filter_name_eq_singleton hconsistent.nodup_names hb,
      hprints.of_contents_eq hname (hconsistent.contents_eq he hr)⟩

end Accepted

/-! ## An enum on both sides -/

namespace Episodes
open JsonHost

def episodes : List (String × Json) := [("NEWHOPE", .int 4), ("EMPIRE", .int 5)]

/-- Episodes, and years as a scalar of their own. -/
def definitions : Definitions (host 0 2) where
  input := Fin.elim0
  output
    | 0 => .enumeration "Episode" episodes
    | 1 => .scalar "Year" id

/-- The episode after another one, and the year of an episode. -/
def query : ObjectType (host 0 2) .thunk :=
  ⟨"Query", [
    ("next", .declared (.withArguments
      (.single "episode" .argument (.enumeration "Episode" episodes) none) ⟨0, .nil⟩
      fun _ episode => .pure episode)),
    ("year", .declared (.pure ⟨1, .nil⟩ id))]⟩

def schema : Schema (host 0 2) .thunk where
  query := query
  catalog.outputs := [("Query", .object query.shape),
    ("Episode", .enumeration "Episode" ["NEWHOPE", "EMPIRE"]), ("Year", .scalar "Year")]
  catalog.inputs := [("Episode", .enumeration "Episode" ["NEWHOPE", "EMPIRE"])]

theorem accepted : Schema.ofQuery definitions query = .ok schema := by rfl

/-- The episode of the arguments has the one block that the episode of the answers has. -/
theorem episode_defined_once :
    ∃ b, (schema.document definitions).blocks.filter (·.name = "Episode") = [b] ∧
      b.Prints definitions
        (.input (.enumeration "Episode" ["NEWHOPE", "EMPIRE"]) : Definition (host 0 2) .thunk) := by
  have hentry : schema.catalog.Holds "Episode"
      (.input (.enumeration "Episode" ["NEWHOPE", "EMPIRE"])) := .head _
  exact (defined_once accepted).2.1 "Episode" _ hentry nofun

end Episodes
end QueryTypes
