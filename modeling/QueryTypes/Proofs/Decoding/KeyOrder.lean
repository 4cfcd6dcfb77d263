import Mathlib.Data.Option.Defs
import QueryTypes.Proofs.Decoding.Failures
import QueryTypes.Proofs.Decoding.JsonForm
import QueryTypes.Proofs.Selection.ByName

/-!
# The order of keys

Payloads that write the fields of their native objects in another order decode to the same value, or
to errors that differ at most in the undeclared key they name. Fields are looked up by name, so the
induction over the input type meets related payloads at every slot and every element. Undeclared keys
alone are looked for in the order in which they stand, and only where everything declared decodes.
-/

namespace QueryTypes

variable {V : Type} {n : Nat} {table : InputTable V n}

/-! ## Payloads in another order -/

namespace Payload

/-- The payloads are the same but for the order in which native objects have their fields. -/
inductive Reordered : Payload → Payload → Prop
  | leaf (json : Json) : Reordered (.leaf json) (.leaf json)
  | token (name : String) : Reordered (.token name) (.token name)
  | list {items items' : List Payload} : items.length = items'.length →
      (∀ p p', (p, p') ∈ items.zip items' → Reordered p p') →
      Reordered (.list items) (.list items')
  | object {fields fields' : Keyed Payload} : fields.keys.Perm fields'.keys →
      (∀ key p p', fields.lookup key = some p → fields'.lookup key = some p' → Reordered p p') →
      Reordered (.object fields) (.object fields')

theorem Reordered.refl (p : Payload) : p.Reordered p := by
  match p with
  | .leaf json => exact .leaf json
  | .token name => exact .token name
  | .list items =>
    refine .list rfl fun q q' hq => ?_
    obtain ⟨hmem, rfl⟩ : q ∈ items ∧ q = q' := by
      rw [List.zip_eq_zipWith, List.zipWith_self] at hq
      obtain ⟨r, hr, heq⟩ := List.mem_map.1 hq
      cases heq
      exact ⟨hr, rfl⟩
    have hsize := List.sizeOf_lt_of_mem hmem
    exact Reordered.refl q
  | .object fields =>
    refine .object (.refl _) fun key q q' hq hq' => ?_
    obtain rfl : q = q' := Option.some.inj (hq.symm.trans hq')
    have hsize := List.sizeOf_lt_of_mem (Keyed.mem_of_lookup hq)
    exact Reordered.refl q
termination_by sizeOf p
decreasing_by
  · simp only [Payload.list.sizeOf_spec]
    omega
  · simp only [Payload.object.sizeOf_spec]
    simp only [Prod.mk.sizeOf_spec] at hsize
    omega

/-- An object may have its fields in any order. -/
theorem Reordered.of_perm {fields fields' : Keyed Payload} (h : fields.keys.Nodup)
    (hperm : fields.Perm fields') : (Payload.object fields).Reordered (.object fields') := by
  refine .object (hperm.map Prod.fst) fun key p p' hp hp' => ?_
  rw [Keyed.lookup_eq_of_perm h hperm, hp] at hp'
  cases hp'
  exact .refl p

variable {p p' : Payload}

theorem Reordered.token?_eq (h : p.Reordered p') : p.token? = p'.token? := by
  cases h <;> rfl

theorem Reordered.kind_eq (h : p.Reordered p') : p.kind = p'.kind := by
  cases h <;> rfl

theorem Reordered.isNull_eq (h : p.Reordered p') : p.isNull = p'.isNull := by
  cases h <;> rfl

theorem Reordered.elements? (h : p.Reordered p') :
    Option.Rel (List.Forall₂ Reordered) p.elements? p'.elements? := by
  cases h with
  | leaf json =>
    cases json with
    | array items =>
      exact .some (List.forall₂_same.2 fun q _ => .refl q)
    | _ => exact .none
  | token name => exact .none
  | list hlen hitems => exact .some (List.forall₂_iff_zip.2 ⟨hlen, fun {q q'} => hitems q q'⟩)
  | object _ _ => exact .none

/-- The fields have the same names, and related payloads under each of them. -/
def ReorderedFields (fields fields' : Keyed Payload) : Prop :=
  fields.keys.Perm fields'.keys ∧
    ∀ key, Option.Rel Reordered (fields.lookup key) (fields'.lookup key)

theorem Reordered.of_object {fields fields' : Keyed Payload}
    (h : (Payload.object fields).Reordered (.object fields')) : ReorderedFields fields fields' := by
  cases h with
  | object hkeys hfields =>
    refine ⟨hkeys, fun key => optionRel_of_isSome_eq ?_ (hfields key)⟩
    rw [Bool.eq_iff_iff, Option.isSome_iff_exists, Option.isSome_iff_exists, Keyed.exists_lookup,
      Keyed.exists_lookup, hkeys.mem_iff]

theorem Reordered.fields? (h : p.Reordered p') :
    Option.Rel ReorderedFields p.fields? p'.fields? := by
  cases h with
  | leaf json =>
    cases json with
    | object members =>
      refine .some ⟨.refl _, fun key => ?_⟩
      cases List.lookup key _ with
      | some q => exact .some (.refl q)
      | none => exact .none
    | _ => exact .none
  | token name => exact .none
  | list _ _ => exact .none
  | object hkeys hfields => exact .some (of_object (.object hkeys hfields))

end Payload

/-! ## Errors without the undeclared key -/

/-- The error, with no name in place of an undeclared key. -/
def DecodeError.withoutKey : DecodeError → DecodeError
  | .unknownField _ object => .unknownField "" object
  | .invalidArgument argument cause => .invalidArgument argument cause.withoutKey
  | e => e

theorem DecodeError.withoutKey_wrap (kind : SlotKind) (name : String) (e : DecodeError) :
    (kind.wrap name e).withoutKey = kind.wrap name e.withoutKey := by
  cases kind <;> rfl

namespace Outcome
variable {α β γ : Type}

/-- The outcome, with no name in place of an undeclared key. -/
def withoutKey (x : Outcome DecodeError α) : Outcome DecodeError α :=
  x.mapError DecodeError.withoutKey

theorem withoutKey_wrap (kind : SlotKind) (name : String) (x : Outcome DecodeError α) :
    (x.mapError (kind.wrap name)).withoutKey = x.withoutKey.mapError (kind.wrap name) := by
  cases x with
  | error e => exact congrArg Outcome.error (e.withoutKey_wrap kind name)
  | _ => rfl

theorem withoutKey_map (f : α → β) (x : Outcome DecodeError α) :
    (f <$> x).withoutKey = f <$> x.withoutKey :=
  map_mapError f _ x

theorem withoutKey_bind {x x' : Outcome DecodeError α} {f f' : α → Outcome DecodeError β}
    (h : x.withoutKey = x'.withoutKey) (hf : ∀ a, (f a).withoutKey = (f' a).withoutKey) :
    (x >>= f).withoutKey = (x' >>= f').withoutKey := by
  have hbind (y : Outcome DecodeError α) (g : α → Outcome DecodeError β) :
      (y >>= g).withoutKey = y.withoutKey >>= fun a => (g a).withoutKey := by
    cases y <;> rfl
  rw [hbind, hbind, h, funext hf]

theorem withoutKey_mapM {f : α → Outcome DecodeError γ} {f' : β → Outcome DecodeError γ}
    {xs : List α} {ys : List β}
    (h : List.Forall₂ (fun x y => (f x).withoutKey = (f' y).withoutKey) xs ys) :
    (xs.mapM f).withoutKey = (ys.mapM f').withoutKey := by
  induction h with
  | nil => rfl
  | cons hxy _ ih =>
    rw [List.mapM_cons, List.mapM_cons]
    exact withoutKey_bind hxy fun _ => withoutKey_bind ih fun _ => rfl

end Outcome

/-! ## Decoding reordered payloads -/

section Reordered
variable {u : Unfolding V n} {owner : String}

theorem Entry.read_reordered {e : Entry V n} {value value' : Option Payload}
    (he : ∀ q q', q.Reordered q' →
      (e.input.decodeWith u q).withoutKey = (e.input.decodeWith u q').withoutKey)
    (h : Option.Rel Payload.Reordered value value') :
    (e.read u owner value).withoutKey = (e.read u owner value').withoutKey := by
  cases h with
  | some hq => simp only [read, Outcome.withoutKey_wrap, he _ _ hq]
  | none => rfl

theorem Slots.read_reordered {slots : Slots V n} {values values' : List (Option Payload)}
    (hentries : ∀ e ∈ slots.entries, ∀ q q', q.Reordered q' →
      (e.input.decodeWith u q).withoutKey = (e.input.decodeWith u q').withoutKey)
    (hlen : values.length = slots.size)
    (h : List.Forall₂ (Option.Rel Payload.Reordered) values values') :
    (slots.read u owner values).withoutKey = (slots.read u owner values').withoutKey := by
  have hrow : List.Forall₂ (fun x y => (x.1.read u owner x.2).withoutKey =
      (y.1.read u owner y.2).withoutKey) (slots.entries.zip values) (slots.entries.zip values') := by
    generalize slots.entries = entries at hentries
    clear hlen
    induction h generalizing entries with
    | nil => simp
    | cons hvalue _ ih =>
      cases entries with
      | nil => exact .nil
      | cons e entries =>
        obtain ⟨he, hentries⟩ := List.forall_mem_cons.1 hentries
        exact .cons (Entry.read_reordered he hvalue) (ih entries hentries)
  refine Outcome.some_map_injective ?_
  rw [← Outcome.withoutKey_map, ← Outcome.withoutKey_map, slots.read_eq u owner values hlen,
    slots.read_eq u owner values' (h.length_eq ▸ hlen), Outcome.withoutKey_map,
    Outcome.withoutKey_map, Outcome.withoutKey_mapM hrow]

theorem positional_reordered (declared : List (Slot (InputShape n))) {fields fields' : Keyed Payload}
    (h : Payload.ReorderedFields fields fields') :
    List.Forall₂ (Option.Rel Payload.Reordered) (positional declared fields)
      (positional declared fields') := by
  simp only [positional, List.forall₂_map_left_iff, List.forall₂_map_right_iff, List.forall₂_same]
  exact fun slot _ => h.2 slot.name

/-- There is an undeclared key for both or for neither. -/
theorem undeclared?_reordered (declared : List (Slot (InputShape n))) {fields fields' : Keyed Payload}
    (h : fields.keys.Perm fields'.keys) :
    Option.Rel (fun _ _ => True) (undeclared? declared fields) (undeclared? declared fields') := by
  have hnone : undeclared? declared fields = none ↔ undeclared? declared fields' = none := by
    simp only [undeclared?_eq_none_iff, h.mem_iff]
  refine optionRel_of_isSome_eq ?_ fun _ _ _ _ => trivial
  rw [Bool.eq_iff_iff, Option.isSome_iff_ne_none, Option.isSome_iff_ne_none, Ne, Ne, hnone]

/-- References that come to the same for reordered payloads let every input type do so. -/
theorem InputType.decodeWith_reordered
    (hu : ∀ t q q', q.Reordered q' → (u t q).withoutKey = (u t q').withoutKey)
    {input : InputType V n} {p p' : Payload} (h : p.Reordered p') :
    (input.decodeWith u p).withoutKey = (input.decodeWith u p').withoutKey := by
  induction input using InputType.induction generalizing p p' with
  | scalar name read => cases h <;> rfl
  | enumeration name pairs => simp only [decodeWith, h.token?_eq, h.kind_eq]
  | object name slots ih =>
    simp only [decodeWith, h.kind_eq]
    have hfields := h.fields?
    generalize p.fields? = fields?, p'.fields? = fields?' at hfields
    cases hfields with
    | none => rfl
    | @some fields fields' hfields =>
      refine Outcome.withoutKey_bind ?_ fun a => ?_
      · exact Slots.read_reordered (fun e he q q' => ih e he) (slots.length_positional _)
          (positional_reordered _ hfields)
      · have hkey := undeclared?_reordered slots.declarations hfields.1
        generalize undeclared? slots.declarations fields = key?,
          undeclared? slots.declarations fields' = key?' at hkey ⊢
        cases hkey <;> rfl
  | list item assemble ih =>
    simp only [decodeWith, h.kind_eq]
    have helements := h.elements?
    generalize p.elements? = elements?, p'.elements? = elements?' at helements
    cases helements with
    | none => rfl
    | some helements =>
      simp only [Outcome.withoutKey_map]
      rw [Outcome.withoutKey_mapM (helements.imp fun q q' hq => ih hq)]
  | optional inner assemble ih =>
    simp only [decodeWith, h.isNull_eq]
    split
    · rfl
    · rw [Outcome.withoutKey_map, Outcome.withoutKey_map, ih h]
  | map f inner ih =>
    simp only [decodeWith, Outcome.withoutKey_map, ih h]
  | reference name target => exact hu target p p' h

theorem InputTable.unfold_reordered (k : Nat) (t : Fin n) {p p' : Payload} (h : p.Reordered p') :
    (table.unfold k t p).withoutKey = (table.unfold k t p').withoutKey := by
  induction k generalizing t p p' with
  | zero => rfl
  | succ k ih => exact InputType.decodeWith_reordered (fun t q q' => ih t) h

theorem InputType.decode_reordered {input : InputType V n} {p p' : Payload} (h : p.Reordered p') :
    (input.decode table p).withoutKey = (input.decode table p').withoutKey := by
  -- enough unfoldings for both payloads
  have hp := Nat.le_max_left (unfoldings n p.depth) (unfoldings n p'.depth)
  have hp' := Nat.le_max_right (unfoldings n p.depth) (unfoldings n p'.depth)
  rw [← decodeWith_unfold hp, ← decodeWith_unfold hp']
  exact decodeWith_reordered (fun t _ _ => InputTable.unfold_reordered _ t) h

theorem Slots.decode_reordered {slots : Slots V n} {values values' : List (Option Payload)}
    (h : List.Forall₂ (Option.Rel Payload.Reordered) values values') :
    (slots.decode table owner values).withoutKey =
      (slots.decode table owner values').withoutKey := by
  by_cases hlen : values.length = slots.size
  · rw [decode_eq_read hlen, decode_eq_read (h.length_eq ▸ hlen)]
    refine read_reordered (fun e _ q q' hq => ?_) hlen h
    rw [← InputType.decode_eq, ← InputType.decode_eq, InputType.decode_reordered hq]
  · rw [decode, if_neg hlen, decode, if_neg (h.length_eq ▸ hlen), h.length_eq]

end Reordered

/-! ## Where undeclared keys are reported -/

/-- The cause of an error, whatever arguments it is reported for. -/
def DecodeError.root : DecodeError → DecodeError
  | .invalidArgument _ cause => cause.root
  | e => e

@[simp] theorem DecodeError.root_wrap (kind : SlotKind) (name : String) (e : DecodeError) :
    (kind.wrap name e).root = e.root := by
  cases kind <;> rfl

/-- The payload is an object all of whose entries decode, with the key as the first that the input
object does not declare. -/
def Slots.ReportsKey (table : InputTable V n) (slots : Slots V n) (q : Payload) (key : String) :
    Prop :=
  ∃ fields, q.Keys fields ∧ (∀ x ∈ slots.row fields, ∃ v, x.1.Decodes table x.2 v) ∧
    slots.FirstUndeclared fields key

namespace InputType
variable {input : InputType V n} {p : Payload} {name key : String}

/-- Decoding a payload comes to decoding `q` as `met`: on the way, everything that stands before it
in the order of the declaration or of the list decodes. -/
inductive Meets (table : InputTable V n) (met : InputType V n) (q : Payload) :
    InputType V n → Payload → Prop
  | here : Meets table met q met q
  | entry {name : String} {slots : Slots V n} {p r : Payload} {fields : Keyed Payload}
      {before after : List (Entry V n × Option Payload)} {e : Entry V n} :
      p.Keys fields → slots.row fields = before ++ (e, some r) :: after →
      (∀ x ∈ before, ∃ v, x.1.Decodes table x.2 v) → Meets table met q e.input r →
      Meets table met q (.object name slots) p
  | element {item : InputType V n} {assemble : List V → V} {p r : Payload}
      {before after : List Payload} :
      p.Lists (before ++ r :: after) → (∀ x ∈ before, ∃ v, item.decode table x = .ok v) →
      Meets table met q item r → Meets table met q (.list item assemble) p
  | optional {inner : InputType V n} {assemble : Option V → V} {p : Payload} :
      p.isNull = false → Meets table met q inner p → Meets table met q (.optional inner assemble) p
  | map {f : V → V} {inner : InputType V n} {p : Payload} :
      Meets table met q inner p → Meets table met q (.map f inner) p
  | reference {name : String} {target : Fin n} {p : Payload} :
      Meets table met q (table target) p → Meets table met q (.reference name target) p

/-- What decoding comes to fails, and the whole fails for the same cause. -/
theorem Meets.fails {met : InputType V n} {q : Payload} {err : DecodeError}
    (h : Meets table met q input p) (herr : met.Fails table q err) :
    ∃ e, input.Fails table p e ∧ e.root = err.root := by
  induction h with
  | here => exact ⟨err, herr, rfl⟩
  | entry hfields hsplit hbefore _ ih =>
    obtain ⟨cause, hcause, hroot⟩ := ih
    exact ⟨_, .entry hfields hsplit hbefore hcause, by rw [DecodeError.root_wrap, hroot]⟩
  | element helements hbefore _ ih =>
    obtain ⟨e, he, hroot⟩ := ih
    exact ⟨e, .element helements hbefore he, hroot⟩
  | optional hnull _ ih =>
    obtain ⟨e, he, hroot⟩ := ih
    exact ⟨e, .optional hnull he, hroot⟩
  | map _ ih =>
    obtain ⟨e, he, hroot⟩ := ih
    exact ⟨e, .map he, hroot⟩
  | reference _ ih =>
    obtain ⟨e, he, hroot⟩ := ih
    exact ⟨e, .reference he, hroot⟩

theorem Fails.reportsKey {err : DecodeError} (h : input.Fails table p err)
    (herr : err.root = .unknownField key name) :
    ∃ slots q, Meets table (.object name slots) q input p ∧ slots.ReportsKey table q key := by
  induction h with
  | entry hfields hsplit hbefore _ ih =>
    obtain ⟨slots, q, hmeets, hkey⟩ := ih (DecodeError.root_wrap .. ▸ herr)
    exact ⟨slots, q, .entry hfields hsplit hbefore hmeets, hkey⟩
  | @missing _ slots p _ _ _ e =>
    cases hkind : e.kind <;> rw [hkind] at herr <;> cases herr
  | @undeclared _ _ slots p fields hfields hrow hkey =>
    cases herr
    exact ⟨slots, p, .here, fields, hfields, hrow, hkey⟩
  | element helements hbefore _ ih =>
    obtain ⟨slots, q, hmeets, hkey⟩ := ih herr
    exact ⟨slots, q, .element helements hbefore hmeets, hkey⟩
  | optional hnull _ ih =>
    obtain ⟨slots, q, hmeets, hkey⟩ := ih herr
    exact ⟨slots, q, .optional hnull hmeets, hkey⟩
  | map _ ih =>
    obtain ⟨slots, q, hmeets, hkey⟩ := ih herr
    exact ⟨slots, q, .map hmeets, hkey⟩
  | reference _ ih =>
    obtain ⟨slots, q, hmeets, hkey⟩ := ih herr
    exact ⟨slots, q, .reference hmeets, hkey⟩
  | _ => cases herr

theorem fails_with_undeclared_iff :
    (∃ err, input.Fails table p err ∧ err.root = .unknownField key name) ↔
      ∃ slots q, Meets table (.object name slots) q input p ∧ slots.ReportsKey table q key := by
  constructor
  · rintro ⟨err, h, herr⟩
    exact h.reportsKey herr
  · rintro ⟨slots, q, hmeets, fields, hfields, hrow, hkey⟩
    exact hmeets.fails (.undeclared hfields hrow hkey)

end InputType

/-! ## Key order is irrelevant -/

/-- Outcomes with the same value, or errors that are the same but for the undeclared key they name.
Only a table with a cycle of direct references leaves both unfinished. -/
inductive InputTable.Alike (table : InputTable V n) :
    Outcome DecodeError V → Outcome DecodeError V → Prop
  | ok (a : V) : Alike table (.ok a) (.ok a)
  | error {e e' : DecodeError} : e.withoutKey = e'.withoutKey → Alike table (.error e) (.error e')
  | unfinished : ¬ table.Guarded → Alike table .unfinished .unfinished

theorem InputTable.Alike.of_withoutKey {x x' : Outcome DecodeError V}
    (hx : table.Guarded → x.isFinished) (h : x.withoutKey = x'.withoutKey) : table.Alike x x' := by
  cases x with
  | ok a =>
    cases x' with
    | ok a' =>
      cases h
      exact .ok a
    | _ => cases h
  | error e =>
    cases x' with
    | error e' => exact .error (Outcome.error.inj h)
    | _ => cases h
  | unfinished =>
    cases x' with
    | unfinished => exact .unfinished fun hg => Bool.false_ne_true (hx hg)
    | _ => cases h

/-- Payloads whose native objects have their fields in different orders decode alike, at any depth,
as payloads of an input type and in slots that they are given to by position or by name. An
undeclared key is reported for the objects that decoding comes to and whose declared fields all
decode, and it is the first in the order of the payload. -/
theorem decode_ignores_key_order (table : InputTable V n) :
    (∀ (input : InputType V n) (p p' : Payload), p.Reordered p' →
      table.Alike (input.decode table p) (input.decode table p')) ∧
    (∀ (slots : Slots V n) (owner : String) (values values' : List (Option Payload)),
      List.Forall₂ (Option.Rel Payload.Reordered) values values' →
      table.Alike (slots.decode table owner values) (slots.decode table owner values')) ∧
    (∀ (slots : Slots V n) (owner : String) (fields fields' : Keyed Payload),
      (Payload.object fields).Reordered (.object fields') →
      table.Alike (slots.decodeNamed table owner fields)
        (slots.decodeNamed table owner fields')) ∧
    (∀ (input : InputType V n) (p : Payload) (name key : String),
      (∃ err, input.decode table p = .error err ∧ err.root = .unknownField key name) ↔
        ∃ slots q, InputType.Meets table (.object name slots) q input p ∧
          slots.ReportsKey table q key) := by
  have hslots (slots : Slots V n) (owner : String) (values values' : List (Option Payload))
      (h : List.Forall₂ (Option.Rel Payload.Reordered) values values') :
      table.Alike (slots.decode table owner values) (slots.decode table owner values') :=
    .of_withoutKey (fun hg => slots.isFinished_decode hg owner values) (Slots.decode_reordered h)
  refine ⟨?_, hslots, ?_, ?_⟩
  · intro input p p' h
    exact .of_withoutKey (fun hg => InputType.isFinished_decode hg input p)
      (InputType.decode_reordered h)
  · intro slots owner fields fields' h
    exact hslots slots owner _ _ (positional_reordered _ h.of_object)
  · intro input p name key
    simp only [InputType.decode_eq_error_iff, InputType.fails_with_undeclared_iff]

/-! ## A tree with undeclared keys -/

namespace Palette

/-- A red tree with a child of a size and a shape, which no tree has. -/
def sized : Payload :=
  .object [("color", .token "RED"), ("children", .list [.object [("size", .leaf (.int 2)),
    ("color", .token "GREEN"), ("shape", .token "ROUND")]])]

/-- The same tree, with other keys first. -/
def shaped : Payload :=
  .object [("children", .list [.object [("color", .token "GREEN"), ("shape", .token "ROUND"),
    ("size", .leaf (.int 2))]]), ("color", .token "RED")]

theorem sized_reordered : sized.Reordered shaped := by
  refine .object (by decide) fun key p p' hp hp' => ?_
  rcases List.mem_pair.1 (Keyed.mem_of_lookup hp) with h | h
  · cases h
    cases hp'
    exact .refl _
  · cases h
    cases hp'
    refine .list rfl fun q q' hq => ?_
    cases List.mem_singleton.1 hq
    exact .of_perm (by decide) (.trans (.swap ..) (.cons _ (.swap ..)))

/-- The trees fail alike, but for the key that stands first in each of them. -/
theorem tree_fails_with_first_key :
    definitions.Alike (tree.decode definitions sized) (tree.decode definitions shaped) ∧
      tree.decode definitions sized = .error (.unknownField "size" "Tree") ∧
      tree.decode definitions shaped = .error (.unknownField "shape" "Tree") :=
  ⟨(decode_ignores_key_order definitions).1 tree sized shaped sized_reordered, by rfl, by rfl⟩

end Palette
end QueryTypes
