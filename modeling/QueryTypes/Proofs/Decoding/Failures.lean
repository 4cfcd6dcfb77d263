import QueryTypes.Proofs.Decoding.Row
import QueryTypes.Proofs.Decoding.Termination

/-!
# The payloads that do not decode

`InputType.Fails` is the grammar of failures: one rule for each thing that can be wrong with a
payload, with all that has to be right before decoding comes to it. Like the grammar of values it
knows of no unfoldings. Decoding comes to an error exactly if the payload fails with it
(`InputType.decode_eq_error_iff`).
-/

namespace QueryTypes

variable {V : Type} {n : Nat} {table : InputTable V n}

/-! ## Lists and options -/

theorem Outcome.exists_of_mapM_eq_ok {ε α β : Type} {f : α → Outcome ε β} {xs : List α}
    {ys : List β} (h : xs.mapM f = .ok ys) {x : α} (hx : x ∈ xs) : ∃ y, f x = .ok y := by
  obtain ⟨hlen, hzip⟩ := List.forall₂_iff_zip.1 (mapM_eq_ok_iff.1 h)
  obtain ⟨y, hxy⟩ := Aligned.exists_mem_zip hlen hx
  exact ⟨y, hzip hxy⟩

theorem optionRel_imp {α β : Type} {R R' : α → β → Prop} {x : Option α} {y : Option β}
    (h : Option.Rel R x y) (hR : ∀ a b, R a b → R' a b) : Option.Rel R' x y := by
  cases h with
  | some hab => exact .some (hR _ _ hab)
  | none => exact .none

theorem optionRel_of_isSome_eq {α β : Type} {R : α → β → Prop} {x : Option α} {y : Option β}
    (hsome : y.isSome = x.isSome) (h : ∀ a b, x = some a → y = some b → R a b) :
    Option.Rel R x y := by
  cases x <;> cases y
  · exact .none
  · cases hsome
  · cases hsome
  · exact .some (h _ _ rfl rfl)

namespace Payload
variable {p : Payload}

theorem token?_eq_none_iff : p.token? = none ↔ ∀ token, ¬ p.Names token := by
  simp only [Option.eq_none_iff_forall_ne_some, ne_eq, token?_eq_some_iff]

theorem elements?_eq_none_iff : p.elements? = none ↔ ∀ elements, ¬ p.Lists elements := by
  simp only [Option.eq_none_iff_forall_ne_some, ne_eq, elements?_eq_some_iff]

theorem fields?_eq_none_iff : p.fields? = none ↔ ∀ fields, ¬ p.Keys fields := by
  simp only [Option.eq_none_iff_forall_ne_some, ne_eq, fields?_eq_some_iff]

end Payload

theorem Keyed.lookup_ofPairs_eq_none_iff {α : Type} {pairs : List (String × α)} {key : String} :
    (Keyed.ofPairs pairs).lookup key = none ↔ key ∉ pairs.map Prod.fst := by
  simp only [Option.eq_none_iff_forall_ne_some, ← exists_lookup_ofPairs, not_exists, ne_eq]

/-! ## Decoding in terms of decoding -/

namespace Slots
variable {slots : Slots V n} {owner : String} {values : List (Option Payload)}
  {fields : Keyed Payload}

/-- The entries with their payloads, looked up by name. -/
def row (slots : Slots V n) (fields : Keyed Payload) : List (Entry V n × Option Payload) :=
  slots.entries.zip (positional slots.declarations fields)

theorem decode_eq_read (hlen : values.length = slots.size) :
    slots.decode table owner values = slots.read (fun t => (table t).decode table) owner values :=
  Outcome.some_map_injective ((decode_eq_row hlen).trans (slots.read_eq _ owner values hlen).symm)

/-- A row whose entries all decode comes to a value. -/
theorem decodeNamed_returns (h : ∀ x ∈ slots.row fields, ∃ v, x.1.Decodes table x.2 v) :
    ∃ a, slots.decodeNamed table owner fields = .ok a := by
  have hlen : (positional slots.declarations fields).length = slots.entries.length :=
    (slots.length_positional fields).trans slots.length_entries.symm
  obtain ⟨values, hvalues⟩ := Aligned.exists_forall₂ h
  have hsize : values.length = slots.size := by
    rw [← hvalues.length_eq, row, List.length_zip, hlen, Nat.min_self, length_entries]
  obtain ⟨a, ha⟩ := slots.exists_assemble hsize
  exact ⟨a, (decode_eq_ok_iff_row hlen).2 ⟨values, hvalues, (assemble_eq_some_iff hsize).1 ha⟩⟩

theorem decodeNamed_eq_error_iff {err : DecodeError} :
    slots.decodeNamed table owner fields = .error err ↔ ∃ before e value after,
      slots.row fields = before ++ (e, value) :: after ∧
        (∀ x ∈ before, ∃ v, x.1.Decodes table x.2 v) ∧ e.Fails table owner value err :=
  decode_eq_error_iff_row ((slots.length_positional fields).trans slots.length_entries.symm)

end Slots

namespace InputType
variable {p : Payload}

/-- An object is decoded slot by slot, and then its keys are looked at. -/
theorem decode_object {name : String} {slots : Slots V n} {fields : Keyed Payload}
    (h : p.Keys fields) : (InputType.object name slots).decode table p = (do
      let a ← slots.decodeNamed table name fields
      match undeclared? slots.declarations fields with
      | some key => .error (.unknownField key name)
      | none => .ok a) := by
  have hread : slots.decodeNamed table name fields =
      slots.read (fun t => (table t).decode table) name (positional slots.declarations fields) :=
    Slots.decode_eq_read (slots.length_positional fields)
  rw [decode_eq, decodeWith, Payload.fields?_eq_some_iff.2 h]
  exact congrArg (· >>= _) hread.symm

theorem decode_list {item : InputType V n} {assemble : List V → V} {elements : List Payload}
    (h : p.Lists elements) : (InputType.list item assemble).decode table p =
      assemble <$> elements.mapM (item.decode table) := by
  have hitem : item.decodeWith (fun t => (table t).decode table) = item.decode table :=
    funext fun _ => decode_eq.symm
  rw [decode_eq, decodeWith, Payload.elements?_eq_some_iff.2 h, hitem]

theorem decode_optional {inner : InputType V n} {assemble : Option V → V} (h : p.isNull = false) :
    (InputType.optional inner assemble).decode table p =
      (fun a => assemble (some a)) <$> inner.decode table p := by
  rw [decode_eq, decodeWith, h, decode_eq]
  rfl

theorem decode_map {f : V → V} {inner : InputType V n} :
    (InputType.map f inner).decode table p = f <$> inner.decode table p := by
  rw [decode_eq, decodeWith, decode_eq]

theorem decode_reference {name : String} {target : Fin n} :
    (InputType.reference name target).decode table p = (table target).decode table p := by
  rw [decode_eq, decodeWith]

end InputType

/-! ## The grammar of failures -/

/-- The first key of the fields that is the name of no entry. -/
def Slots.FirstUndeclared (slots : Slots V n) (fields : Keyed Payload) (key : String) : Prop :=
  ∃ before after, fields.keys = before ++ key :: after ∧
    (∀ k ∈ before, ∃ e ∈ slots.entries, e.name = k) ∧ ∀ e ∈ slots.entries, e.name ≠ key

theorem Slots.undeclared?_eq_some_iff {slots : Slots V n} {fields : Keyed Payload} {key : String} :
    undeclared? slots.declarations fields = some key ↔ slots.FirstUndeclared fields key := by
  simp only [undeclared?, List.find?_eq_some_iff_append, FirstUndeclared, declarations_eq]
  constructor
  · rintro ⟨hkey, before, after, hkeys, hbefore⟩
    exact ⟨before, after, hkeys, by simpa [Entry.declaration] using hbefore,
      by simpa [Entry.declaration] using hkey⟩
  · rintro ⟨before, after, hkeys, hbefore, hkey⟩
    exact ⟨by simpa [Entry.declaration] using hkey, before, after, hkeys,
      by simpa [Entry.declaration] using hbefore⟩

namespace InputType

/-- The error that a payload fails with. What stands before the part that fails, in the order of the
declaration or of the list, decodes. -/
inductive Fails (table : InputTable V n) : InputType V n → Payload → DecodeError → Prop
  | scalarForm {name : String} {read : Json → Except String V} {p : Payload} :
      (∀ json, p = .leaf json → json = .null) →
      Fails table (.scalar name read) p (.shapeMismatch .scalar name p.kind)
  | scalar {name message : String} {read : Json → Except String V} {json : Json} :
      json ≠ .null → read json = .error message →
      Fails table (.scalar name read) (.leaf json) (.invalidScalar name message)
  | enumForm {name : String} {pairs : List (String × V)} {p : Payload} :
      (∀ token, ¬ p.Names token) →
      Fails table (.enumeration name pairs) p (.shapeMismatch .enum name p.kind)
  | enumToken {name token : String} {pairs : List (String × V)} {p : Payload} :
      p.Names token → token ∉ pairs.map Prod.fst →
      Fails table (.enumeration name pairs) p (.unknownEnumToken token name)
  | objectForm {name : String} {slots : Slots V n} {p : Payload} :
      (∀ fields, ¬ p.Keys fields) →
      Fails table (.object name slots) p (.shapeMismatch .inputObject name p.kind)
  | entry {name : String} {slots : Slots V n} {p q : Payload} {fields : Keyed Payload}
      {before after : List (Entry V n × Option Payload)} {e : Entry V n} {cause : DecodeError} :
      p.Keys fields → slots.row fields = before ++ (e, some q) :: after →
      (∀ x ∈ before, ∃ v, x.1.Decodes table x.2 v) → Fails table e.input q cause →
      Fails table (.object name slots) p (e.kind.wrap e.name cause)
  | missing {name : String} {slots : Slots V n} {p : Payload} {fields : Keyed Payload}
      {before after : List (Entry V n × Option Payload)} {e : Entry V n} :
      p.Keys fields → slots.row fields = before ++ (e, none) :: after →
      (∀ x ∈ before, ∃ v, x.1.Decodes table x.2 v) →
      e.default = none → e.input.shape.isOptional = false →
      Fails table (.object name slots) p (e.kind.missing e.name name)
  /-- Keys are looked at where all entries decode. -/
  | undeclared {name key : String} {slots : Slots V n} {p : Payload} {fields : Keyed Payload} :
      p.Keys fields → (∀ x ∈ slots.row fields, ∃ v, x.1.Decodes table x.2 v) →
      slots.FirstUndeclared fields key →
      Fails table (.object name slots) p (.unknownField key name)
  | listForm {item : InputType V n} {assemble : List V → V} {p : Payload} :
      (∀ elements, ¬ p.Lists elements) →
      Fails table (.list item assemble) p
        (.shapeMismatch .list (InputShape.list item.shape).typeRef.text p.kind)
  | element {item : InputType V n} {assemble : List V → V} {p q : Payload}
      {before after : List Payload} {err : DecodeError} :
      p.Lists (before ++ q :: after) → (∀ x ∈ before, ∃ v, item.decode table x = .ok v) →
      Fails table item q err → Fails table (.list item assemble) p err
  | optional {inner : InputType V n} {assemble : Option V → V} {p : Payload} {err : DecodeError} :
      p.isNull = false → Fails table inner p err → Fails table (.optional inner assemble) p err
  | map {f : V → V} {inner : InputType V n} {p : Payload} {err : DecodeError} :
      Fails table inner p err → Fails table (.map f inner) p err
  | reference {name : String} {target : Fin n} {p : Payload} {err : DecodeError} :
      Fails table (table target) p err → Fails table (.reference name target) p err

end InputType

/-! ## Failures of one entry -/

namespace Entry
variable {owner : String} {e : Entry V n} {err : DecodeError} {u : Unfolding V n}

theorem fails_some_iff {q : Payload} : e.Fails table owner (some q) err ↔
    ∃ cause, e.input.decode table q = .error cause ∧ e.kind.wrap e.name cause = err := by
  constructor
  · intro h
    cases h with
    | argument hkind hcause => exact ⟨_, hcause, by rw [hkind]; rfl⟩
    | field hkind hcause => exact ⟨_, hcause, by rw [hkind]; rfl⟩
  · rintro ⟨cause, hcause, rfl⟩
    cases hkind : e.kind with
    | argument => exact .argument hkind hcause
    | field => exact .field hkind hcause

theorem fails_none_iff : e.Fails table owner none err ↔
    e.default = none ∧ e.input.shape.isOptional = false ∧ e.kind.missing e.name owner = err := by
  constructor
  · intro h
    cases h with
    | missingArgument hkind hdefault hopt => exact ⟨hdefault, hopt, by rw [hkind]; rfl⟩
    | missingField hkind hdefault hopt => exact ⟨hdefault, hopt, by rw [hkind]; rfl⟩
  · rintro ⟨hdefault, hopt, rfl⟩
    cases hkind : e.kind with
    | argument => exact .missingArgument hkind hdefault hopt
    | field => exact .missingField hkind hdefault hopt

/-- An absent payload is read alike whatever references come to. -/
theorem fails_of_read_none (h : e.read u owner none = .error err) :
    e.Fails table owner none err := by
  obtain ⟨r, hr⟩ := e.exists_read_none owner
  rw [← decode_eq_error_iff, decode, hr, ← hr u, h]

theorem decodes_of_read {value : Option Payload} {v : V}
    (hu : ∀ t q a, u t q = .ok a → (table t).Gives table q a)
    (h : e.read u owner value = .ok v) : e.Decodes table value v := by
  rw [read_eq_ok_iff] at h
  exact h.mono fun q hq => InputType.decode_of_gives (InputType.gives_of_decodeWith hu hq)

end Entry

/-! ## Failures of a row -/

namespace Slots
variable {slots : Slots V n} {owner : String} {fields : Keyed Payload} {u : Unfolding V n}

theorem row_of_read {a : V} (hu : ∀ t q a, u t q = .ok a → (table t).Gives table q a)
    (h : slots.read u owner (positional slots.declarations fields) = .ok a) :
    ∀ x ∈ slots.row fields, ∃ v, x.1.Decodes table x.2 v := by
  have hread := slots.read_eq u owner _ (slots.length_positional fields)
  rw [h, Outcome.map_ok] at hread
  obtain ⟨values, hvalues, -⟩ := Outcome.map_eq_ok hread.symm
  intro x hx
  obtain ⟨v, hv⟩ := Outcome.exists_of_mapM_eq_ok hvalues hx
  exact ⟨v, Entry.decodes_of_read hu hv⟩

/-- What is read fails with the first entry of the row that does. -/
theorem row_of_read_error {err : DecodeError}
    (hu : ∀ t q a, u t q = .ok a → (table t).Gives table q a)
    (h : slots.read u owner (positional slots.declarations fields) = .error err) :
    ∃ before e value after, slots.row fields = before ++ (e, value) :: after ∧
      (∀ x ∈ before, ∃ v, x.1.Decodes table x.2 v) ∧ e.read u owner value = .error err := by
  have hread := slots.read_eq u owner _ (slots.length_positional fields)
  obtain ⟨before, ⟨e, value⟩, after, hsplit, hbefore, hvalue⟩ :=
    Outcome.mapM_eq_error_iff.1 ((Outcome.eq_error_iff_of_map_eq_map hread).1 h)
  refine ⟨before, e, value, after, hsplit, fun x hx => ?_, hvalue⟩
  obtain ⟨v, hv⟩ := hbefore x hx
  exact ⟨v, Entry.decodes_of_read hu hv⟩

end Slots

/-! ## Decoding fails with the error -/

namespace InputType
variable {p : Payload} {err : DecodeError}

/-- An object fails with the first entry that cannot be read. -/
theorem fails_of_read {u : Unfolding V n} {name : String} {slots : Slots V n}
    {fields : Keyed Payload} (hok : ∀ t q a, u t q = .ok a → (table t).Gives table q a)
    (hentries : ∀ e ∈ slots.entries, ∀ q cause, e.input.decodeWith u q = .error cause →
      e.input.Fails table q cause)
    (hkeys : p.Keys fields)
    (h : slots.read u name (positional slots.declarations fields) = .error err) :
    (InputType.object name slots).Fails table p err := by
  obtain ⟨before, e, value, after, hsplit, hbefore, hvalue⟩ := Slots.row_of_read_error hok h
  have hrow : (e, value) ∈ slots.row fields :=
    hsplit ▸ List.mem_append_right before List.mem_cons_self
  cases value with
  | some q =>
    obtain ⟨cause, hcause, rfl⟩ := Outcome.mapError_eq_error hvalue
    exact .entry hkeys hsplit hbefore (hentries e (List.of_mem_zip hrow).1 q cause hcause)
  | none =>
    have hfails : e.Fails table name none err := Entry.fails_of_read_none hvalue
    obtain ⟨hdefault, hopt, rfl⟩ := Entry.fails_none_iff.1 hfails
    exact .missing hkeys hsplit hbefore hdefault hopt

/-- What fails to decode through references that fail as their definitions do, fails. -/
theorem fails_of_decodeWith {u : Unfolding V n}
    (hok : ∀ t q a, u t q = .ok a → (table t).Gives table q a)
    (herror : ∀ t q e, u t q = .error e → (table t).Fails table q e) {input : InputType V n}
    (h : input.decodeWith u p = .error err) : input.Fails table p err := by
  induction input using InputType.induction generalizing p err with
  | scalar name read =>
    simp only [decodeWith] at h
    split at h
    · cases h
      exact .scalarForm fun json hjson => (Payload.leaf.inj hjson).symm
    · rename_i json hjson
      split at h
      · cases h
      · rename_i message hmessage
        cases h
        exact .scalar hjson hmessage
    · rename_i hnull hleaf
      cases h
      exact .scalarForm fun json hjson => absurd hjson (hleaf json)
  | enumeration name pairs =>
    simp only [decodeWith] at h
    split at h
    · rename_i token htoken
      split at h
      · cases h
      · rename_i hnone
        cases h
        exact .enumToken (Payload.token?_eq_some_iff.1 htoken)
          (Keyed.lookup_ofPairs_eq_none_iff.1 hnone)
    · rename_i hnone
      cases h
      exact .enumForm (Payload.token?_eq_none_iff.1 hnone)
  | object name slots ih =>
    simp only [decodeWith] at h
    split at h
    · rename_i fields hfields
      have hkeys := Payload.fields?_eq_some_iff.1 hfields
      rcases Outcome.bind_eq_error h with h | ⟨a, ha, h⟩
      · exact fails_of_read hok (fun e he q cause => ih e he) hkeys h
      · split at h
        · rename_i key hkey
          cases h
          exact .undeclared hkeys (Slots.row_of_read hok ha) (Slots.undeclared?_eq_some_iff.1 hkey)
        · cases h
    · rename_i hnone
      cases h
      exact .objectForm (Payload.fields?_eq_none_iff.1 hnone)
  | list item assemble ih =>
    simp only [decodeWith] at h
    split at h
    · rename_i elements helements
      obtain ⟨before, q, after, rfl, hbefore, hq⟩ :=
        Outcome.mapM_eq_error_iff.1 (Outcome.map_eq_error h)
      refine .element (Payload.elements?_eq_some_iff.1 helements) (fun x hx => ?_) (ih hq)
      obtain ⟨v, hv⟩ := hbefore x hx
      exact ⟨v, decode_of_gives (gives_of_decodeWith hok hv)⟩
    · rename_i hnone
      cases h
      exact .listForm (Payload.elements?_eq_none_iff.1 hnone)
  | optional inner assemble ih =>
    simp only [decodeWith] at h
    split at h
    · cases h
    · rename_i hnull
      exact .optional (by simpa using hnull) (ih (Outcome.map_eq_error h))
  | map f inner ih => exact .map (ih (Outcome.map_eq_error h))
  | reference name target => exact .reference (herror target p err h)

theorem fails_of_unfold {k : Nat} {t : Fin n} (h : table.unfold k t p = .error err) :
    (table t).Fails table p err := by
  induction k generalizing t p err with
  | zero => cases h
  | succ k ih => exact fails_of_decodeWith (fun _ _ _ => gives_of_unfold) (fun t q e => ih) h

/-- A payload that fails with an error decodes to it. -/
theorem decode_of_fails {input : InputType V n} (h : input.Fails table p err) :
    input.decode table p = .error err := by
  induction h with
  | @scalarForm name read p hleaf =>
    rw [decode_eq]
    cases p with
    | leaf json =>
      obtain rfl := hleaf json rfl
      simp only [decodeWith, Payload.kind]
    | _ => simp only [decodeWith]
  | @scalar name message read json hjson hread =>
    rw [decode_eq]
    cases json with
    | null => exact absurd rfl hjson
    | _ => simp only [decodeWith, hread]
  | enumForm hform => rw [decode_eq, decodeWith, Payload.token?_eq_none_iff.2 hform]
  | enumToken htoken hmem =>
    simp only [decode_eq, decodeWith, Payload.token?_eq_some_iff.2 htoken,
      Keyed.lookup_ofPairs_eq_none_iff.2 hmem]
  | objectForm hform => rw [decode_eq, decodeWith, Payload.fields?_eq_none_iff.2 hform]
  | @entry name slots p q fields before after e cause hfields hsplit hbefore _ ih =>
    have hentry : e.Fails table name (some q) (e.kind.wrap e.name cause) :=
      Entry.fails_some_iff.2 ⟨cause, ih, rfl⟩
    rw [decode_object hfields,
      Slots.decodeNamed_eq_error_iff.2 ⟨_, _, _, _, hsplit, hbefore, hentry⟩]
    rfl
  | @missing name slots p fields before after e hfields hsplit hbefore hdefault hopt =>
    have hentry : e.Fails table name none (e.kind.missing e.name name) :=
      Entry.fails_none_iff.2 ⟨hdefault, hopt, rfl⟩
    rw [decode_object hfields,
      Slots.decodeNamed_eq_error_iff.2 ⟨_, _, _, _, hsplit, hbefore, hentry⟩]
    rfl
  | undeclared hfields hrow hkey =>
    obtain ⟨a, ha⟩ := Slots.decodeNamed_returns hrow
    rw [decode_object hfields, ha, Slots.undeclared?_eq_some_iff.2 hkey]
    rfl
  | listForm hform => rw [decode_eq, decodeWith, Payload.elements?_eq_none_iff.2 hform]
  | element helements hbefore _ ih =>
    rw [decode_list helements, Outcome.mapM_eq_error_iff.2 ⟨_, _, _, rfl, hbefore, ih⟩]
    rfl
  | optional hnull _ ih => rw [decode_optional hnull, ih, Outcome.map_error]
  | map _ ih => rw [decode_map, ih, Outcome.map_error]
  | reference _ ih => rw [decode_reference, ih]

theorem decode_eq_error_iff {input : InputType V n} :
    input.decode table p = .error err ↔ input.Fails table p err :=
  ⟨fails_of_decodeWith (fun _ _ _ => gives_of_unfold) fun _ _ _ => fails_of_unfold, decode_of_fails⟩

end InputType
end QueryTypes
