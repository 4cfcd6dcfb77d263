import QueryTypes.Proofs.Decoding.Unfolding

/-!
# The payloads that decode

`InputType.Conforms` is the grammar that an input type declares, and `InputType.Gives` says which
value a payload stands for. Neither knows of unfoldings or of the order in which things are looked
at. Decoding gives a value exactly for the payloads of the grammar, and it is the value that they
stand for.
-/

namespace QueryTypes

variable {V : Type} {n : Nat}

/-! ## The two forms of a payload -/

namespace Payload

inductive Names : Payload → String → Prop
  | token (name : String) : Names (.token name) name
  | string (name : String) : Names (.leaf (.string name)) name

inductive Lists : Payload → List Payload → Prop
  | list (items : List Payload) : Lists (.list items) items
  | array (items : List Json) : Lists (.leaf (.array items)) (items.map .leaf)

inductive Keys : Payload → Keyed Payload → Prop
  | object (fields : Keyed Payload) : Keys (.object fields) fields
  | leaf (members : List (String × Json)) :
      Keys (.leaf (.object members)) (members.map fun m => (m.1, .leaf m.2))

variable {p : Payload}

theorem token?_eq_some_iff {name : String} : p.token? = some name ↔ p.Names name := by
  constructor
  · intro h
    unfold token? at h
    split at h <;> cases h
    · exact .token name
    · exact .string name
  · intro h
    cases h <;> rfl

theorem elements?_eq_some_iff {elements : List Payload} :
    p.elements? = some elements ↔ p.Lists elements := by
  constructor
  · intro h
    unfold elements? at h
    split at h <;> cases h
    · exact .list _
    · exact .array _
  · intro h
    cases h <;> rfl

theorem fields?_eq_some_iff {fields : Keyed Payload} : p.fields? = some fields ↔ p.Keys fields := by
  constructor
  · intro h
    unfold fields? at h
    split at h <;> cases h
    · exact .object _
    · exact .leaf _
  · intro h
    cases h <;> rfl

theorem eq_null_of_isNull (h : p.isNull) : p = .null := by
  unfold isNull at h
  split at h
  · rfl
  · cases h

end Payload

namespace InputType

/-! ## The grammar -/

/-- The payload is one that the input type declares. -/
inductive Conforms (table : InputTable V n) : InputType V n → Payload → Prop
  | scalar {name : String} {read : Json → Except String V} {j : Json} {a : V} :
      j ≠ .null → read j = .ok a → Conforms table (.scalar name read) (.leaf j)
  | enumeration {name token : String} {pairs : List (String × V)} {p : Payload} :
      p.Names token → token ∈ pairs.map Prod.fst →
      Conforms table (.enumeration name pairs) p
  /-- All keys are declared, and an entry that is absent has a default or may be null. -/
  | object {name : String} {slots : Slots V n} {p : Payload} {fields : Keyed Payload} :
      p.Keys fields → (∀ key ∈ fields.keys, ∃ e ∈ slots.entries, e.name = key) →
      (∀ e ∈ slots.entries, ∀ q, fields.lookup e.name = some q → Conforms table e.input q) →
      (∀ e ∈ slots.entries, fields.lookup e.name = none →
        e.default.isSome ∨ e.input.shape.isOptional) →
      Conforms table (.object name slots) p
  | list {item : InputType V n} {assemble : List V → V} {p : Payload} {elements : List Payload} :
      p.Lists elements → (∀ q ∈ elements, Conforms table item q) →
      Conforms table (.list item assemble) p
  | null (inner : InputType V n) (assemble : Option V → V) :
      Conforms table (.optional inner assemble) .null
  | present {inner : InputType V n} {assemble : Option V → V} {p : Payload} :
      Conforms table inner p → Conforms table (.optional inner assemble) p
  | map {f : V → V} {inner : InputType V n} {p : Payload} :
      Conforms table inner p → Conforms table (.map f inner) p
  | reference {name : String} {target : Fin n} {p : Payload} :
      Conforms table (table target) p → Conforms table (.reference name target) p

/-- The value that a payload stands for. -/
inductive Gives (table : InputTable V n) : InputType V n → Payload → V → Prop
  | scalar {name : String} {read : Json → Except String V} {j : Json} {a : V} :
      j ≠ .null → read j = .ok a → Gives table (.scalar name read) (.leaf j) a
  /-- The last value of a repeated token counts. -/
  | enumeration {name token : String} {pairs : List (String × V)} {p : Payload} {a : V} :
      p.Names token → (Keyed.ofPairs pairs).lookup token = some a →
      Gives table (.enumeration name pairs) p a
  /-- One value an entry: what its payload stands for, or where there is none its default, or else
  what null stands for. -/
  | object {name : String} {slots : Slots V n} {p : Payload} {fields : Keyed Payload}
      {values : List V} {a : V} :
      p.Keys fields → (∀ key ∈ fields.keys, ∃ e ∈ slots.entries, e.name = key) →
      slots.entries.length = values.length →
      (∀ e v q, (e, v) ∈ slots.entries.zip values → fields.lookup e.name = some q →
        Gives table e.input q v) →
      (∀ e v d, (e, v) ∈ slots.entries.zip values → fields.lookup e.name = none →
        e.default = some d → v = d) →
      (∀ e v, (e, v) ∈ slots.entries.zip values → fields.lookup e.name = none → e.default = none →
        e.input.shape.isOptional) →
      (∀ e v, (e, v) ∈ slots.entries.zip values → fields.lookup e.name = none → e.default = none →
        Gives table e.input .null v) →
      slots.assemble values = some a → Gives table (.object name slots) p a
  | list {item : InputType V n} {assemble : List V → V} {p : Payload} {elements : List Payload}
      {values : List V} :
      p.Lists elements → elements.length = values.length →
      (∀ q v, (q, v) ∈ elements.zip values → Gives table item q v) →
      Gives table (.list item assemble) p (assemble values)
  | null (inner : InputType V n) (assemble : Option V → V) :
      Gives table (.optional inner assemble) .null (assemble none)
  | present {inner : InputType V n} {assemble : Option V → V} {p : Payload} {a : V} :
      p.isNull = false → Gives table inner p a →
      Gives table (.optional inner assemble) p (assemble (some a))
  | map {f : V → V} {inner : InputType V n} {p : Payload} {a : V} :
      Gives table inner p a → Gives table (.map f inner) p (f a)
  | reference {name : String} {target : Fin n} {p : Payload} {a : V} :
      Gives table (table target) p a → Gives table (.reference name target) p a

end InputType

/-! ## One entry, one object -/

section Reading
variable {u : Unfolding V n}

/-- The values that an entry can be read as, given which values payloads stand for. -/
inductive Entry.Takes (G : InputType V n → Payload → V → Prop) (e : Entry V n) :
    Option Payload → V → Prop
  | present {q : Payload} {v : V} : G e.input q v → Takes G e (some q) v
  | default {v : V} : e.default = some v → Takes G e none v
  | null {v : V} : e.default = none → e.input.shape.isOptional → G e.input .null v →
      Takes G e none v

/-- The four rules that `Gives` has for an entry. -/
theorem Entry.takes_iff {G : InputType V n → Payload → V → Prop} {e : Entry V n}
    {value : Option Payload} {v : V} :
    e.Takes G value v ↔ (∀ q, value = some q → G e.input q v) ∧
      (∀ d, value = none → e.default = some d → v = d) ∧
      (value = none → e.default = none → e.input.shape.isOptional) ∧
      (value = none → e.default = none → G e.input .null v) := by
  constructor
  · intro h
    cases h with
    | present h => exact ⟨fun q hq => by cases hq; exact h, by simp, by simp, by simp⟩
    | default hdefault => simp [hdefault]
    | null hdefault hopt h => simp [hdefault, hopt, h]
  · rintro ⟨hpresent, hdefault, hopt, hnull⟩
    cases value with
    | some q => exact .present (hpresent q rfl)
    | none =>
      cases hd : e.default with
      | some d => exact .default (by rw [hd, hdefault d rfl hd])
      | none => exact .null hd (hopt rfl hd) (hnull rfl hd)

theorem Entry.Takes.mono {G G' : InputType V n → Payload → V → Prop} {e : Entry V n}
    {value : Option Payload} {v : V} (h : e.Takes G value v)
    (hG : ∀ q, G e.input q v → G' e.input q v) : e.Takes G' value v := by
  cases h with
  | present h => exact .present (hG _ h)
  | default hdefault => exact .default hdefault
  | null hdefault hopt h => exact .null hdefault hopt (hG _ h)

theorem Entry.read_eq_ok_iff {owner : String} {e : Entry V n} {value : Option Payload} {v : V} :
    e.read u owner value = .ok v ↔ e.Takes (fun t q a => t.decodeWith u q = .ok a) value v := by
  constructor
  · intro h
    unfold read at h
    split at h
    · exact .present (Outcome.mapError_eq_ok h)
    · rename_i a hdefault
      cases h
      exact .default hdefault
    · rename_i hdefault
      split at h
      · exact .null hdefault ‹_› (Outcome.mapError_eq_ok h)
      · cases h
  · intro h
    cases h with
    | present h => simp only [read, h, Outcome.mapError]
    | default hdefault => simp only [read, hdefault]
    | null hdefault hopt h => simp only [read, hdefault, hopt, h, if_true, Outcome.mapError]

theorem Slots.undeclared?_eq_none_iff {slots : Slots V n} {fields : Keyed Payload} :
    undeclared? slots.declarations fields = none ↔
      ∀ key ∈ fields.keys, ∃ e ∈ slots.entries, e.name = key := by
  simp [QueryTypes.undeclared?_eq_none_iff, declarations_eq, Entry.declaration]

theorem InputType.decodeWith_object_iff {name : String} {slots : Slots V n} {p : Payload} {a : V} :
    (InputType.object name slots).decodeWith u p = .ok a ↔ ∃ fields, p.Keys fields ∧
      (∀ key ∈ fields.keys, ∃ e ∈ slots.entries, e.name = key) ∧ ∃ values,
        List.Forall₂ (fun e v => e.Takes (fun t q b => t.decodeWith u q = .ok b)
          (fields.lookup e.name) v) slots.entries values ∧ slots.assemble values = some a := by
  have hread (fields : Keyed Payload) :
      slots.read u name (positional slots.declarations fields) = .ok a ↔ ∃ values,
        List.Forall₂ (fun e v => e.Takes (fun t q b => t.decodeWith u q = .ok b)
          (fields.lookup e.name) v) slots.entries values ∧ slots.assemble values = some a := by
    rw [← Outcome.some_map_eq_ok_iff, slots.read_positional_eq u name fields]
    simp only [Outcome.map_eq_ok_iff, Outcome.mapM_eq_ok_iff, Entry.read_eq_ok_iff]
  simp only [decodeWith, ← Payload.fields?_eq_some_iff]
  cases p.fields? with
  | none => simp
  | some fields =>
    simp only [Outcome.bind_eq_ok_iff, Option.some.injEq, exists_eq_left',
      ← Slots.undeclared?_eq_none_iff]
    cases undeclared? slots.declarations fields with
    | none => simpa using hread fields
    | some key => simp

end Reading

/-! ## Values of objects and lists -/

namespace InputType
variable {table : InputTable V n} {p : Payload} {a : V}

theorem gives_object_iff {name : String} {slots : Slots V n} :
    Gives table (.object name slots) p a ↔ ∃ fields, p.Keys fields ∧
      (∀ key ∈ fields.keys, ∃ e ∈ slots.entries, e.name = key) ∧ ∃ values,
        List.Forall₂ (fun e v => e.Takes (Gives table) (fields.lookup e.name) v) slots.entries
          values ∧ slots.assemble values = some a := by
  constructor
  · intro h
    cases h with
    | object hfields hkeys hlen hpresent hdefault hopt hnull hassemble =>
      refine ⟨_, hfields, hkeys, _, List.forall₂_iff_zip.2 ⟨hlen, fun {e v} hev => ?_⟩, hassemble⟩
      exact Entry.takes_iff.2 ⟨fun q hq => hpresent e v q hev hq, fun d hn hd =>
        hdefault e v d hev hn hd, hopt e v hev, hnull e v hev⟩
  · rintro ⟨fields, hfields, hkeys, values, hvalues, hassemble⟩
    obtain ⟨hlen, hzip⟩ := List.forall₂_iff_zip.1 hvalues
    have htakes (e : Entry V n) (v : V) (hev : (e, v) ∈ slots.entries.zip values) :=
      Entry.takes_iff.1 (hzip hev)
    exact .object hfields hkeys hlen (fun e v q hev hq => (htakes e v hev).1 q hq)
      (fun e v d hev hn hd => (htakes e v hev).2.1 d hn hd)
      (fun e v hev hn hd => (htakes e v hev).2.2.1 hn hd)
      (fun e v hev hn hd => (htakes e v hev).2.2.2 hn hd) hassemble

theorem gives_list_iff {item : InputType V n} {assemble : List V → V} :
    Gives table (.list item assemble) p a ↔ ∃ elements values, p.Lists elements ∧
      List.Forall₂ (Gives table item) elements values ∧ assemble values = a := by
  constructor
  · intro h
    cases h with
    | list helements hlen hzip =>
      exact ⟨_, _, helements, List.forall₂_iff_zip.2 ⟨hlen, fun {q v} => hzip q v⟩, rfl⟩
  · rintro ⟨elements, values, helements, hvalues, rfl⟩
    obtain ⟨hlen, hzip⟩ := List.forall₂_iff_zip.1 hvalues
    exact .list helements hlen fun q v => hzip

/-! ## Decoding gives the value -/

/-- What decodes through references that give what their definitions give is given. -/
theorem gives_of_decodeWith {u : Unfolding V n}
    (hu : ∀ t q v, u t q = .ok v → Gives table (table t) q v) {input : InputType V n}
    (h : input.decodeWith u p = .ok a) : input.Gives table p a := by
  induction input using InputType.induction generalizing p a with
  | scalar name read =>
    simp only [decodeWith] at h
    split at h
    · cases h
    · rename_i j hj
      split at h
      · rename_i b hb
        cases h
        exact .scalar hj hb
      · cases h
    · cases h
  | enumeration name pairs =>
    simp only [decodeWith] at h
    split at h
    · rename_i token htoken
      split at h
      · rename_i b hb
        cases h
        exact .enumeration (Payload.token?_eq_some_iff.1 htoken) hb
      · cases h
    · cases h
  | object name slots ih =>
    obtain ⟨fields, hfields, hkeys, values, hvalues, hassemble⟩ := decodeWith_object_iff.1 h
    refine gives_object_iff.2 ⟨fields, hfields, hkeys, values, ?_, hassemble⟩
    exact ((List.forall₂_and_left _ _).2 ⟨ih, hvalues⟩).imp fun e v hev =>
      hev.2.mono fun q hq => hev.1 hq
  | list item assemble ih =>
    simp only [decodeWith] at h
    split at h
    · rename_i elements helements
      obtain ⟨values, hvalues, rfl⟩ := Outcome.map_eq_ok h
      refine gives_list_iff.2 ⟨elements, values, Payload.elements?_eq_some_iff.1 helements, ?_, rfl⟩
      exact (Outcome.mapM_eq_ok_iff.1 hvalues).imp fun q v hq => ih hq
    · cases h
  | optional inner assemble ih =>
    simp only [decodeWith] at h
    split at h
    · rename_i hnull
      cases h
      rw [p.eq_null_of_isNull hnull]
      exact .null inner assemble
    · rename_i hnull
      obtain ⟨b, hb, rfl⟩ := Outcome.map_eq_ok h
      exact .present (by simpa using hnull) (ih hb)
  | map f inner ih =>
    obtain ⟨b, hb, rfl⟩ := Outcome.map_eq_ok h
    exact .map (ih hb)
  | reference name target => exact .reference (hu target p a h)

theorem gives_of_unfold {k : Nat} {t : Fin n} (h : table.unfold k t p = .ok a) :
    Gives table (table t) p a := by
  induction k generalizing t p a with
  | zero => cases h
  | succ k ih => exact gives_of_decodeWith (fun t q v hv => ih hv) h

/-- A payload decodes as what it stands for. -/
theorem decode_of_gives {input : InputType V n} (h : input.Gives table p a) :
    input.decode table p = .ok a := by
  -- on the derivation: it goes through a reference once, where unfoldings would be counted
  rw [decode_eq]
  induction h with
  | @scalar name read j a hj hread =>
    cases j with
    | null => exact absurd rfl hj
    | _ => simp only [decodeWith, hread]
  | enumeration htoken ha => simp only [decodeWith, Payload.token?_eq_some_iff.2 htoken, ha]
  | object hfields hkeys hlen _ hdefault hopt _ hassemble hpresent hnull =>
    refine decodeWith_object_iff.2 ⟨_, hfields, hkeys, _, ?_, hassemble⟩
    refine List.forall₂_iff_zip.2 ⟨hlen, fun {e v} hev => Entry.takes_iff.2 ⟨?_, ?_, ?_, ?_⟩⟩
    · exact fun q => hpresent e v q hev
    · exact fun d => hdefault e v d hev
    · exact hopt e v hev
    · exact hnull e v hev
  | list helements hlen _ hzip =>
    have hitems := Outcome.mapM_eq_ok_iff.2 (List.forall₂_iff_zip.2 ⟨hlen, fun {q v} => hzip q v⟩)
    simp only [decodeWith, Payload.elements?_eq_some_iff.2 helements, hitems, Outcome.map_ok]
  | null inner assemble => simp only [decodeWith]; rfl
  | present hnull _ ih => simp [decodeWith, hnull, ih]
  | map _ ih => simp only [decodeWith, ih, Outcome.map_ok]
  | reference _ ih =>
    simp only [decodeWith]
    rw [decode_eq]
    exact ih

theorem decode_eq_ok_iff {input : InputType V n} :
    input.decode table p = .ok a ↔ input.Gives table p a :=
  ⟨gives_of_decodeWith fun _ _ _ => gives_of_unfold, decode_of_gives⟩

/-! ## Values of the grammar -/

theorem exists_gives_null {input : InputType V n} (h : input.shape.isOptional) :
    ∃ a, input.Gives table .null a := by
  induction input using InputType.induction with
  | optional inner assemble => exact ⟨_, .null inner assemble⟩
  | map f inner ih =>
    obtain ⟨a, ha⟩ := ih (by simpa only [shape] using h)
    exact ⟨f a, .map ha⟩
  | _ => simp [shape, InputShape.isOptional] at h

/-- Exactly the payloads of the grammar stand for a value. -/
theorem conforms_iff {input : InputType V n} :
    input.Conforms table p ↔ ∃ a, input.Gives table p a := by
  constructor
  · intro h
    induction h with
    | scalar hj hread => exact ⟨_, .scalar hj hread⟩
    | enumeration htoken hmem =>
      obtain ⟨a, ha⟩ := Keyed.exists_lookup_ofPairs.2 hmem
      exact ⟨a, .enumeration htoken ha⟩
    | @object name slots p fields hfields hkeys _ habsent ih =>
      have hentry : ∀ e ∈ slots.entries, ∃ v, e.Takes (Gives table) (fields.lookup e.name) v := by
        intro e he
        cases hvalue : fields.lookup e.name with
        | some q =>
          obtain ⟨v, hv⟩ := ih e he q hvalue
          exact ⟨v, .present hv⟩
        | none =>
          cases hdefault : e.default with
          | some d => exact ⟨d, .default hdefault⟩
          | none =>
            have hopt : e.input.shape.isOptional := by simpa [hdefault] using habsent e he hvalue
            obtain ⟨v, hv⟩ := exists_gives_null hopt
            exact ⟨v, .null hdefault hopt hv⟩
      obtain ⟨values, hvalues⟩ := Aligned.exists_forall₂ hentry
      obtain ⟨a, ha⟩ := slots.exists_assemble (hvalues.length_eq.symm.trans slots.length_entries)
      exact ⟨a, gives_object_iff.2 ⟨fields, hfields, hkeys, values, hvalues, ha⟩⟩
    | @list item assemble p elements helements _ ih =>
      obtain ⟨values, hvalues⟩ := Aligned.exists_forall₂ ih
      exact ⟨_, gives_list_iff.2 ⟨elements, values, helements, hvalues, rfl⟩⟩
    | null inner assemble => exact ⟨_, .null inner assemble⟩
    | @present inner assemble p _ ih =>
      obtain ⟨a, ha⟩ := ih
      -- what conforms inside may be null too, and then the absent value is given
      cases hnull : p.isNull with
      | true => exact p.eq_null_of_isNull hnull ▸ ⟨_, .null inner assemble⟩
      | false => exact ⟨_, .present hnull ha⟩
    | map _ ih =>
      obtain ⟨a, ha⟩ := ih
      exact ⟨_, .map ha⟩
    | reference _ ih =>
      obtain ⟨a, ha⟩ := ih
      exact ⟨a, .reference ha⟩
  · rintro ⟨a, h⟩
    induction h with
    | scalar hj hread => exact .scalar hj hread
    | enumeration htoken ha => exact .enumeration htoken (Keyed.exists_lookup_ofPairs.1 ⟨_, ha⟩)
    | @object name slots p fields values a hfields hkeys hlen _ _ hopt _ _ hpresent hnull =>
      refine .object hfields hkeys (fun e he q hq => ?_) fun e he hnone => ?_
      · obtain ⟨v, hev⟩ := Aligned.exists_mem_zip hlen he
        exact hpresent e v q hev hq
      · obtain ⟨v, hev⟩ := Aligned.exists_mem_zip hlen he
        cases hdefault : e.default with
        | some d => exact .inl rfl
        | none => exact .inr (hopt e v hev hnone hdefault)
    | @list item assemble p elements values helements hlen _ ih =>
      refine .list helements fun q hq => ?_
      obtain ⟨v, hqv⟩ := Aligned.exists_mem_zip hlen hq
      exact ih q v hqv
    | null inner assemble => exact .null inner assemble
    | present _ _ ih => exact .present ih
    | map _ ih => exact .map ih
    | reference _ ih => exact .reference ih

/-- Decoding comes to a value exactly for the payloads of the grammar that the input type declares,
through any number of references, and then to the value that the payload stands for: put together
slot by slot and item by item, with the default of an entry where its payload is absent, and not
where it is null. -/
theorem decode_accepts_grammar (table : InputTable V n) (input : InputType V n) (p : Payload) :
    ((∃ a, input.decode table p = .ok a) ↔ input.Conforms table p) ∧
      ∀ a, input.decode table p = .ok a ↔ input.Gives table p a :=
  ⟨by simp only [decode_eq_ok_iff, conforms_iff], fun _ => decode_eq_ok_iff⟩

end InputType

/-! ## Slots by position -/

section Positional
variable {table : InputTable V n} {slots : Slots V n} {owner : String}
  {values : List (Option Payload)} {a : V}

theorem depth_le_deepest {q : Payload} (h : some q ∈ values) : q.depth ≤ deepest values := by
  induction values with
  | nil => cases h
  | cons value rest ih =>
    change q.depth ≤ max ((value.map Payload.depth).getD 0) (deepest rest)
    rcases List.mem_cons.1 h with rfl | h
    · exact Nat.le_max_left _ _
    · exact (ih h).trans (Nat.le_max_right _ _)

namespace Entry
variable {e : Entry V n} {value : Option Payload} {v : V}

/-- Reading an entry decodes its payload, or null, and nothing else. -/
theorem read_congr {u u' : Unfolding V n}
    (h : ∀ p, value = some p ∨ p = .null → e.input.decodeWith u p = e.input.decodeWith u' p) :
    e.read u owner value = e.read u' owner value := by
  cases value with
  | some p => simp only [read, h p (.inl rfl)]
  | none =>
    unfold read
    rw [h .null (.inr rfl)]
    cases e.default <;> rfl

/-- Decodes the payload of one entry, references through the table. -/
def decode (table : InputTable V n) (owner : String) (e : Entry V n) (value : Option Payload) :
    Outcome DecodeError V :=
  e.read (fun t => (table t).decode table) owner value

theorem decode_eq_ok_iff :
    e.decode table owner value = .ok v ↔ e.Takes (InputType.Gives table) value v := by
  simp only [decode, read_eq_ok_iff, ← InputType.decode_eq, InputType.decode_eq_ok_iff]

end Entry

namespace Slots

/-- Decoding a tree is decoding its row, then assembling the values. -/
theorem decode_eq_row (hlen : values.length = slots.size) :
    some <$> slots.decode table owner values =
      slots.assemble <$> (slots.entries.zip values).mapM fun x => x.1.decode table owner x.2 := by
  rw [decode, if_pos hlen, read_eq _ owner slots values hlen]
  refine congrArg _ (Outcome.mapM_congr fun x hx => Entry.read_congr fun q hq => ?_)
  have hdepth : q.depth ≤ deepest values := by
    rcases hq with hq | rfl
    · exact depth_le_deepest (hq ▸ (List.of_mem_zip hx).2)
    · exact Nat.zero_le _
  have hk : unfoldings n q.depth ≤ unfoldings n (deepest values) :=
    Nat.mul_le_mul_left n (Nat.succ_le_succ hdepth)
  rw [InputType.decodeWith_unfold hk, InputType.decode_eq]

/-- Positional payloads come to a value exactly if there is one for each slot and every entry takes a
value from its own; these values are put together. -/
theorem decode_eq_ok_iff :
    slots.decode table owner values = .ok a ↔ values.length = slots.size ∧ ∃ vs,
      List.Forall₂ (fun x v => x.1.Takes (InputType.Gives table) x.2 v) (slots.entries.zip values)
        vs ∧ slots.assemble vs = some a := by
  by_cases hlen : values.length = slots.size
  · rw [and_iff_right hlen, ← Outcome.some_map_eq_ok_iff, decode_eq_row hlen]
    simp only [Outcome.map_eq_ok_iff, Outcome.mapM_eq_ok_iff, Entry.decode_eq_ok_iff]
  · simp [decode, hlen]

end Slots

end Positional
end QueryTypes
