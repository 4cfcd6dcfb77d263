import Mathlib.Data.List.Nodup
import QueryTypes.Schema.Rules

/-!
# Well-formed definitions

What the rules of a schema ask of one definition, as a property of the definition: each lemma reads
the success of one check as the rule that it decides.
-/

namespace QueryTypes

variable {S : Signature} {c : S.Context} {D : Definitions S}

/-! ## The rules -/

/-- Fields, arguments or values have usable names, each its own. -/
structure WellFormedNames {α : Type} (name : α → String) (parts : List α) : Prop where
  names : ∀ a ∈ parts, isName (name a)
  distinct : (parts.map name).Nodup

/-- There are values, and they and the enum are named well. -/
structure WellFormedEnum (name : String) (values : List String) : Prop
    extends WellFormedNames id values where
  name : isName name
  nonempty : values ≠ []

/-- There are fields, and they and their arguments are named well. -/
structure WellFormedFields (fields : List (FieldShape S c)) : Prop
    extends WellFormedNames FieldShape.name fields where
  nonempty : fields ≠ []
  arguments : ∀ f ∈ fields, WellFormedNames Slot.name f.arguments

/-- There are members, and no two have one name. -/
structure WellFormedMembers (members : List (ObjectShape S c)) : Prop where
  nonempty : members ≠ []
  distinct : (members.map ObjectShape.name).Nodup

/-- The member's field of the same name prints like the field. -/
def ObjectShape.Implements (D : Definitions S) (member : ObjectShape S c) (field : FieldShape S c) :
    Prop :=
  ∃ declared, member.field? field.name = some declared ∧
    (declared.declaration D).text = (field.declaration D).text

/-- An output definition keeps the rules of its kind. -/
def OutputShape.WellFormed (D : Definitions S) : OutputShape S c → Prop
  | .scalar name => isName name
  | .enumeration name values => WellFormedEnum name values
  | .list item => item.WellFormed D
  | .optional inner => inner.WellFormed D
  | .object shape => isName shape.name ∧ WellFormedFields shape.fields
  | .interface name fields members =>
    isName name ∧ WellFormedFields fields ∧ WellFormedMembers members ∧
      ∀ m ∈ members, ∀ f ∈ fields, m.Implements D f
  | .union name members => isName name ∧ WellFormedMembers members

/-- An input definition keeps the rules of its kind. -/
def InputShape.WellFormed {n : Nat} : InputShape n → Prop
  | .scalar name => isName name
  | .enumeration name values => WellFormedEnum name values
  | .object name fields => isName name ∧ fields ≠ [] ∧ WellFormedNames Slot.name fields
  | .list item => item.WellFormed
  | .optional inner => inner.WellFormed
  | .reference _ _ => True

/-! ## Checks one after the other -/

theorem check_bind_eq_ok_iff {ε β : Type} {x : Except ε Unit} {f : Unit → Except ε β} {b : β} :
    (x >>= f) = .ok b ↔ x = .ok () ∧ f () = .ok b := by
  cases x with
  | error e => simp [bind, Except.bind]
  | ok a => simp [bind, Except.bind]

theorem requireName_eq_ok_iff {name : String} {kind : NameKind} :
    requireName name kind = .ok () ↔ isName name := by
  unfold requireName
  split <;> simp_all

theorem requireSome_eq_ok_iff {α : Type} {typeName : String} {part : Part} {parts : List α} :
    requireSome typeName part parts = .ok () ↔ parts ≠ [] := by
  unfold requireSome
  split <;> simp_all

theorem requireEach_eq_ok_iff {α : Type} {check : α → Except SchemaError Unit} {as : List α} :
    requireEach check as = .ok () ↔ ∀ a ∈ as, check a = .ok () := by
  induction as with
  | nil => simp [requireEach]
  | cons a as ih => rw [requireEach, check_bind_eq_ok_iff, ih, List.forall_mem_cons]

theorem requireDistinct_eq_ok_iff {α : Type} {name : α → String}
    {check next : α → Except SchemaError Unit} {duplicate : String → SchemaError}
    {seen : List String} {as : List α} :
    requireDistinct name check duplicate next seen as = .ok () ↔
      (∀ a ∈ as, check a = .ok ()) ∧ (∀ a ∈ as, next a = .ok ()) ∧ (as.map name).Nodup ∧
        ∀ a ∈ as, name a ∉ seen := by
  induction as generalizing seen with
  | nil => simp [requireDistinct]
  | cons a as ih =>
    have hstep : requireDistinct name check duplicate next seen (a :: as) = .ok () ↔
        check a = .ok () ∧ name a ∉ seen ∧ next a = .ok () ∧
          requireDistinct name check duplicate next (name a :: seen) as = .ok () := by
      rw [requireDistinct, check_bind_eq_ok_iff]
      split
      · simp [*, bind, Except.bind]
      · simp only [*, not_false_eq_true, true_and, check_bind_eq_ok_iff]
    -- the names already seen grow along the list, so each later name is new to all before it
    have hfresh : (∀ b ∈ as, name b ∉ name a :: seen) ↔
        name a ∉ as.map name ∧ ∀ b ∈ as, name b ∉ seen := by
      simp only [List.mem_cons, not_or, List.mem_map, not_exists, not_and, forall_and]
    rw [hstep, ih, hfresh, List.map_cons, List.nodup_cons]
    simp only [List.forall_mem_cons]
    tauto

theorem requireDistinct_nil_eq_ok_iff {α : Type} {name : α → String} {kind : NameKind}
    {next : α → Except SchemaError Unit} {duplicate : String → SchemaError} {as : List α} :
    requireDistinct name (fun a => requireName (name a) kind) duplicate next [] as = .ok () ↔
      WellFormedNames name as ∧ ∀ a ∈ as, next a = .ok () := by
  simp only [requireDistinct_eq_ok_iff, requireName_eq_ok_iff, List.not_mem_nil, not_false_eq_true,
    implies_true, and_true]
  exact ⟨fun ⟨hnames, hnext, hdistinct⟩ => ⟨⟨hnames, hdistinct⟩, hnext⟩,
    fun ⟨⟨hnames, hdistinct⟩, hnext⟩ => ⟨hnames, hnext, hdistinct⟩⟩

/-! ## Failing checks -/

theorem requireDistinct_eq_error {α : Type} {name : α → String}
    {check next : α → Except SchemaError Unit} {duplicate : String → SchemaError}
    {seen : List String} {as : List α} {e : SchemaError} (hdistinct : (as.map name).Nodup)
    (hseen : ∀ a ∈ as, name a ∉ seen)
    (h : requireDistinct name check duplicate next seen as = .error e) :
    ∃ a ∈ as, check a = .error e ∨ next a = .error e := by
  induction as generalizing seen with
  | nil => cases h
  | cons a as ih =>
    rw [List.map_cons, List.nodup_cons] at hdistinct
    have hnew : name a ∉ seen := hseen a List.mem_cons_self
    have hrest : ∀ b ∈ as, name b ∉ name a :: seen := by
      intro b hb hmem
      rcases List.mem_cons.1 hmem with heq | hmem
      · exact hdistinct.1 (heq ▸ List.mem_map_of_mem hb)
      · exact hseen b (List.mem_cons_of_mem _ hb) hmem
    simp only [requireDistinct, if_neg hnew] at h
    cases hcheck : check a with
    | error e' =>
      rw [hcheck] at h
      cases h
      exact ⟨a, List.mem_cons_self, .inl hcheck⟩
    | ok _ =>
      cases hnext : next a with
      | error e' =>
        rw [hcheck, hnext] at h
        cases h
        exact ⟨a, List.mem_cons_self, .inr hnext⟩
      | ok _ =>
        rw [hcheck, hnext] at h
        obtain ⟨b, hb, hfails⟩ := ih hdistinct.2 hrest h
        exact ⟨b, List.mem_cons_of_mem _ hb, hfails⟩

theorem requireName_eq_error {name : String} {kind : NameKind} {e : SchemaError}
    (h : requireName name kind = .error e) : e = .invalidName name kind := by
  unfold requireName at h
  split at h
  · cases h
  · cases h
    rfl

/-! ## Definitions -/

theorem checkEnum_eq_ok_iff {name : String} {values : List String} :
    checkEnum name values = .ok () ↔ WellFormedEnum name values := by
  have hvalues : requireDistinct id (requireName · .enumValue) (.duplicateEnumValue · name)
      (fun _ => .ok ()) [] values = .ok () ↔ WellFormedNames id values :=
    requireDistinct_nil_eq_ok_iff.trans (and_iff_left fun _ _ => rfl)
  rw [checkEnum, check_bind_eq_ok_iff, check_bind_eq_ok_iff, requireName_eq_ok_iff,
    requireSome_eq_ok_iff, hvalues]
  exact ⟨fun ⟨hname, hnonempty, hvalues⟩ => ⟨hvalues, hname, hnonempty⟩,
    fun h => ⟨h.name, h.nonempty, h.toWellFormedNames⟩⟩

theorem checkArguments_eq_ok_iff {typeName field : String} {arguments : List S.Argument} :
    checkArguments typeName field arguments = .ok () ↔ WellFormedNames Slot.name arguments :=
  requireDistinct_nil_eq_ok_iff.trans (and_iff_left fun _ _ => rfl)

theorem checkFields_eq_ok_iff {typeName : String} {fields : List (FieldShape S c)} :
    checkFields typeName fields = .ok () ↔ WellFormedFields fields := by
  rw [checkFields, check_bind_eq_ok_iff, requireSome_eq_ok_iff, requireDistinct_nil_eq_ok_iff]
  simp only [checkArguments_eq_ok_iff]
  exact ⟨fun ⟨hnonempty, hnames, harguments⟩ => ⟨hnames, hnonempty, harguments⟩,
    fun h => ⟨h.nonempty, h.toWellFormedNames, h.arguments⟩⟩

theorem checkMembers_eq_ok_iff {typeName : String} {members : List (ObjectShape S c)} :
    checkMembers typeName members = .ok () ↔ WellFormedMembers members := by
  rw [checkMembers, check_bind_eq_ok_iff, requireSome_eq_ok_iff, requireDistinct_eq_ok_iff]
  simp only [implies_true, true_and, List.not_mem_nil, not_false_eq_true, and_true]
  exact ⟨fun ⟨hnonempty, hdistinct⟩ => ⟨hnonempty, hdistinct⟩,
    fun h => ⟨h.nonempty, h.distinct⟩⟩

theorem checkImplements_eq_ok_iff {interface : String} {member : ObjectShape S c}
    {field : FieldShape S c} :
    checkImplements D interface member field = .ok () ↔ member.Implements D field := by
  unfold checkImplements ObjectShape.Implements
  cases member.field? field.name with
  | none => simp
  | some declared =>
    simp only [Option.some.injEq, exists_eq_left', @eq_comm _ (declared.declaration D).text]
    split <;> simp_all

/-- The rules of an output definition succeed exactly if it is well formed. -/
theorem checkOutput_eq_ok_iff {s : OutputShape S c} :
    checkOutput D s = .ok () ↔ s.WellFormed D := by
  induction s with
  | scalar name => exact requireName_eq_ok_iff
  | enumeration name values => exact checkEnum_eq_ok_iff
  | list item ih => exact ih
  | optional inner ih => exact ih
  | object shape =>
    rw [checkOutput, check_bind_eq_ok_iff, requireName_eq_ok_iff, checkFields_eq_ok_iff]
    rfl
  | interface name fields members =>
    simp only [checkOutput, check_bind_eq_ok_iff, requireName_eq_ok_iff, checkFields_eq_ok_iff,
      checkMembers_eq_ok_iff, requireEach_eq_ok_iff, checkImplements_eq_ok_iff]
    rfl
  | union name members =>
    rw [checkOutput, check_bind_eq_ok_iff, requireName_eq_ok_iff, checkMembers_eq_ok_iff]
    rfl

theorem checkInput_eq_ok_iff {n : Nat} {s : InputShape n} :
    checkInput s = .ok () ↔ s.WellFormed := by
  match s with
  | .scalar name => exact requireName_eq_ok_iff
  | .enumeration name values => exact checkEnum_eq_ok_iff
  | .object name fields =>
    have hfields : requireDistinct Slot.name (fun f => requireName f.name .field)
        (.duplicateField · name) (fun _ => .ok ()) [] fields = .ok () ↔
          WellFormedNames Slot.name fields :=
      requireDistinct_nil_eq_ok_iff.trans (and_iff_left fun _ _ => rfl)
    rw [checkInput, check_bind_eq_ok_iff, check_bind_eq_ok_iff, requireName_eq_ok_iff,
      requireSome_eq_ok_iff, hfields]
    rfl
  | .list item => exact checkInput_eq_ok_iff (s := item)
  | .optional inner => exact checkInput_eq_ok_iff (s := inner)
  | .reference _ _ => exact iff_of_true rfl trivial

/-- The rules of a set of definitions succeed exactly if each is well formed. -/
theorem checkDefinitions_eq_ok_iff {outputs : Keyed (OutputShape S c)}
    {inputs : Keyed (InputShape S.inputs)} :
    checkDefinitions D outputs inputs = .ok () ↔
      (∀ o ∈ outputs, o.2.WellFormed D) ∧ ∀ i ∈ inputs, i.2.WellFormed := by
  simp only [checkDefinitions, check_bind_eq_ok_iff, requireEach_eq_ok_iff, checkOutput_eq_ok_iff,
    checkInput_eq_ok_iff]

end QueryTypes
