import QueryTypes.Proofs.Rules.WellFormed

/-!
# The first violation

The rules of a schema as requirements in a row: outputs before inputs, and inside a definition its
name, whether it is empty, and its declarations from left to right. A requirement says what has to
hold at one place and which error reports that it does not; it knows nothing of the checks. Checking
definitions succeeds exactly if all of them are well formed, and otherwise reports the first
requirement that does not hold, however many others do not hold either.
-/

namespace QueryTypes

variable {S : Signature} {c : S.Context} {D : Definitions S}

/-! ## Requirements in a row -/

/-- What has to hold at one place, and the error that reports its violation. -/
structure Requirement where
  Holds : Prop
  error : SchemaError

/-- The error reports the first requirement that does not hold. -/
inductive FirstViolation : List Requirement → SchemaError → Prop
  | here {r : Requirement} {rest : List Requirement} :
      ¬ r.Holds → FirstViolation (r :: rest) r.error
  | later {r : Requirement} {rest : List Requirement} {e : SchemaError} :
      r.Holds → FirstViolation rest e → FirstViolation (r :: rest) e

/-- What is required of each part, given the parts before it. -/
def inOrder {α : Type} (parts : List α) (rules : List α → α → List Requirement) :
    List Requirement :=
  parts.zipIdx.flatMap fun x => rules (parts.take x.2) x.1

/-- A check succeeds if all requirements hold, and reports the first violation if one does not. -/
def Decides (rules : List Requirement) : Except SchemaError Unit → Prop
  | .ok _ => ∀ r ∈ rules, r.Holds
  | .error e => FirstViolation rules e

namespace FirstViolation
variable {rules more : List Requirement} {e e' : SchemaError}

theorem append_right (h : FirstViolation rules e) : FirstViolation (rules ++ more) e := by
  induction h with
  | here hr => exact .here hr
  | later hr _ ih => exact .later hr ih

theorem append_left (hrules : ∀ r ∈ rules, r.Holds) (h : FirstViolation more e) :
    FirstViolation (rules ++ more) e := by
  induction rules with
  | nil => exact h
  | cons r rules ih =>
    obtain ⟨hr, hrules⟩ := List.forall_mem_cons.1 hrules
    exact .later hr (ih hrules)

/-- There is one first violation only. -/
theorem unique (h : FirstViolation rules e) (h' : FirstViolation rules e') : e = e' := by
  induction h with
  | here hr =>
    cases h' with
    | here => rfl
    | later hr' _ => exact absurd hr' hr
  | later hr _ ih =>
    cases h' with
    | here hr' => exact absurd hr hr'
    | later _ h' => exact ih h'

theorem not_forall (h : FirstViolation rules e) : ¬ ∀ r ∈ rules, r.Holds := by
  intro hall
  induction h with
  | here hr => exact hr (hall _ List.mem_cons_self)
  | later _ _ ih => exact ih fun r hr => hall r (List.mem_cons_of_mem _ hr)

end FirstViolation

/-! ## Checks in a row -/

namespace Decides
variable {rules more : List Requirement} {x y : Except SchemaError Unit}

theorem eq_ok_iff (h : Decides rules x) : x = .ok () ↔ ∀ r ∈ rules, r.Holds := by
  cases x with
  | ok _ => exact ⟨fun _ => h, fun _ => rfl⟩
  | error e => exact ⟨nofun, fun hall => absurd hall (FirstViolation.not_forall h)⟩

theorem eq_error_iff (h : Decides rules x) {e : SchemaError} :
    x = .error e ↔ FirstViolation rules e := by
  cases x with
  | ok _ => exact ⟨nofun, fun he => absurd h he.not_forall⟩
  | error e' =>
    constructor
    · rintro ⟨⟩
      exact h
    · intro he
      rw [FirstViolation.unique h he]

theorem nil : Decides [] (.ok ()) := by
  intro r hr
  cases hr

/-- The second check runs if the first one finds nothing. -/
theorem bind (hx : Decides rules x) (hy : Decides more y) :
    Decides (rules ++ more) (x >>= fun _ => y) := by
  cases x with
  | error e => exact FirstViolation.append_right hx
  | ok _ =>
    cases y with
    | error e => exact FirstViolation.append_left hx hy
    | ok _ => exact List.forall_mem_append.2 ⟨hx, hy⟩

/-- One condition that is tested. -/
theorem ite (p : Prop) [Decidable p] (e : SchemaError) :
    Decides [⟨p, e⟩] (if p then .ok () else .error e) := by
  by_cases hp : p
  · rw [if_pos hp]
    intro r hr
    rw [List.mem_singleton.1 hr]
    exact hp
  · rw [if_neg hp]
    exact .here hp

theorem requireEach {α : Type} {check : α → Except SchemaError Unit}
    {rules : α → List Requirement} (h : ∀ a, Decides (rules a) (check a)) (as : List α) :
    Decides (as.flatMap rules) (QueryTypes.requireEach check as) := by
  induction as with
  | nil => exact nil
  | cons a as ih => exact (h a).bind ih

/-- Names that are new at each part are new in the order of the parts. -/
theorem requireDistinct {α : Type} (name : α → String) (duplicate : String → SchemaError)
    {check next : α → Except SchemaError Unit} {own following : α → List Requirement}
    (hcheck : ∀ a, Decides (own a) (check a)) (hnext : ∀ a, Decides (following a) (next a))
    (parts : List α) :
    Decides
      (inOrder parts fun before a =>
        own a ++ (⟨name a ∉ before.map name, duplicate (name a)⟩ :: following a))
      (QueryTypes.requireDistinct name check duplicate next [] parts) := by
  let rules (before : List α) (a : α) : List Requirement :=
    own a ++ (⟨name a ∉ before.map name, duplicate (name a)⟩ :: following a)
  -- on what is left of the parts; the names seen are those of the parts before
  suffices h : ∀ (rest before : List α) (seen : List String),
      (∀ key, key ∈ seen ↔ key ∈ before.map name) →
      Decides ((rest.zipIdx before.length).flatMap fun x => rules ((before ++ rest).take x.2) x.1)
        (QueryTypes.requireDistinct name check duplicate next seen rest) from
    h parts [] [] (by simp)
  intro rest
  induction rest with
  | nil => exact fun _ _ _ => nil
  | cons a rest ih =>
    intro before seen hseen
    have hlater := ih (before ++ [a]) (name a :: seen) fun key => by
      simp [hseen key, or_comm]
    rw [List.length_append, List.length_singleton, List.append_assoc,
      List.singleton_append] at hlater
    have hnew : Decides [⟨name a ∉ before.map name, duplicate (name a)⟩]
        (if name a ∈ seen then .error (duplicate (name a)) else .ok ()) := by
      have hite := Decides.ite (name a ∉ before.map name) (duplicate (name a))
      simpa only [ite_not, hseen (name a)] using hite
    have hstep := (hcheck a).bind (hnew.bind ((hnext a).bind hlater))
    have hbefore : (before ++ a :: rest).take before.length = before := List.take_left
    rw [List.zipIdx_cons, List.flatMap_cons, QueryTypes.requireDistinct]
    simp only [rules, hbefore, List.append_assoc, List.cons_append, List.nil_append] at hstep ⊢
    by_cases hmem : name a ∈ seen
    · simp only [if_pos hmem] at hstep ⊢
      exact hstep
    · simp only [if_neg hmem] at hstep ⊢
      exact hstep

end Decides

/-! ## The requirements of definitions -/

/-- A name is usable in a query document. -/
def Requirement.ofName (name : String) (kind : NameKind) : Requirement :=
  ⟨isName name, .invalidName name kind⟩

/-- A definition has at least one of its parts. -/
def Requirement.ofParts {α : Type} (typeName : String) (part : Part) (parts : List α) :
    Requirement :=
  ⟨parts ≠ [], .emptyType typeName part⟩

/-- Each part is named well, differs in name from all parts before it, and keeps the rules that
follow on its name. -/
def namedRequirements {α : Type} (name : α → String) (kind : NameKind)
    (duplicate : String → SchemaError) (following : α → List Requirement) (parts : List α) :
    List Requirement :=
  inOrder parts fun before a =>
    .ofName (name a) kind :: ⟨name a ∉ before.map name, duplicate (name a)⟩ :: following a

/-- What is required of an enum. -/
def enumRequirements (name : String) (values : List String) : List Requirement :=
  .ofName name .enum :: .ofParts name .values values ::
    namedRequirements id .enumValue (.duplicateEnumValue · name) (fun _ => []) values

/-- What is required of the arguments of a field. -/
def argumentRequirements (typeName field : String) (arguments : List S.Argument) :
    List Requirement :=
  namedRequirements Slot.name .argument (.duplicateArgument · field typeName) (fun _ => []) arguments

/-- What is required of the fields of an object or interface. -/
def fieldRequirements (typeName : String) (fields : List (FieldShape S c)) : List Requirement :=
  .ofParts typeName .fields fields ::
    namedRequirements FieldShape.name .field (.duplicateField · typeName)
      (fun f => argumentRequirements typeName f.name f.arguments) fields

/-- What is required of the members of an interface or union. -/
def memberRequirements (typeName : String) (members : List (ObjectShape S c)) :
    List Requirement :=
  .ofParts typeName .members members ::
    inOrder members fun before m =>
      [⟨m.name ∉ before.map ObjectShape.name, .duplicateMember m.name typeName⟩]

/-- A member has a field of the name, and the first one of the name prints like the field. -/
def implementsRequirements (D : Definitions S) (interface : String) (member : ObjectShape S c)
    (field : FieldShape S c) : List Requirement :=
  ⟨(member.field? field.name).isSome, .missingInterfaceField interface member.name field.name⟩ ::
    (member.field? field.name).toList.map fun declared =>
      ⟨(field.declaration D).text = (declared.declaration D).text,
        .interfaceFieldMismatch interface member.name (field.declaration D).text
          (declared.declaration D).text⟩

/-- What is required of an output definition. -/
def OutputShape.requirements (D : Definitions S) : OutputShape S c → List Requirement
  | .scalar name => [.ofName name .scalar]
  | .enumeration name values => enumRequirements name values
  | .list item => item.requirements D
  | .optional inner => inner.requirements D
  | .object shape => .ofName shape.name .object :: fieldRequirements shape.name shape.fields
  | .interface name fields members =>
    .ofName name .interface :: (fieldRequirements name fields ++ (memberRequirements name members ++
      members.flatMap fun m => fields.flatMap (implementsRequirements D name m)))
  | .union name members => .ofName name .union :: memberRequirements name members

/-- What is required of an input definition. -/
def InputShape.requirements {n : Nat} : InputShape n → List Requirement
  | .scalar name => [.ofName name .scalar]
  | .enumeration name values => enumRequirements name values
  | .object name fields =>
    .ofName name .input :: .ofParts name .fields fields ::
      namedRequirements Slot.name .field (.duplicateField · name) (fun _ => []) fields
  | .list item => item.requirements
  | .optional inner => inner.requirements
  | .reference _ _ => []

/-- What is required of a set of definitions. -/
def requirements (D : Definitions S) (outputs : Keyed (OutputShape S c))
    (inputs : Keyed (InputShape S.inputs)) : List Requirement :=
  outputs.flatMap (fun o => o.2.requirements D) ++ inputs.flatMap fun i => i.2.requirements

/-! ## The checks of definitions -/

theorem decides_requireName (name : String) (kind : NameKind) :
    Decides [.ofName name kind] (requireName name kind) :=
  .ite _ _

theorem decides_requireSome {α : Type} (typeName : String) (part : Part) (parts : List α) :
    Decides [.ofParts typeName part parts] (requireSome typeName part parts) := by
  have hite := Decides.ite (parts ≠ []) (.emptyType typeName part)
  unfold Requirement.ofParts requireSome
  simpa only [ite_not, List.isEmpty_iff] using hite

theorem decides_requireNames {α : Type} {name : α → String} {kind : NameKind}
    {duplicate : String → SchemaError} {next : α → Except SchemaError Unit}
    {following : α → List Requirement} (hnext : ∀ a, Decides (following a) (next a))
    (parts : List α) :
    Decides (namedRequirements name kind duplicate following parts)
      (requireDistinct name (fun a => requireName (name a) kind) duplicate next [] parts) := by
  have hnames : ∀ a, Decides [.ofName (name a) kind] (requireName (name a) kind) :=
    fun a => decides_requireName (name a) kind
  have hparts := Decides.requireDistinct name duplicate hnames hnext parts
  exact hparts

theorem decides_checkEnum (name : String) (values : List String) :
    Decides (enumRequirements name values) (checkEnum name values) :=
  (decides_requireName name .enum).bind <|
    (decides_requireSome name .values values).bind <| decides_requireNames (fun _ => .nil) values

theorem decides_checkFields (typeName : String) (fields : List (FieldShape S c)) :
    Decides (fieldRequirements typeName fields) (checkFields typeName fields) := by
  have harguments : ∀ f : FieldShape S c, Decides (argumentRequirements typeName f.name f.arguments)
      (checkArguments typeName f.name f.arguments) := by
    intro f
    exact decides_requireNames (fun _ => .nil) f.arguments
  exact (decides_requireSome typeName .fields fields).bind (decides_requireNames harguments fields)

theorem decides_checkMembers (typeName : String) (members : List (ObjectShape S c)) :
    Decides (memberRequirements typeName members) (checkMembers typeName members) :=
  (decides_requireSome typeName .members members).bind <|
    .requireDistinct ObjectShape.name _ (fun _ => .nil) (fun _ => .nil) members

theorem decides_checkImplements (interface : String) (member : ObjectShape S c)
    (field : FieldShape S c) :
    Decides (implementsRequirements D interface member field)
      (checkImplements D interface member field) := by
  unfold implementsRequirements checkImplements
  cases hfield : member.field? field.name with
  | none => exact .here nofun
  | some declared =>
    have hhas : Decides [⟨(some declared).isSome,
        .missingInterfaceField interface member.name field.name⟩] (.ok ()) := by
      intro r hr
      rw [List.mem_singleton.1 hr]
      rfl
    exact hhas.bind (.ite _ _)

theorem decides_checkOutput (s : OutputShape S c) :
    Decides (s.requirements D) (checkOutput D s) := by
  induction s with
  | scalar name => exact decides_requireName name .scalar
  | enumeration name values => exact decides_checkEnum name values
  | list item ih => exact ih
  | optional inner ih => exact ih
  | object shape =>
    exact (decides_requireName shape.name .object).bind (decides_checkFields _ shape.fields)
  | interface name fields members =>
    have himplements : Decides
        (members.flatMap fun m => fields.flatMap (implementsRequirements D name m))
        (requireEach (fun m => requireEach (checkImplements D name m) fields) members) :=
      .requireEach (fun m => .requireEach (decides_checkImplements name m) fields) members
    exact (decides_requireName name .interface).bind <|
      (decides_checkFields name fields).bind <| (decides_checkMembers name members).bind himplements
  | union name members =>
    exact (decides_requireName name .union).bind (decides_checkMembers name members)

theorem decides_checkInput {n : Nat} (s : InputShape n) :
    Decides s.requirements (checkInput s) := by
  match s with
  | .scalar name => exact decides_requireName name .scalar
  | .enumeration name values => exact decides_checkEnum name values
  | .object name fields =>
    exact (decides_requireName name .input).bind <|
      (decides_requireSome name .fields fields).bind <| decides_requireNames (fun _ => .nil) fields
  | .list item => exact decides_checkInput item
  | .optional inner => exact decides_checkInput inner
  | .reference _ _ => exact .nil

theorem decides_checkDefinitions (outputs : Keyed (OutputShape S c))
    (inputs : Keyed (InputShape S.inputs)) :
    Decides (requirements D outputs inputs) (checkDefinitions D outputs inputs) := by
  have houtputs : Decides (outputs.flatMap fun o => o.2.requirements D)
      (requireEach (fun o => checkOutput D o.2) outputs) :=
    .requireEach (fun o => decides_checkOutput o.2) outputs
  have hinputs : Decides (inputs.flatMap fun i => i.2.requirements)
      (requireEach (fun i => checkInput i.2) inputs) :=
    .requireEach (fun i => decides_checkInput i.2) inputs
  exact houtputs.bind hinputs

/-- The requirements ask for well-formed definitions and nothing else. -/
theorem requirements_hold_iff {outputs : Keyed (OutputShape S c)}
    {inputs : Keyed (InputShape S.inputs)} :
    (∀ r ∈ requirements D outputs inputs, r.Holds) ↔
      (∀ o ∈ outputs, o.2.WellFormed D) ∧ ∀ i ∈ inputs, i.2.WellFormed := by
  rw [← (decides_checkDefinitions outputs inputs).eq_ok_iff, checkDefinitions_eq_ok_iff]

/-- Checking definitions succeeds exactly if all of them are well formed, and its error is the first
violation. -/
theorem checkDefinitions_reports_first (D : Definitions S) (outputs : Keyed (OutputShape S c))
    (inputs : Keyed (InputShape S.inputs)) :
    (checkDefinitions D outputs inputs = .ok () ↔
      (∀ o ∈ outputs, o.2.WellFormed D) ∧ ∀ i ∈ inputs, i.2.WellFormed) ∧
    ∀ e, checkDefinitions D outputs inputs = .error e ↔
      FirstViolation (requirements D outputs inputs) e := by
  have hdecides := decides_checkDefinitions (D := D) outputs inputs
  exact ⟨checkDefinitions_eq_ok_iff, fun e => hdecides.eq_error_iff⟩

end QueryTypes
