import QueryTypes.Proofs.Catalog.Steps

/-!
# Collecting converted definitions

Collecting the types of a converted query type goes step by step like collecting those of the query
type, with every catalog on the way converted, and the rules look at nothing that a conversion
changes. So the schema of the converted query type is the converted schema, and where there is none
the error is the same (`Schema.ofQuery_convert`).
-/

namespace QueryTypes

variable {S : Signature} {c d : S.Context} {D : Definitions S}

/-! ## Signatures and weights -/

theorem FieldShape.signatures_convert (n : S.Conversion c d) (fields : List (FieldShape S c)) :
    FieldShape.signatures D (fields.map (·.convert n)) = FieldShape.signatures D fields := by
  simp [signatures, Function.comp_def]

theorem ObjectShape.memberSignatures_convert (n : S.Conversion c d)
    (members : List (ObjectShape S c)) :
    ObjectShape.memberSignatures (members.map (·.convert n)) =
      ObjectShape.memberSignatures members := by
  rw [memberSignatures, List.map_map]
  rfl

namespace OutputShape

theorem signature_convert (n : S.Conversion c d) (s : OutputShape S c) :
    (s.convert n).signature D = s.signature D := by
  induction s with
  | scalar | enumeration => rfl
  | list _ ih | optional _ ih => exact ih
  | object shape => exact FieldShape.signatures_convert n shape.fields
  | interface name fields members =>
    simp only [convert, signature, FieldShape.signatures_convert,
      ObjectShape.memberSignatures_convert]
  | union name members => exact ObjectShape.memberSignatures_convert n members

theorem weight_convert (n : S.Conversion c d) (s : OutputShape S c) :
    (s.convert n).weight D = s.weight D := by
  rw [weight_eq, weight_eq, steps_convert, costs_convert]

theorem successors_convert (n : S.Conversion c d) (s : OutputShape S c) :
    (s.convert n).successors D = (s.successors D).map (convert n) := by
  rw [successors, successors, fields_convert, members_convert, List.map_append, List.map_map,
    List.map_map, List.map_map, List.map_map]
  rfl

end OutputShape

/-! ## One definition -/

/-- What had been entered by the time of a failure, in another context. -/
def Rejection.convert (n : S.Conversion c d) (r : Rejection S c) : Rejection S d :=
  ⟨r.reason, r.catalog.convert n⟩

namespace Catalog

@[simp] theorem inputs_convert (n : S.Conversion c d) (catalog : Catalog S c) :
    (catalog.convert n).inputs = catalog.inputs := rfl

theorem lookup_outputs_convert (n : S.Conversion c d) (catalog : Catalog S c) (name : String) :
    (catalog.convert n).outputs.lookup name =
      (catalog.outputs.lookup name).map (OutputShape.convert n) :=
  Keyed.lookup_map (OutputShape.convert n) catalog.outputs name

/-- Entering a converted output does to a converted catalog what entering the output does to the
catalog. -/
theorem addOutput_convert (n : S.Conversion c d) (catalog : Catalog S c) (s : OutputShape S c) :
    (catalog.convert n).addOutput D (s.convert n) =
      Option.map (Catalog.convert n) <$> catalog.addOutput D s := by
  simp only [addOutput, OutputShape.namedType_convert, lookup_outputs_convert, inputs_convert,
    OutputShape.kind_convert, OutputShape.signature_convert]
  cases catalog.outputs.lookup s.namedType with
  | some existing =>
    simp only [Option.map_some, OutputShape.kind_convert, OutputShape.signature_convert, map_bind]
    rfl
  | none =>
    have hentered : (catalog.convert n).outputs ++ [(s.namedType, s.convert n)] =
        (catalog.outputs ++ [(s.namedType, s)]).map fun o => (o.1, o.2.convert n) := by
      rw [List.map_append]
      rfl
    simp only [Option.map_none, hentered]
    cases catalog.inputs.lookup s.namedType with
    | none => rfl
    | some existing =>
      simp only [map_bind]
      rfl

theorem addInput_convert (n : S.Conversion c d) (catalog : Catalog S c) (s : InputShape S.inputs) :
    (catalog.convert n).addInput D s = Option.map (Catalog.convert n) <$> catalog.addInput D s := by
  simp only [addInput, lookup_outputs_convert, inputs_convert]
  cases catalog.inputs.lookup s.namedType with
  | some existing =>
    simp only [map_bind]
    rfl
  | none =>
    cases catalog.outputs.lookup s.namedType with
    | none => rfl
    | some existing =>
      simp only [Option.map_some, OutputShape.kind_convert, OutputShape.signature_convert,
        map_bind]
      rfl

/-! ## Collecting -/

/-- What collecting comes to, in another context. -/
def convertCollected (n : S.Conversion c d) (r : Outcome (Rejection S c) (Catalog S c)) :
    Outcome (Rejection S d) (Catalog S d) :=
  (Catalog.convert n <$> r).mapError (Rejection.convert n)

theorem convertCollected_bind (n : S.Conversion c d) {r : Outcome (Rejection S c) (Catalog S c)}
    {f : Catalog S c → Outcome (Rejection S c) (Catalog S c)}
    {f' : Catalog S d → Outcome (Rejection S d) (Catalog S d)}
    (h : ∀ catalog, f' (catalog.convert n) = convertCollected n (f catalog)) :
    (convertCollected n r >>= f') = convertCollected n (r >>= f) := by
  cases r with
  | ok catalog => exact h catalog
  | error e => rfl
  | unfinished => rfl

theorem collectPending_convert (n : S.Conversion c d) (fuel : Nat)
    (pending : List (InputShape S.inputs)) (catalog : Catalog S c) :
    collectPending D fuel pending (catalog.convert n) =
      convertCollected n (collectPending D fuel pending catalog) := by
  induction fuel generalizing pending catalog with
  | zero => cases pending <;> rfl
  | succ fuel ih =>
    cases pending with
    | nil => rfl
    | cons s pending =>
      simp only [collectPending]
      cases s.definition? D.input with
      | none => rfl
      | some shape =>
        simp only [addInput_convert]
        rcases catalog.addInput D shape with reason | _ | extended
        · rfl
        · exact ih pending catalog
        · exact ih (shape.fieldInputs ++ pending) extended

theorem collectArguments_convert (n : S.Conversion c d) (fields : List (FieldShape S c))
    (catalog : Catalog S c) :
    (catalog.convert n).collectArguments D (fields.map (·.convert n)) =
      convertCollected n (catalog.collectArguments D fields) := by
  have hinputs : (fields.map (·.convert n)).flatMap (fun f => f.arguments.map Slot.input) =
      fields.flatMap fun f => f.arguments.map Slot.input := List.flatMap_map ..
  rw [collectArguments, collectArguments, hinputs]
  generalize fields.flatMap (fun f => f.arguments.map Slot.input) = inputs
  induction inputs generalizing catalog with
  | nil => rfl
  | cons s rest ih =>
    rw [List.foldlM_cons, List.foldlM_cons]
    have hfirst : (catalog.convert n).collectInput D s =
        convertCollected n (catalog.collectInput D s) := collectPending_convert n _ [s] catalog
    rw [hfirst]
    exact convertCollected_bind n fun extended => ih extended

/-- The step of a named output: it is entered, then its arguments, and what it refers to is put in
line. -/
theorem collectLine_named {s : OutputShape S c} (hnamed : s.name?.isSome) (fuel : Nat)
    (line : List (OutputShape S c)) (catalog : Catalog S c) :
    collectLine D (fuel + 1) (s :: line) catalog =
      match catalog.addOutput D s with
      | .error reason => .error ⟨reason, catalog⟩
      | .ok none => collectLine D fuel line catalog
      | .ok (some extended) =>
        extended.collectArguments D (s.fields?.getD []) >>=
          collectLine D fuel (line ++ s.successors D) := by
  cases s with
  | list | optional => cases hnamed
  | _ => rfl

/-- On the number of steps: the line and the catalog are converted all along. -/
theorem collectLine_convert (n : S.Conversion c d) (fuel : Nat) (line : List (OutputShape S c))
    (catalog : Catalog S c) :
    collectLine D fuel (line.map (OutputShape.convert n)) (catalog.convert n) =
      convertCollected n (collectLine D fuel line catalog) := by
  induction fuel generalizing line catalog with
  | zero => cases line <;> rfl
  | succ fuel ih =>
    have happend (line more : List (OutputShape S c)) (catalog : Catalog S c) :
        collectLine D fuel (line.map (OutputShape.convert n) ++ more.map (OutputShape.convert n))
            (catalog.convert n) = convertCollected n (collectLine D fuel (line ++ more) catalog) := by
      rw [← List.map_append]
      exact ih (line ++ more) catalog
    have hnamed (s : OutputShape S c) (line : List (OutputShape S c)) (hs : s.name?.isSome) :
        collectLine D (fuel + 1) (s.convert n :: line.map (OutputShape.convert n))
            (catalog.convert n) =
          convertCollected n (collectLine D (fuel + 1) (s :: line) catalog) := by
      rw [collectLine_named hs, collectLine_named (by rwa [OutputShape.name?_convert]),
        addOutput_convert, OutputShape.fields_convert, OutputShape.successors_convert]
      rcases catalog.addOutput D s with reason | _ | extended
      · rfl
      · exact ih line catalog
      · refine (congrArg (· >>= _) (collectArguments_convert n _ extended)).trans ?_
        exact convertCollected_bind n (happend line (s.successors D))
    cases line with
    | nil => rfl
    | cons s line =>
      cases s with
      | list item => exact happend line [item] catalog
      | optional inner => exact happend line [inner] catalog
      | _ => exact hnamed _ line rfl

theorem collect_convert (n : S.Conversion c d) (s : OutputShape S c) (catalog : Catalog S c) :
    (catalog.convert n).collect D (s.convert n) = convertCollected n (catalog.collect D s) := by
  rw [collect, collect, outputSteps, outputSteps, OutputShape.weight_convert]
  exact collectLine_convert n _ [s] catalog

end Catalog

/-! ## Rules -/

theorem requireDistinct_map {α β : Type} (g : α → β) {name : β → String}
    {check next : β → Except SchemaError Unit} {duplicate : String → SchemaError}
    (seen : List String) (xs : List α) :
    requireDistinct name check duplicate next seen (xs.map g) =
      requireDistinct (fun a => name (g a)) (fun a => check (g a)) duplicate (fun a => next (g a))
        seen xs := by
  induction xs generalizing seen with
  | nil => rfl
  | cons x rest ih => simp only [List.map_cons, requireDistinct, ih]

theorem requireEach_map {α β : Type} (g : α → β) (check : β → Except SchemaError Unit)
    (xs : List α) : requireEach check (xs.map g) = requireEach (fun a => check (g a)) xs := by
  induction xs with
  | nil => rfl
  | cons x rest ih => simp only [List.map_cons, requireEach, ih]

theorem requireSome_map {α β : Type} (g : α → β) (typeName : String) (part : Part) (xs : List α) :
    requireSome typeName part (xs.map g) = requireSome typeName part xs := by
  cases xs <;> rfl

theorem checkFields_convert (n : S.Conversion c d) (typeName : String)
    (fields : List (FieldShape S c)) :
    checkFields typeName (fields.map (·.convert n)) = checkFields typeName fields := by
  rw [checkFields, checkFields, requireSome_map, requireDistinct_map]
  rfl

theorem checkMembers_convert (n : S.Conversion c d) (typeName : String)
    (members : List (ObjectShape S c)) :
    checkMembers typeName (members.map (·.convert n)) = checkMembers typeName members := by
  rw [checkMembers, checkMembers, requireSome_map, requireDistinct_map]
  rfl

theorem checkImplements_convert (n : S.Conversion c d) (interface : String)
    (member : ObjectShape S c) (field : FieldShape S c) :
    checkImplements D interface (member.convert n) (field.convert n) =
      checkImplements D interface member field := by
  have hfield : (member.convert n).field? field.name =
      (member.field? field.name).map (FieldShape.convert n) := by
    rw [ObjectShape.field?, ObjectShape.convert, List.find?_map]
    rfl
  have hname : (field.convert n).name = field.name := rfl
  have hmember : (member.convert n).name = member.name := rfl
  simp only [checkImplements, hname, hmember, hfield, FieldShape.declaration_convert]
  cases member.field? field.name with
  | none => rfl
  | some declared => simp only [Option.map_some, FieldShape.declaration_convert]

/-- No rule looks at what a conversion changes. -/
theorem checkOutput_convert (n : S.Conversion c d) (s : OutputShape S c) :
    checkOutput D (s.convert n) = checkOutput D s := by
  induction s with
  | scalar | enumeration => rfl
  | list _ ih | optional _ ih => exact ih
  | object shape =>
    simp only [OutputShape.convert, checkOutput, ObjectShape.convert, checkFields_convert]
  | interface name fields members =>
    simp only [OutputShape.convert, checkOutput, checkFields_convert, checkMembers_convert,
      requireEach_map, checkImplements_convert]
  | union name members => simp only [OutputShape.convert, checkOutput, checkMembers_convert]

theorem checkDefinitions_convert (n : S.Conversion c d) (catalog : Catalog S c) :
    checkDefinitions D (catalog.convert n).outputs (catalog.convert n).inputs =
      checkDefinitions D catalog.outputs catalog.inputs := by
  rw [checkDefinitions, checkDefinitions, Catalog.convert, requireEach_map]
  simp only [checkOutput_convert]

/-! ## Schemas -/

/-- The schema of a converted query type is the converted schema; if there is none, the cause is the
same. -/
theorem Schema.ofQuery_convert (n : S.Conversion c d) (query : ObjectType S c) :
    Schema.ofQuery D (query.convert n) = Schema.convert n <$> Schema.ofQuery D query := by
  have hcollect : Catalog.empty.collect D (.object (query.convert n).shape) =
      Catalog.convertCollected n (Catalog.empty.collect D (.object query.shape)) := by
    rw [ObjectType.shape_convert]
    exact Catalog.collect_convert n (.object query.shape) Catalog.empty
  rw [ofQuery, ofQuery, hcollect]
  cases Catalog.empty.collect D (.object query.shape) with
  | error e => rfl
  | unfinished => rfl
  | ok catalog =>
    simp only [Catalog.convertCollected, Outcome.map_ok, Outcome.mapError, Outcome.ok_bind,
      checkDefinitions_convert, map_bind]
    rfl

end QueryTypes
