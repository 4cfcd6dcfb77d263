import QueryTypes.Proofs.Conversion.Laws

/-!
# What resolved fields give when run

A resolution yields a property if the value it gives has the property however the resolution is
converted before it is run. Mapping and converting keep this, so a field of a bound value yields a
value of the output that the field declares, through every adapter around the field and every
conversion around the value.
-/

namespace QueryTypes

/-- Every conversion of the host is natural. -/
def Effects.AllNatural (E : Effects) : Prop :=
  ∀ {c d : E.Context} (n : E.Conversion c d), E.Natural n

/-! ## Resolutions -/

namespace Resolution
variable {E : Effects} {c d : E.Context} {α β : Type} {R : Runner E}

/-- What the resolution gives when run satisfies `P`, whatever it is converted by before. -/
def Yields (R : Runner E) (P : α → Prop) (r : Resolution E c α) : Prop :=
  ∀ (d : E.Context) (chain : Chain E c d), P (R.resolved (r.along chain))

theorem Yields.resolved {P : α → Prop} {r : Resolution E c α} (h : r.Yields R P) :
    P (R.resolved r) := by
  have hnil : P (R.resolved (r.along .nil)) := h c .nil
  rwa [along_nil] at hnil

theorem Yields.map (hE : E.AllNatural) {P : α → Prop} {Q : β → Prop} {f : α → β}
    (hf : ∀ a, P a → Q (f a)) {r : Resolution E c α} (h : r.Yields R P) : (r.map f).Yields R Q := by
  intro d chain
  rw [← map_along (Chain.all_of_forall hE chain), R.resolved_map]
  exact hf _ (h d chain)

theorem Yields.convert {P : α → Prop} {r : Resolution E c α} (h : r.Yields R P)
    (n : E.Conversion c d) : (r.convert n).Yields R P := by
  intro e chain
  rw [along_convert]
  exact h e _

end Resolution

variable {S : Signature} {c d : S.Context} {D : Definitions S} {R : Runner S.toEffects}

/-! ## Fields -/

/-- The value is what the declared output of a field binds. -/
def OutputRef.Binds (D : Definitions S) (o : OutputRef S c) (b : Bound S c) : Prop :=
  ∃ v, b = (o.type D).bind v

theorem OutputRef.Binds.convert (n : S.Conversion c d) {o : OutputRef S c} {b : Bound S c}
    (h : o.Binds D b) : (o.convert n).Binds D (b.convert n) := by
  obtain ⟨v, rfl⟩ := h
  exact ⟨v, rfl⟩

theorem yields_convertResolution (hE : S.AllNatural) (n : S.Conversion c d) {o : OutputRef S c}
    {r : S.FieldResolution c} (h : r.Yields R (o.Binds D)) :
    (S.convertResolution n r).Yields R ((o.convert n).Binds D) :=
  (h.map hE fun _ hb => hb.convert n).convert n

/-- A held field yields a value of its output. -/
theorem Resolver.resolve_yields (hE : S.AllNatural) {name : String} {args : List (Option Payload)} :
    {c : S.Context} → (r : Resolver S c) → (parent : S.Value) → {res : S.FieldResolution c} →
      r.resolve D name parent args = .ok res → res.Yields R (r.output.Binds D)
  | _, .declared field, parent, res, h => by
    obtain ⟨value, -, rfl⟩ := Outcome.map_eq_ok h
    -- nothing is known of the host's own value, only that it is bound to the output afterwards
    have hvalue : value.Yields R fun _ => True := fun _ _ => trivial
    exact hvalue.map hE fun v _ => ⟨v, rfl⟩
  | _, .contramapped f inner, parent, res, h => resolve_yields hE inner (f parent) h
  | _, .converted n inner, parent, res, h => by
    obtain ⟨r, hr, rfl⟩ := Outcome.map_eq_ok h
    exact yields_convertResolution hE n (resolve_yields hE inner parent hr)

namespace Fields
variable {fields : Fields S c}

/-- The declared field of a name is the declaration of the held field of that name. -/
theorem find?_shapes (fields : Fields S c) (name : String) :
    fields.shapes.find? (·.name == name) =
      (List.lookup name fields).map fun r => ⟨name, r.arguments, r.output⟩ := by
  induction fields with
  | nil => rfl
  | cons p rest ih =>
    simp only [shapes, List.map_cons, List.find?_cons] at ih ⊢
    rw [Keyed.lookup_cons]
    by_cases h : name = p.1
    · simp [h]
    · have hne : (p.1 == name) = false := by simpa using fun heq => h heq.symm
      simp [h, hne, ih]

/-- The held field that a resolution comes from, with the same output as the declared one. -/
theorem output_of_lookup {name : String} {f : FieldShape S c} {r : Resolver S c}
    (hf : fields.shapes.find? (·.name == name) = some f) (hr : List.lookup name fields = some r) :
    r.output = f.output := by
  rw [find?_shapes, hr] at hf
  cases hf
  rfl

theorem resolve_yields (hE : S.AllNatural) {owner name : String} {parent : S.Value}
    {args : List (Option Payload)} {f : FieldShape S c} {res : S.FieldResolution c}
    (hf : fields.shapes.find? (·.name == name) = some f)
    (h : fields.resolve D owner parent name args = .ok res) : res.Yields R (f.output.Binds D) := by
  unfold resolve at h
  split at h
  · cases h
  · rename_i r hr
    rw [← output_of_lookup hf hr]
    exact r.resolve_yields hE parent (Outcome.mapError_eq_ok h)

theorem resolveNamed_yields (hE : S.AllNatural) {owner name : String} {parent : S.Value}
    {args : Keyed Payload} {f : FieldShape S c} {res : S.FieldResolution c}
    (hf : fields.shapes.find? (·.name == name) = some f)
    (h : fields.resolveNamed D owner parent name args = .ok res) :
    res.Yields R (f.output.Binds D) := by
  unfold resolveNamed at h
  split at h
  · cases h
  · rename_i r hr
    split at h
    · cases h
    · rw [← output_of_lookup hf hr]
      exact r.resolve_yields hE parent (Outcome.mapError_eq_ok h)

end Fields

/-! ## Fields of bound values -/

theorem OutputShape.field?_convert (n : S.Conversion c d) (s : OutputShape S c) (name : String) :
    (s.convert n).field? name = (s.field? name).map (FieldShape.convert n) := by
  cases s <;>
    simp only [field?, fields?, OutputShape.convert, ObjectShape.convert, Option.getD_some,
      Option.getD_none, List.find?_map, List.find?_nil, Option.map_none] <;>
    rfl

/-- A resolution carried along a chain yields a value of the declared output, carried likewise. -/
theorem yields_carryResolution (hE : S.AllNatural) {chain : S.Conversions c d}
    {s : OutputShape S c} {name : String} {x : Outcome ResolveError (S.FieldResolution c)}
    (h : ∀ f res, s.field? name = some f → x = .ok res → res.Yields R (f.output.Binds D)) :
    ∀ f res, (chain.carry OutputShape.convert s).field? name = some f →
      S.carryResolution chain x = .ok res → res.Yields R (f.output.Binds D) := by
  induction chain with
  | nil => exact h
  | snoc chain n ih =>
    intro f res hf hres
    have hfield : ((chain.carry OutputShape.convert s).convert n).field? name = some f := hf
    rw [OutputShape.field?_convert, Option.map_eq_some_iff] at hfield
    obtain ⟨g, hg, rfl⟩ := hfield
    obtain ⟨r, hr, rfl⟩ := Outcome.map_eq_ok hres
    exact yields_convertResolution hE n (ih g r hg hr)

theorem OutputShape.carry_object (chain : S.Conversions c d) (s : ObjectShape S c) :
    chain.carry OutputShape.convert (.object s) = .object (chain.carry ObjectShape.convert s) := by
  induction chain with
  | nil => rfl
  | snoc chain n ih => exact congrArg (OutputShape.convert n) ih

namespace BoundObject
variable {o : BoundObject S c} {name : String} {f : FieldShape S c} {res : S.FieldResolution c}

theorem field?_carry (hf : o.shape.field? name = some f) :
    (o.conversions.carry OutputShape.convert (.object o.type.shape)).field? name = some f := by
  rw [OutputShape.carry_object]
  exact hf

theorem resolve_yields (hE : S.AllNatural) (hf : o.shape.field? name = some f)
    {args : List (Option Payload)} (h : o.resolve D name args = .ok res) :
    res.Yields R (f.output.Binds D) := by
  have hown : ∀ g r, (OutputShape.object o.type.shape).field? name = some g →
      o.type.resolve D o.value name args = .ok r → r.Yields R (g.output.Binds D) :=
    fun g r hg hr => Fields.resolve_yields hE hg hr
  exact yields_carryResolution hE hown f res (field?_carry hf) h

theorem resolveNamed_yields (hE : S.AllNatural) (hf : o.shape.field? name = some f)
    {args : Keyed Payload} (h : o.resolveNamed D name args = .ok res) :
    res.Yields R (f.output.Binds D) := by
  have hown : ∀ g r, (OutputShape.object o.type.shape).field? name = some g →
      o.type.resolveNamed D o.value name args = .ok r → r.Yields R (g.output.Binds D) :=
    fun g r hg hr => Fields.resolveNamed_yields hE hg hr
  exact yields_carryResolution hE hown f res (field?_carry hf) h

end BoundObject

theorem BoundAbstract.resolve_yields (hE : S.AllNatural) {a : BoundAbstract S c} {name : String}
    {f : FieldShape S c} (hf : a.shape.field? name = some f) {args : List (Option Payload)}
    {res : S.FieldResolution c} (h : a.resolve D name args = .ok res) :
    res.Yields R (f.output.Binds D) := by
  refine yields_carryResolution hE (fun g r hg hr => ?_) f res hf h
  have hfields : a.type.shape.fields?.getD [] = a.type.fields.shapes := by
    cases a.type <;> rfl
  rw [OutputShape.field?, hfields] at hg
  exact Fields.resolve_yields hE hg hr

end QueryTypes
