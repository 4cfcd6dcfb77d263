import QueryTypes.Proofs.Conformance.Yields
import QueryTypes.Proofs.Decoding.Entries

/-!
# Errors of declared fields

A field that is declared, given arguments that it declares, is not refused for its names or for how
many payloads there are: what is left is that an argument does not decode. Decoding itself counts
payloads only where it starts, so no error from below is about their number.
-/

namespace QueryTypes

variable {S : Signature} {c d : S.Context} {D : Definitions S}

/-! ## Errors of outcomes -/

namespace Outcome
variable {ε δ α β : Type}

theorem mapError_eq_error {x : Outcome ε α} {f : ε → δ} {e : δ} (h : x.mapError f = .error e) :
    ∃ e', x = .error e' ∧ f e' = e := by
  cases x <;> cases h
  exact ⟨_, rfl, rfl⟩

theorem bind_eq_error {x : Outcome ε α} {f : α → Outcome ε β} {e : ε} (h : (x >>= f) = .error e) :
    x = .error e ∨ ∃ a, x = .ok a ∧ f a = .error e := by
  cases x with
  | ok a => exact .inr ⟨a, rfl, h⟩
  | error e' =>
    cases h
    exact .inl rfl
  | unfinished => cases h

/-- Errors stay what they are under a map. -/
theorem map_eq_error_iff {x : Outcome ε α} {f : α → β} {e : ε} :
    f <$> x = .error e ↔ x = .error e :=
  ⟨map_eq_error, fun h => by rw [h, map_error]⟩

/-- A list fails with the first of its items that fails. -/
theorem mapM_eq_error_iff {f : α → Outcome ε β} {xs : List α} {e : ε} :
    xs.mapM f = .error e ↔ ∃ before x after, xs = before ++ x :: after ∧
      (∀ y ∈ before, ∃ b, f y = .ok b) ∧ f x = .error e := by
  constructor
  · intro h
    induction xs with
    | nil => cases h
    | cons x xs ih =>
      rw [List.mapM_cons] at h
      rcases bind_eq_error h with hx | ⟨b, hx, h⟩
      · exact ⟨[], x, xs, rfl, by simp, hx⟩
      · rcases bind_eq_error h with h | ⟨bs, -, h⟩
        · obtain ⟨before, y, after, rfl, hbefore, hy⟩ := ih h
          refine ⟨x :: before, y, after, rfl, ?_, hy⟩
          exact List.forall_mem_cons.2 ⟨⟨b, hx⟩, hbefore⟩
        · cases h
  · rintro ⟨before, x, after, rfl, hbefore, hx⟩
    induction before with
    | nil => rw [List.nil_append, List.mapM_cons, hx, error_bind]
    | cons y before ih =>
      obtain ⟨⟨b, hy⟩, hbefore⟩ := List.forall_mem_cons.1 hbefore
      rw [List.cons_append, List.mapM_cons, hy, ok_bind, ih hbefore, error_bind]

theorem mapM_eq_error {f : α → Outcome ε β} {xs : List α} {e : ε} (h : xs.mapM f = .error e) :
    ∃ x ∈ xs, f x = .error e := by
  obtain ⟨_, x, _, rfl, -, hx⟩ := mapM_eq_error_iff.1 h
  exact ⟨x, List.mem_append_right _ List.mem_cons_self, hx⟩

end Outcome

/-! ## Decoding -/

/-- The cause is a number of positional payloads that is not the number of slots. -/
def DecodeError.isArity : DecodeError → Bool
  | .arityMismatch .. => true
  | .invalidArgument _ cause => cause.isArity
  | _ => false

namespace SlotKind

@[simp] theorem isArity_wrap (kind : SlotKind) (name : String) (e : DecodeError) :
    (kind.wrap name e).isArity = e.isArity := by
  cases kind <;> rfl

@[simp] theorem isArity_missing (kind : SlotKind) (name owner : String) :
    (kind.missing name owner).isArity = false := by
  cases kind <;> rfl

end SlotKind

section Decoding
variable {V : Type} {n : Nat} {u : Unfolding V n} {e : DecodeError}

theorem Entry.isArity_of_read {entry : Entry V n}
    (hinput : ∀ p e, entry.input.decodeWith u p = .error e → e.isArity = false) {owner : String}
    {value : Option Payload} (h : entry.read u owner value = .error e) : e.isArity = false := by
  have hwrapped (p : Payload)
      (h : (entry.input.decodeWith u p).mapError (entry.kind.wrap entry.name) = .error e) :
      e.isArity = false := by
    obtain ⟨cause, hcause, rfl⟩ := Outcome.mapError_eq_error h
    rw [SlotKind.isArity_wrap]
    exact hinput p cause hcause
  unfold read at h
  split at h
  · exact hwrapped _ h
  · cases h
  · split at h
    · exact hwrapped _ h
    · cases h
      exact SlotKind.isArity_missing _ _ _

/-- Slots that are given one payload each fail with an error of an entry. -/
theorem Slots.isArity_of_read {slots : Slots V n}
    (hinputs : ∀ entry ∈ slots.entries, ∀ p e, entry.input.decodeWith u p = .error e →
      e.isArity = false) {owner : String} {values : List (Option Payload)}
    (hlen : values.length = slots.size) (h : slots.read u owner values = .error e) :
    e.isArity = false := by
  have hread := slots.read_eq u owner values hlen
  rw [h, Outcome.map_error] at hread
  obtain ⟨x, hx, hentry⟩ := Outcome.mapM_eq_error (Outcome.map_eq_error hread.symm)
  exact Entry.isArity_of_read (hinputs x.1 (List.of_mem_zip hx).1) hentry

theorem InputType.isArity_of_decodeWith (hu : ∀ t p e, u t p = .error e → e.isArity = false)
    {input : InputType V n} {p : Payload} (h : input.decodeWith u p = .error e) :
    e.isArity = false := by
  induction input using InputType.induction generalizing p e with
  | scalar name read =>
    simp only [decodeWith] at h
    split at h
    · cases h; rfl
    · split at h
      · cases h
      · cases h; rfl
    · cases h; rfl
  | enumeration name pairs =>
    simp only [decodeWith] at h
    split at h
    · split at h
      · cases h
      · cases h; rfl
    · cases h; rfl
  | object name slots ih =>
    simp only [decodeWith] at h
    split at h
    -- the slots are read before undeclared keys are looked for
    · rcases Outcome.bind_eq_error h with h | ⟨a, -, h⟩
      · exact Slots.isArity_of_read (fun entry he p e => ih entry he)
          (slots.length_positional _) h
      · split at h
        · cases h; rfl
        · cases h
    · cases h; rfl
  | list item assemble ih =>
    simp only [decodeWith] at h
    split at h
    · obtain ⟨q, -, hq⟩ := Outcome.mapM_eq_error (Outcome.map_eq_error h)
      exact ih hq
    · cases h; rfl
  | optional inner assemble ih =>
    simp only [decodeWith] at h
    split at h
    · cases h
    · exact ih (Outcome.map_eq_error h)
  | map f inner ih => exact ih (Outcome.map_eq_error h)
  | reference name target => exact hu target p e h

theorem InputTable.isArity_of_unfold {table : InputTable V n} {k : Nat} (t : Fin n) (p : Payload)
    (e : DecodeError) (h : table.unfold k t p = .error e) : e.isArity = false := by
  induction k generalizing t p e with
  | zero => cases h
  | succ k ih => exact InputType.isArity_of_decodeWith ih h

theorem Slots.isArity_of_decode {table : InputTable V n} {slots : Slots V n} {owner : String}
    {values : List (Option Payload)} (hlen : values.length = slots.size)
    (h : slots.decode table owner values = .error e) : e.isArity = false := by
  rw [decode, if_pos hlen] at h
  exact isArity_of_read (fun _ _ p e => InputType.isArity_of_decodeWith
    InputTable.isArity_of_unfold) hlen h

end Decoding

/-! ## Fields -/

theorem Resolver.isArity_of_resolve {name : String} {args : Keyed Payload} :
    {c : S.Context} → (r : Resolver S c) → (parent : S.Value) → {e : DecodeError} →
      r.resolve D name parent (positional r.arguments args) = .error e → e.isArity = false
  | _, .declared (.simple _ _), _, _, h => by cases h
  | _, .declared (.withArguments slots _ _), parent, e, h => by
    have hslots : slots.decode D.input name (positional slots.declarations args) = .error e := by
      rcases Outcome.bind_eq_error (Outcome.map_eq_error h) with h | ⟨_, -, h⟩
      · exact h
      · cases h
    exact Slots.isArity_of_decode (slots.length_positional args) hslots
  | _, .contramapped f inner, parent, _, h => isArity_of_resolve inner (f parent) h
  | _, .converted _ inner, parent, _, h => isArity_of_resolve inner parent (Outcome.map_eq_error h)

/-- The field is declared, with arguments of all the given names. -/
def OutputShape.Declares (s : OutputShape S c) (field : String) (args : Keyed Payload) : Prop :=
  ∃ f, s.field? field = some f ∧ ∀ key ∈ args.keys, ∃ a ∈ f.arguments, a.name = key

/-- The only thing that is wrong is a payload of an argument. -/
def ResolveError.OfArguments (e : ResolveError) : Prop :=
  ∃ cause, e = .invalidArguments cause ∧ cause.isArity = false

theorem Fields.ofArguments_of_resolveNamed {fields : Fields S c} {owner field : String}
    {parent : S.Value} {args : Keyed Payload} {f : FieldShape S c} {e : ResolveError}
    (hf : fields.shapes.find? (·.name == field) = some f)
    (hargs : ∀ key ∈ args.keys, ∃ a ∈ f.arguments, a.name = key)
    (h : fields.resolveNamed D owner parent field args = .error e) : e.OfArguments := by
  rw [find?_shapes, Option.map_eq_some_iff] at hf
  obtain ⟨r, hr, rfl⟩ := hf
  simp only [resolveNamed, hr, undeclared?_eq_none_iff.2 hargs] at h
  obtain ⟨cause, hcause, rfl⟩ := Outcome.mapError_eq_error h
  exact ⟨cause, rfl, r.isArity_of_resolve parent hcause⟩

/-! ## Fields of bound objects -/

theorem OutputShape.declares_convert (n : S.Conversion c d) {s : OutputShape S c} {field : String}
    {args : Keyed Payload} : (s.convert n).Declares field args ↔ s.Declares field args := by
  unfold Declares
  rw [field?_convert]
  constructor
  · rintro ⟨f, hf, hargs⟩
    obtain ⟨g, hg, rfl⟩ := Option.map_eq_some_iff.1 hf
    exact ⟨g, hg, hargs⟩
  · rintro ⟨g, hg, hargs⟩
    exact ⟨g.convert n, by rw [hg]; rfl, hargs⟩

theorem OutputShape.declares_carry (chain : S.Conversions c d) {s : OutputShape S c}
    {field : String} {args : Keyed Payload} :
    (chain.carry convert s).Declares field args ↔ s.Declares field args := by
  induction chain with
  | nil => exact Iff.rfl
  | snoc chain n ih => exact (declares_convert n).trans ih

theorem carryResolution_eq_error {chain : S.Conversions c d}
    {x : Outcome ResolveError (S.FieldResolution c)} {e : ResolveError}
    (h : S.carryResolution chain x = .error e) : x = .error e := by
  induction chain with
  | nil => exact h
  | snoc chain n ih => exact ih (Outcome.map_eq_error h)

/-- A field that the shape of an object declares is refused for the payloads of its arguments
only. -/
theorem BoundObject.ofArguments_of_resolveNamed {o : BoundObject S c} {field : String}
    {args : Keyed Payload} {e : ResolveError}
    (hd : (OutputShape.object o.shape).Declares field args)
    (h : o.resolveNamed D field args = .error e) : e.OfArguments := by
  obtain ⟨f, hf, hargs⟩ : (OutputShape.object o.type.shape).Declares field args := by
    rw [← OutputShape.declares_carry o.conversions, OutputShape.carry_object]
    exact hd
  exact Fields.ofArguments_of_resolveNamed hf hargs (carryResolution_eq_error h)

/-! ## Narrowing -/

theorem AbstractType.narrow_eq_error {t : AbstractType S c} {v : S.Value} {e : ResolveError}
    (h : t.narrow v = .error e) : e = .noMatchingMember t.name := by
  unfold narrow at h
  split at h <;> cases h
  rfl

theorem BoundAbstract.narrow_eq_error {a : BoundAbstract S c} {e : ResolveError}
    (h : a.narrow = .error e) : e = .noMatchingMember a.typename := by
  obtain ⟨origin, type, value, conversions⟩ := a
  induction conversions with
  | nil => exact AbstractType.narrow_eq_error h
  | snoc chain n ih =>
    have hlink : (BoundAbstract.narrow ⟨origin, type, value, chain⟩).map
        (BoundObject.convert n) = .error e := h
    cases hinner : BoundAbstract.narrow ⟨origin, type, value, chain⟩ with
    | ok inner =>
      rw [hinner] at hlink
      cases hlink
    | error e' =>
      rw [hinner] at hlink
      cases hlink
      exact ih hinner

end QueryTypes
