import QueryTypes.Proofs.Catalog.Links

/-!
# Entries of a catalog

A catalog changes in two places only: `addOutput_takes` and `addInput_takes` sum them up. A
definition is either entered at the end, or found to agree with the entry of its name.
-/

namespace QueryTypes

variable {S : Signature} {c : S.Context}

/-! ## Entries of a catalog -/

namespace Catalog

/-- The definition entered under a name on one side. -/
def entered? (catalog : Catalog S c) : Side → String → Option (Definition S c)
  | .output, name => (catalog.outputs.lookup name).map .output
  | .input, name => (catalog.inputs.lookup name).map .input

/-- The definition is an entry under the name. -/
def Holds (catalog : Catalog S c) (name : String) : Definition S c → Prop
  | .output s => (name, s) ∈ catalog.outputs
  | .input s => (name, s) ∈ catalog.inputs

/-- The name of the definition is entered on its side, for a definition of the same kind that passes
for the same. -/
def Covers (D : Definitions S) (catalog : Catalog S c) (d : Definition S c) : Prop :=
  ∃ r, catalog.entered? d.side d.name = some r ∧ r.kind = d.kind ∧ r.signature D = d.signature D

/-- Every entry of the first catalog is one of the second, in the same order. -/
structure Extends (before after : Catalog S c) : Prop where
  outputs : before.outputs <+: after.outputs
  inputs : before.inputs <+: after.inputs

theorem entered?_holds {catalog : Catalog S c} {side : Side} {name : String} {r : Definition S c}
    (h : catalog.entered? side name = some r) : catalog.Holds name r ∧ r.side = side := by
  cases side with
  | output =>
    obtain ⟨s, hs, rfl⟩ := Option.map_eq_some_iff.1 h
    obtain ⟨l₁, l₂, hl, -⟩ := List.lookup_eq_some_iff.1 hs
    exact ⟨by simp [Holds, hl], rfl⟩
  | input =>
    obtain ⟨s, hs, rfl⟩ := Option.map_eq_some_iff.1 h
    obtain ⟨l₁, l₂, hl, -⟩ := List.lookup_eq_some_iff.1 hs
    exact ⟨by simp [Holds, hl], rfl⟩

theorem entered?_output {catalog : Catalog S c} {name : String} {found : Option (OutputShape S c)}
    (h : catalog.outputs.lookup name = found) :
    catalog.entered? .output name = found.map .output :=
  congrArg (Option.map _) h

theorem entered?_input {catalog : Catalog S c} {name : String}
    {found : Option (InputShape S.inputs)} (h : catalog.inputs.lookup name = found) :
    catalog.entered? .input name = found.map .input :=
  congrArg (Option.map _) h

theorem Extends.refl (catalog : Catalog S c) : catalog.Extends catalog :=
  ⟨List.prefix_refl _, List.prefix_refl _⟩

theorem Extends.trans {c₁ c₂ c₃ : Catalog S c} (h : c₁.Extends c₂) (h' : c₂.Extends c₃) :
    c₁.Extends c₃ :=
  ⟨h.outputs.trans h'.outputs, h.inputs.trans h'.inputs⟩

theorem Extends.entered? {before after : Catalog S c} (h : before.Extends after) {side : Side}
    {name : String} {r : Definition S c} (hr : before.entered? side name = some r) :
    after.entered? side name = some r := by
  cases side with
  | output =>
    obtain ⟨s, hs, rfl⟩ := Option.map_eq_some_iff.1 hr
    simp [Catalog.entered?, h.outputs.lookup_eq_some hs]
  | input =>
    obtain ⟨s, hs, rfl⟩ := Option.map_eq_some_iff.1 hr
    simp [Catalog.entered?, h.inputs.lookup_eq_some hs]

theorem Covers.mono {D : Definitions S} {before after : Catalog S c} {d : Definition S c}
    (hd : before.Covers D d) (h : before.Extends after) : after.Covers D d := by
  obtain ⟨r, hr, hk, hs⟩ := hd
  exact ⟨r, h.entered? hr, hk, hs⟩

/-! ## Entering one definition -/

theorem requireKind_ok {name : String} {a b : TypeKind} (h : requireKind name a b = .ok ()) :
    a = b := by
  unfold requireKind at h
  split at h
  · assumption
  · cases h

theorem requireSame_ok {name : String} {a b : List String} (h : requireSame name a b = .ok ()) :
    a = b := by
  unfold requireSame at h
  split at h
  · assumption
  · cases h

theorem requireShared_ok {name : String} {a b : TypeKind} (h : requireShared name a b = .ok ()) :
    a = b ∧ (a = .scalar ∨ a = .enum) := by
  unfold requireShared at h
  split at h
  · exact ⟨rfl, .inl rfl⟩
  · exact ⟨rfl, .inr rfl⟩
  · cases h

theorem bind_ok {ε α β : Type} {x : Except ε α} {f : α → Except ε β} {b : β}
    (h : (x >>= f) = .ok b) : ∃ a, x = .ok a ∧ f a = .ok b := by
  cases x with
  | error e => cases h
  | ok a => exact ⟨a, rfl, h⟩

/-- A definition may stand beside the entry of its name on the other side. -/
def Shares (D : Definitions S) (catalog : Catalog S c) (d : Definition S c) : Prop :=
  ∀ r, catalog.entered? d.side.other d.name = some r →
    r.kind = d.kind ∧ (r.kind = .scalar ∨ r.kind = .enum) ∧ r.signature D = d.signature D

/-- The catalog with a definition as its last entry. -/
def enter (catalog : Catalog S c) : Definition S c → Catalog S c
  | .output s => { catalog with outputs := catalog.outputs ++ [(s.namedType, s)] }
  | .input s => { catalog with inputs := catalog.inputs ++ [(s.namedType, s)] }

/-- A catalog takes a definition as known, because the entry of its name agrees with it, or enters
it last. -/
def Takes (D : Definitions S) (catalog : Catalog S c) (d : Definition S c)
    (result : Option (Catalog S c)) : Prop :=
  (result = none ∧ catalog.Covers D d) ∨
    (catalog.entered? d.side d.name = none ∧ catalog.Shares D d ∧ result = some (catalog.enter d))

theorem covers_of_entered {D : Definitions S} {catalog : Catalog S c} {d r : Definition S c}
    (h : catalog.entered? d.side d.name = some r)
    (hk : requireKind d.name r.kind d.kind = .ok ())
    (hs : requireSame d.name (r.signature D) (d.signature D) = .ok ()) : catalog.Covers D d :=
  ⟨r, h, requireKind_ok hk, requireSame_ok hs⟩

theorem shares_of_entered {D : Definitions S} {catalog : Catalog S c} {d r : Definition S c}
    (h : catalog.entered? d.side.other d.name = some r)
    (hk : requireShared d.name r.kind d.kind = .ok ())
    (hs : requireSame d.name (r.signature D) (d.signature D) = .ok ()) : catalog.Shares D d := by
  intro r' hr'
  obtain rfl : r = r' := Option.some.inj (h.symm.trans hr')
  obtain ⟨hkind, hleaf⟩ := requireShared_ok hk
  exact ⟨hkind, hleaf, requireSame_ok hs⟩

theorem shares_of_none {D : Definitions S} {catalog : Catalog S c} {d : Definition S c}
    (h : catalog.entered? d.side.other d.name = none) : catalog.Shares D d := by
  intro r hr
  rw [h] at hr
  cases hr

theorem addOutput_takes {D : Definitions S} {catalog : Catalog S c} {s : OutputShape S c}
    {result : Option (Catalog S c)} (h : catalog.addOutput D s = .ok result) :
    catalog.Takes D (.output s) result := by
  unfold addOutput at h
  dsimp only at h
  split at h
  · -- the name is entered on this side, and the two definitions have been compared
    rename_i r hr
    obtain ⟨_, hk, h⟩ := bind_ok h
    obtain ⟨_, hs, h⟩ := bind_ok h
    cases h
    exact .inl ⟨rfl, covers_of_entered (entered?_output hr) hk hs⟩
  · rename_i hnone
    refine .inr ⟨entered?_output hnone, ?_⟩
    -- on the other side the name may stand for an equal scalar or enum
    split at h
    · rename_i t ht
      obtain ⟨_, hk, h⟩ := bind_ok h
      obtain ⟨_, hs, h⟩ := bind_ok h
      cases h
      exact ⟨shares_of_entered (entered?_input ht) hk hs, rfl⟩
    · rename_i ht
      cases h
      exact ⟨shares_of_none (entered?_input ht), rfl⟩

theorem addInput_takes {D : Definitions S} {catalog : Catalog S c} {s : InputShape S.inputs}
    {result : Option (Catalog S c)} (h : catalog.addInput D s = .ok result) :
    catalog.Takes D (.input s) result := by
  unfold addInput at h
  dsimp only at h
  split at h
  · rename_i r hr
    obtain ⟨_, hk, h⟩ := bind_ok h
    obtain ⟨_, hs, h⟩ := bind_ok h
    cases h
    exact .inl ⟨rfl, covers_of_entered (entered?_input hr) hk hs⟩
  · rename_i hnone
    refine .inr ⟨entered?_input hnone, ?_⟩
    split at h
    · rename_i t ht
      obtain ⟨_, hk, h⟩ := bind_ok h
      obtain ⟨_, hs, h⟩ := bind_ok h
      cases h
      exact ⟨shares_of_entered (entered?_output ht) hk hs, rfl⟩
    · rename_i ht
      cases h
      exact ⟨shares_of_none (entered?_output ht), rfl⟩

theorem extends_enter (catalog : Catalog S c) (d : Definition S c) :
    catalog.Extends (catalog.enter d) := by
  cases d with
  | output s => exact ⟨List.prefix_append _ _, List.prefix_refl _⟩
  | input s => exact ⟨List.prefix_refl _, List.prefix_append _ _⟩

theorem holds_enter {catalog : Catalog S c} {d r : Definition S c} {name : String}
    (h : (catalog.enter d).Holds name r) : catalog.Holds name r ∨ (name = d.name ∧ r = d) := by
  cases d <;> cases r <;>
    simp only [enter, Holds, List.mem_append, List.mem_singleton, Prod.mk.injEq] at h
  · exact h.imp id fun ⟨hn, hs⟩ => ⟨hn, congrArg _ hs⟩
  · exact .inl h
  · exact .inl h
  · exact h.imp id fun ⟨hn, hs⟩ => ⟨hn, congrArg _ hs⟩

theorem covers_enter {D : Definitions S} {catalog : Catalog S c} {d : Definition S c}
    (h : catalog.entered? d.side d.name = none) : (catalog.enter d).Covers D d := by
  refine ⟨d, ?_, rfl, rfl⟩
  cases d with
  | output s =>
    simp only [entered?, Definition.side, Definition.name, Option.map_eq_none_iff] at h
    simp [entered?, enter, Definition.side, Definition.name, List.lookup_append, h]
  | input s =>
    simp only [entered?, Definition.side, Definition.name, Option.map_eq_none_iff] at h
    simp [entered?, enter, Definition.side, Definition.name, List.lookup_append, h]

end Catalog
end QueryTypes
