import QueryTypes.Proofs.Catalog.Entries

/-!
# How catalogs grow

A collection is a run of single steps, and each step enters one definition under a name that is new
on its side (`collectLine_grows`). What one step preserves thus holds of every catalog that a
collection comes to. `Consistent` is such an invariant: names are distinct, entries stand under
their own names, and a name on both sides stands for one scalar or one enum.
-/

namespace QueryTypes

variable {S : Signature} {c : S.Context}

/-! ## Named definitions -/

namespace Definition

/-- Neither a list nor an optional nor a reference. -/
def IsNamed : Definition S c → Prop
  | .output s => s.name?.isSome
  | .input (.reference _ _) => False
  | .input s => s.name?.isSome

theorem isNamed_output {s : OutputShape S c} (hlist : ∀ item, s ≠ .list item)
    (hopt : ∀ inner, s ≠ .optional inner) : (Definition.output s).IsNamed := by
  cases s with
  | list item => exact absurd rfl (hlist item)
  | optional inner => exact absurd rfl (hopt inner)
  | _ => rfl

end Definition

theorem InputShape.LeadsTo.isNamed {V : Type} {table : InputTable V S.inputs}
    {s i : InputShape S.inputs} (h : s.LeadsTo table i) :
    (Definition.input i : Definition S c).IsNamed := by
  induction h with
  | list _ ih | optional _ ih | reference _ ih => exact ih
  | _ => rfl

namespace Catalog
variable {D : Definitions S} {before after catalog : Catalog S c} {d r : Definition S c}

/-! ## Runs of single steps -/

/-- One step: a definition is entered whose name is new on its side and may be shared with the other
side. -/
def Enters (D : Definitions S) (before after : Catalog S c) : Prop :=
  ∃ d : Definition S c, d.IsNamed ∧ before.entered? d.side d.name = none ∧ before.Shares D d ∧
    after = before.enter d

/-- Any number of steps. -/
def Grows (D : Definitions S) : Catalog S c → Catalog S c → Prop :=
  Relation.ReflTransGen (Enters D)

theorem Takes.enters (h : before.Takes D d (some after)) (hd : d.IsNamed) :
    Enters D before after := by
  rcases h with ⟨hr, -⟩ | ⟨hnone, hshares, hr⟩
  · cases hr
  · exact ⟨d, hd, hnone, hshares, Option.some.inj hr⟩

theorem collectPending_grows {fuel : Nat} {pending : List (InputShape S.inputs)}
    (h : collectPending D fuel pending before = .ok after) : Grows D before after := by
  fun_induction collectPending D fuel pending before with
  | case1 => cases h; exact .refl
  | case2 | case3 | case4 => cases h
  | case5 fuel s pending before shape hs hadd ih => exact ih h
  | case6 fuel s pending before shape hs extended hadd ih =>
    have hnamed := (InputShape.leadsTo_of_definition? hs).isNamed (c := c)
    exact .head ((addInput_takes hadd).enters hnamed) (ih h)

theorem collectInputs_grows {inputs : List (InputShape S.inputs)}
    (h : inputs.foldlM (fun catalog s => collectInput D s catalog) before = .ok after) :
    Grows D before after := by
  induction inputs generalizing before with
  | nil => cases h; exact .refl
  | cons s rest ih =>
    rw [List.foldlM_cons] at h
    obtain ⟨mid, hmid, h⟩ := Outcome.bind_eq_ok h
    exact (collectPending_grows hmid).trans (ih h)

/-- A collection enters definitions one by one. -/
theorem collectLine_grows {fuel : Nat} {line : List (OutputShape S c)}
    (h : collectLine D fuel line before = .ok after) : Grows D before after := by
  fun_induction collectLine D fuel line before with
  | case1 => cases h; exact .refl
  | case2 | case5 => cases h
  | case3 fuel item line before ih | case4 fuel item line before ih => exact ih h
  | case6 fuel s line before hlist hopt hadd ih => exact ih h
  | case7 fuel s line before hlist hopt extended hadd ih =>
    have hnamed := Definition.isNamed_output hlist hopt
    obtain ⟨mid, hargs, h⟩ := Outcome.bind_eq_ok h
    exact .head ((addOutput_takes hadd).enters hnamed)
      ((collectInputs_grows hargs).trans (ih mid h))

theorem Enters.extends (h : Enters D before after) : before.Extends after := by
  obtain ⟨d, -, -, -, rfl⟩ := h
  exact extends_enter before d

theorem Grows.extends (h : Grows D before after) : before.Extends after := by
  induction h with
  | refl => exact .refl _
  | tail _ hstep ih => exact ih.trans hstep.extends

theorem Extends.holds (h : before.Extends after) {name : String} (hr : before.Holds name r) :
    after.Holds name r := by
  cases r with
  | output s => exact h.outputs.subset hr
  | input s => exact h.inputs.subset hr

theorem holds_enter_self (catalog : Catalog S c) (d : Definition S c) :
    (catalog.enter d).Holds d.name d := by
  cases d <;> simp [enter, Holds, Definition.name]

theorem entered?_of_enter {side : Side} {name : String}
    (h : (catalog.enter d).entered? side name = some r) :
    catalog.entered? side name = some r ∨ (side = d.side ∧ name = d.name ∧ r = d) := by
  cases d <;> cases side <;>
    simp only [enter, entered?, List.lookup_append, Keyed.lookup_cons, List.lookup_nil] at h
  · cases hold : catalog.outputs.lookup name with
    | some s => simp_all [entered?]
    | none =>
      simp only [hold, Option.none_or, Option.map_eq_some_iff, Option.ite_none_right_eq_some] at h
      obtain ⟨s, ⟨hname, hs⟩, rfl⟩ := h
      cases hs
      exact .inr ⟨rfl, hname, rfl⟩
  · exact .inl h
  · exact .inl h
  · cases hold : catalog.inputs.lookup name with
    | some s => simp_all [entered?]
    | none =>
      simp only [hold, Option.none_or, Option.map_eq_some_iff, Option.ite_none_right_eq_some] at h
      obtain ⟨s, ⟨hname, hs⟩, rfl⟩ := h
      cases hs
      exact .inr ⟨rfl, hname, rfl⟩

/-! ## An invariant -/

/-- Two definitions of one name on the two sides are one scalar or one enum. -/
def Agree (D : Definitions S) (r e : Definition S c) : Prop :=
  r.kind = e.kind ∧ (r.kind = .scalar ∨ r.kind = .enum) ∧ r.signature D = e.signature D

/-- Names are distinct on each side, entries stand under their own names, and what is entered on
both sides under one name agrees. -/
structure Consistent (D : Definitions S) (catalog : Catalog S c) : Prop where
  outputs : (Keyed.keys catalog.outputs).Nodup
  inputs : (Keyed.keys catalog.inputs).Nodup
  named : ∀ name r, catalog.Holds name r → name = r.name ∧ r.IsNamed
  shared : ∀ name r e, catalog.entered? .output name = some r →
    catalog.entered? .input name = some e → Agree D r e

theorem consistent_empty : (empty : Catalog S c).Consistent D where
  outputs := List.nodup_nil
  inputs := List.nodup_nil
  named name r h := by cases r <;> cases h
  shared name r e h := by cases h

theorem nodup_keys_append {α : Type} {m : Keyed α} (h : (Keyed.keys m).Nodup) {name : String}
    (hnone : m.lookup name = none) (value : α) : (Keyed.keys (m ++ [(name, value)])).Nodup := by
  have hfresh : name ∉ Keyed.keys m := by
    intro hmem
    obtain ⟨a, ha⟩ := Keyed.exists_lookup.2 hmem
    rw [hnone] at ha
    cases ha
  rw [Keyed.keys, List.map_append, List.nodup_append]
  refine ⟨h, by simp, ?_⟩
  intro a ha b hb heq
  simp only [List.map_singleton, List.mem_singleton] at hb
  subst heq hb
  exact hfresh ha

/-- One step keeps a catalog consistent. -/
theorem Consistent.enters (hb : before.Consistent D) (h : Enters D before after) :
    after.Consistent D := by
  obtain ⟨d, hnamed, hnone, hshares, rfl⟩ := h
  constructor
  · cases d with
    | output s => exact nodup_keys_append hb.outputs (Option.map_eq_none_iff.1 hnone) s
    | input s => exact hb.outputs
  · cases d with
    | output s => exact hb.inputs
    | input s => exact nodup_keys_append hb.inputs (Option.map_eq_none_iff.1 hnone) s
  · intro name r hr
    rcases holds_enter hr with hr | ⟨rfl, rfl⟩
    · exact hb.named name r hr
    · exact ⟨rfl, hnamed⟩
  · intro name r e hr he
    -- at most one of the two is the new entry, and then it was compared with the other
    rcases entered?_of_enter hr with hr | ⟨hside, rfl, rfl⟩
    · rcases entered?_of_enter he with he | ⟨hside, rfl, rfl⟩
      · exact hb.shared name r e hr he
      · exact hshares r (by rw [← hside]; exact hr)
    · rcases entered?_of_enter he with he | ⟨hside', -, -⟩
      · obtain ⟨hkind, hleaf, hsig⟩ := hshares e (by rw [← hside]; exact he)
        exact ⟨hkind.symm, hkind ▸ hleaf, hsig.symm⟩
      · cases hside.trans hside'.symm

/-- Whatever a catalog grows to is consistent. -/
theorem Consistent.grows (hb : before.Consistent D) (h : Grows D before after) :
    after.Consistent D := by
  induction h with
  | refl => exact hb
  | tail _ hstep ih => exact ih.enters hstep

end Catalog
end QueryTypes
