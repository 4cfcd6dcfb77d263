import QueryTypes.Proofs.Catalog.Turns

/-!
# Query types that are accepted

A query type is accepted if its inputs come down to definitions, the definitions it reaches agree with
each other wherever they share a name, and each of them keeps the rules. Whatever is entered, pending
or in line was reached (`Work.Sound`), so a turn only ever compares reached definitions and never
finds a conflict, in whichever order they come.
-/

namespace QueryTypes

variable {S : Signature} {c : S.Context} {D : Definitions S}

/-! ## Signatures -/

/-- Contents written out as a catalog compares them; the fields of inputs have no parentheses. -/
def Contents.signature (contents : Contents) : Side → List String
  | .output => contents.fields.map Declaration.signature ++
    contents.members.map ("| " ++ ·) ++ contents.values
  | .input => contents.fields.map (fun f => Declaration.argumentText (f.name, f.type)) ++
    contents.values

namespace Definition
variable {d e : Definition S c}

/-- Named definitions are compared by what they declare. -/
theorem IsNamed.signature_eq (h : d.IsNamed) :
    d.signature D = (d.contents D).signature d.side := by
  cases d with
  | output s =>
    cases s with
    | list | optional => cases h
    | _ =>
      simp [signature, contents, side, Contents.signature, OutputShape.signature,
        OutputShape.contents, OutputShape.fields?, OutputShape.members, OutputShape.values,
        FieldShape.signatures, ObjectShape.memberSignatures, Function.comp_def]
  | input s =>
    cases s with
    | list | optional | reference => cases h
    | _ =>
      simp [signature, contents, side, Contents.signature, InputShape.signature,
        InputShape.contents, InputShape.slots, InputShape.values, Slot.declaration,
        Function.comp_def]

theorem kind_eq_of_contents_eq (h : d.contents D = e.contents D) : d.kind = e.kind := by
  cases d <;> cases e <;> exact congrArg Contents.kind h

end Definition

/-! ## Agreement of what is reached -/

/-- A name reached on both sides is a scalar on both, or an enum with the same tokens. -/
def SharesLeaves (D : Definitions S) (query : ObjectType S c) : Prop :=
  ∀ t i, Reaches D query (.output t) → Reaches D query (.input i) → t.namedType = i.namedType →
    (t.kind = .scalar ∧ i.kind = .scalar) ∨
      (t.kind = .enum ∧ i.kind = .enum ∧ t.values = i.values)

theorem Reaches.isNamed {query : ObjectType S c} {d : Definition S c} (h : Reaches D query d) :
    d.IsNamed := by
  cases h with
  | refl => rfl
  | tail _ hlink =>
    cases hlink with
    | field _ => exact OutputShape.isSome_name?_core _
    | member _ => rfl
    | input _ hlead => exact hlead.isNamed

theorem Catalog.Agree.symm {d e : Definition S c} (h : Agree D d e) : Agree D e d := by
  obtain ⟨hkind, hleaf, hsignature⟩ := h
  exact ⟨hkind.symm, hkind ▸ hleaf, hsignature.symm⟩

theorem agree_of_leaves {t : OutputShape S c} {i : InputShape S.inputs}
    (ht : (Definition.output t).IsNamed) (hi : (Definition.input i : Definition S c).IsNamed)
    (h : (t.kind = .scalar ∧ i.kind = .scalar) ∨
      (t.kind = .enum ∧ i.kind = .enum ∧ t.values = i.values)) :
    Catalog.Agree D (.output t) (.input i) := by
  cases t with
  | list | optional => cases ht
  | object | interface | union => rcases h with ⟨hk, -⟩ | ⟨hk, -⟩ <;> cases hk
  | scalar name =>
    cases i with
    | scalar name' => exact ⟨rfl, .inl rfl, rfl⟩
    | enumeration | object => rcases h with ⟨-, hk⟩ | ⟨hk, -⟩ <;> cases hk
    | list | optional | reference => cases hi
  | enumeration name values =>
    cases i with
    | enumeration name' values' =>
      rcases h with ⟨hk, -⟩ | ⟨-, -, hvalues⟩
      · cases hk
      · exact ⟨rfl, .inr rfl, hvalues⟩
    | scalar | object => rcases h with ⟨hk, -⟩ | ⟨-, hk, -⟩ <;> cases hk
    | list | optional | reference => cases hi

/-- Definitions with `P` agree wherever they share a name. -/
structure Compatible (D : Definitions S) (P : Definition S c → Prop) : Prop where
  same : ∀ d e, P d → P e → d.side = e.side → d.name = e.name →
    d.kind = e.kind ∧ d.signature D = e.signature D
  shared : ∀ d e, P d → P e → d.side = e.side.other → d.name = e.name → Catalog.Agree D d e

theorem Coherent.compatible {query : ObjectType S c} (h : Coherent D query)
    (hshared : SharesLeaves D query) : Compatible D (Reaches D query) where
  same d e hd he hside hname := by
    have hcontents := h d e hd he hside hname
    refine ⟨Definition.kind_eq_of_contents_eq hcontents, ?_⟩
    rw [hd.isNamed.signature_eq, he.isNamed.signature_eq, hcontents, hside]
  shared d e hd he hside hname := by
    cases d with
    | output t =>
      cases e with
      | output _ => cases hside
      | input i => exact agree_of_leaves hd.isNamed he.isNamed (hshared t i hd he hname)
    | input i =>
      cases e with
      | input _ => cases hside
      | output t =>
        exact (agree_of_leaves he.isNamed hd.isNamed (hshared t i he hd hname.symm)).symm

/-! ## Entering without a conflict -/

namespace Catalog
variable {catalog : Catalog S c} {P : Definition S c → Prop} {d : Definition S c}

/-- Whatever is entered has `P` and stands under its own name. -/
def Entered (P : Definition S c → Prop) (catalog : Catalog S c) : Prop :=
  ∀ name r, catalog.Holds name r → name = r.name ∧ P r

theorem Entered.enter (h : catalog.Entered P) (hd : P d) : (catalog.enter d).Entered P := by
  intro name r hr
  rcases holds_enter hr with hr | ⟨rfl, rfl⟩
  · exact h name r hr
  · exact ⟨rfl, hd⟩

/-- What is found under the name of a definition agrees with it, on its own side and on the other. -/
theorem Entered.agrees (h : catalog.Entered P) (hP : Compatible D P) (hd : P d)
    {r : Definition S c} :
    (catalog.entered? d.side d.name = some r →
      r.kind = d.kind ∧ r.signature D = d.signature D) ∧
    (catalog.entered? d.side.other d.name = some r → Agree D r d) := by
  refine ⟨fun hr => ?_, fun hr => ?_⟩
  · obtain ⟨hholds, hside⟩ := entered?_holds hr
    obtain ⟨hname, hPr⟩ := h _ _ hholds
    exact hP.same r d hPr hd hside hname.symm
  · obtain ⟨hholds, hside⟩ := entered?_holds hr
    obtain ⟨hname, hPr⟩ := h _ _ hholds
    exact hP.shared r d hPr hd hside hname.symm

theorem requireKind_self (name : String) (kind : TypeKind) : requireKind name kind kind = .ok () :=
  if_pos rfl

theorem requireSame_self (name : String) (signature : List String) :
    requireSame name signature signature = .ok () :=
  if_pos rfl

theorem requireShared_leaf {kind : TypeKind} (name : String) (h : kind = .scalar ∨ kind = .enum) :
    requireShared name kind kind = .ok () := by
  rcases h with rfl | rfl <;> rfl

/-- An output with `P` is entered or found, never refused. -/
theorem Entered.addOutput (h : catalog.Entered P) (hP : Compatible D P) {s : OutputShape S c}
    (hs : P (.output s)) : ∃ result, catalog.addOutput D s = .ok result := by
  have hagrees {r} := h.agrees hP hs (r := r)
  unfold Catalog.addOutput
  dsimp only
  cases hout : catalog.outputs.lookup s.namedType with
  | some t =>
    obtain ⟨hkind, hsignature⟩ := hagrees.1 (entered?_output hout)
    refine ⟨none, ?_⟩
    change t.kind = s.kind at hkind
    change t.signature D = s.signature D at hsignature
    simp only [hkind, hsignature, requireKind_self, requireSame_self]
    rfl
  | none =>
    cases hin : catalog.inputs.lookup s.namedType with
    | some i =>
      obtain ⟨hkind, hleaf, hsignature⟩ := hagrees.2 (entered?_input hin)
      refine ⟨some (catalog.enter (.output s)), ?_⟩
      change i.kind = s.kind at hkind
      change i.signature = s.signature D at hsignature
      change i.kind = .scalar ∨ i.kind = .enum at hleaf
      rw [hkind] at hleaf
      simp only [hkind, hsignature, requireShared_leaf _ hleaf, requireSame_self]
      rfl
    | none => exact ⟨some _, rfl⟩

/-- An input with `P` is entered or found, never refused. -/
theorem Entered.addInput (h : catalog.Entered P) (hP : Compatible D P) {s : InputShape S.inputs}
    (hs : P (.input s)) : ∃ result, catalog.addInput D s = .ok result := by
  have hagrees {r} := h.agrees hP hs (r := r)
  unfold Catalog.addInput
  dsimp only
  cases hin : catalog.inputs.lookup s.namedType with
  | some i =>
    obtain ⟨hkind, hsignature⟩ := hagrees.1 (entered?_input hin)
    refine ⟨none, ?_⟩
    change i.kind = s.kind at hkind
    change i.signature = s.signature at hsignature
    simp only [hkind, hsignature, requireKind_self, requireSame_self]
    rfl
  | none =>
    cases hout : catalog.outputs.lookup s.namedType with
    | some t =>
      obtain ⟨hkind, hleaf, hsignature⟩ := hagrees.2 (entered?_output hout)
      refine ⟨some (catalog.enter (.input s)), ?_⟩
      change t.kind = s.kind at hkind
      change t.signature D = s.signature at hsignature
      change t.kind = .scalar ∨ t.kind = .enum at hleaf
      rw [hkind] at hleaf
      simp only [hkind, hsignature, requireShared_leaf _ hleaf, requireSame_self]
      rfl
    | none => exact ⟨some _, rfl⟩

end Catalog

/-! ## Runs without a conflict -/

namespace Work
variable {P : Definition S c → Prop} {w w' : Work S c}

/-- What is pending, in line or entered has `P`. -/
structure Sound (D : Definitions S) (P : Definition S c → Prop) (w : Work S c) : Prop where
  inputs : ∀ s ∈ w.inputs, ∀ d, s.LeadsTo D.input d → P (.input d)
  outputs : ∀ s ∈ w.outputs, P (.output s.core)
  entered : w.catalog.Entered P

/-- A turn that neither reports a conflict nor leaves work without `P`. -/
def Safe (D : Definitions S) (P : Definition S c → Prop) (w : Work S c) : Prop :=
  (∃ w', w.turn D = .next w' ∧ w'.Sound D P) ∨ w.turn D = .last (.ok w.catalog)

variable {catalog : Catalog S c} {inputs : List (InputShape S.inputs)}
  {outputs : List (OutputShape S c)}

theorem Sound.enters_input {s : InputShape S.inputs}
    (h : Sound D P ⟨s :: inputs, outputs, catalog⟩) (hP : Compatible D P)
    (hlinks : ∀ d e, P d → d.Links D e → P e) (hs : s.LeadsTo D.input s) :
    Safe D P ⟨s :: inputs, outputs, catalog⟩ := by
  have hPs : P (.input s) := h.inputs s List.mem_cons_self s hs
  have hrest : ∀ t ∈ inputs, ∀ d, t.LeadsTo D.input d → P (.input d) := fun t ht =>
    h.inputs t (List.mem_cons_of_mem _ ht)
  have hturn := turn_of_leadsTo hs inputs outputs catalog
  obtain ⟨result, hadd⟩ := h.entered.addInput hP hPs
  rw [hadd] at hturn
  rcases Catalog.addInput_takes hadd with ⟨rfl, -⟩ | ⟨-, -, rfl⟩
  · exact .inl ⟨_, hturn, hrest, h.outputs, h.entered⟩
  · refine .inl ⟨_, hturn, fun t ht d hd => ?_, h.outputs, h.entered.enter hPs⟩
    rcases List.mem_append.1 ht with ht | ht
    · exact hlinks _ _ hPs (.input ht hd)
    · exact hrest t ht d hd

/-- What is left of an input leads to what the input leads to. -/
theorem Sound.unwraps_input {s t : InputShape S.inputs}
    (h : Sound D P ⟨s :: inputs, outputs, catalog⟩)
    (hturn : turn D ⟨s :: inputs, outputs, catalog⟩ = .next ⟨t :: inputs, outputs, catalog⟩)
    (hlead : ∀ d, t.LeadsTo D.input d → s.LeadsTo D.input d) :
    Safe D P ⟨s :: inputs, outputs, catalog⟩ := by
  refine .inl ⟨_, hturn, fun u hu d hd => ?_, h.outputs, h.entered⟩
  rcases List.mem_cons.1 hu with rfl | hu
  · exact h.inputs s List.mem_cons_self d (hlead d hd)
  · exact h.inputs u (List.mem_cons_of_mem _ hu) d hd

theorem Sound.enters_output {s : OutputShape S c} (h : Sound D P ⟨[], s :: outputs, catalog⟩)
    (hP : Compatible D P) (hlinks : ∀ d e, P d → d.Links D e → P e)
    (hlist : ∀ item, s ≠ .list item) (hopt : ∀ inner, s ≠ .optional inner) :
    Safe D P ⟨[], s :: outputs, catalog⟩ := by
  have hPs : P (.output s) :=
    Catalog.core_eq_self hlist hopt ▸ h.outputs s List.mem_cons_self
  have hrest : ∀ t ∈ outputs, P (.output t.core) := fun t ht =>
    h.outputs t (List.mem_cons_of_mem _ ht)
  have hturn := turn_output (D := D) hlist hopt outputs catalog
  obtain ⟨result, hadd⟩ := h.entered.addOutput hP hPs
  rw [hadd] at hturn
  rcases Catalog.addOutput_takes hadd with ⟨rfl, -⟩ | ⟨-, -, rfl⟩
  · exact .inl ⟨_, hturn, nofun, hrest, h.entered⟩
  · refine .inl ⟨_, hturn, fun t ht d hd => hlinks _ _ hPs (.input ht hd), fun t ht => ?_,
      h.entered.enter hPs⟩
    rcases List.mem_append.1 ht with ht | ht
    · exact hrest t ht
    · exact hlinks _ _ hPs (Catalog.links_of_successor ht)

theorem Sound.unwraps_output {s item : OutputShape S c}
    (h : Sound D P ⟨[], s :: outputs, catalog⟩)
    (hturn : turn D ⟨[], s :: outputs, catalog⟩ = .next ⟨[], outputs ++ [item], catalog⟩)
    (hcore : s.core = item.core) : Safe D P ⟨[], s :: outputs, catalog⟩ :=
  .inl ⟨_, hturn, nofun,
    (Catalog.forall_core_back (P <| .output ·) s item outputs hcore).2 h.outputs, h.entered⟩

/-- No turn reports a conflict among definitions that agree. -/
theorem Sound.safe (h : w.Sound D P) (hP : Compatible D P)
    (hlinks : ∀ d e, P d → d.Links D e → P e) : w.Safe D P := by
  obtain ⟨inputs, outputs, catalog⟩ := w
  cases inputs with
  | cons s inputs =>
    cases s with
    | scalar name => exact h.enters_input hP hlinks (.scalar name)
    | enumeration name values => exact h.enters_input hP hlinks (.enumeration name values)
    | object name fields => exact h.enters_input hP hlinks (.object name fields)
    | list item => exact h.unwraps_input rfl fun _ => .list
    | optional inner => exact h.unwraps_input rfl fun _ => .optional
    | reference name target => exact h.unwraps_input rfl fun _ => .reference
  | nil =>
    cases outputs with
    | nil => exact .inr rfl
    | cons s line =>
      cases s with
      | list item => exact h.unwraps_output rfl rfl
      | optional inner => exact h.unwraps_output rfl rfl
      | _ => exact h.enters_output hP hlinks nofun nofun

theorem Sound.turns (h : w.Sound D P) (hP : Compatible D P)
    (hlinks : ∀ d e, P d → d.Links D e → P e) (hw : w.Turns D w') : w'.Sound D P := by
  induction hw with
  | refl => exact h
  | tail _ hnext ih =>
    rcases ih.safe hP hlinks with ⟨v, hv, hsound⟩ | hlast
    · rw [hnext] at hv
      cases hv
      exact hsound
    · rw [hnext] at hlast
      cases hlast

/-- Whatever is returned is a catalog of definitions with `P`. -/
theorem Sound.returns (h : w.Sound D P) (hP : Compatible D P)
    (hlinks : ∀ d e, P d → d.Links D e → P e) {r : Except (Rejection S c) (Catalog S c)}
    (hr : w.Returns D r) : ∃ catalog, r = .ok catalog ∧ catalog.Entered P := by
  obtain ⟨w', hw, hlast⟩ := hr
  have hsound := h.turns hP hlinks hw
  rcases hsound.safe hP hlinks with ⟨v, hv, -⟩ | hok
  · rw [hlast] at hv
    cases hv
  · rw [hlast] at hok
    cases hok
    exact ⟨_, rfl, hsound.entered⟩

end Work

/-! ## Accepted query types -/

section Accepted
variable {query : ObjectType S c}

/-- No false rejection: a query type is accepted if every definition of the table of inputs comes
down to a scalar, an enum or an input object, what it reaches under one name on one side declares the
same, a name reached on both sides is a scalar or an enum with the same tokens on both, and every
reached definition keeps the rules. -/
theorem ofQuery_accepts (hleads : ∀ i, ∃ d, (D.input i).shape.LeadsTo D.input d)
    (hcoherent : Coherent D query) (hshared : SharesLeaves D query)
    (hrules : ∀ d, Reaches D query d → d.WellFormed D) :
    ∃ schema, Schema.ofQuery D query = .ok schema := by
  obtain ⟨r, hreturns, hcollect⟩ := collect_returns hleads (.object query.shape) Catalog.empty
  have hstart : Work.Sound D (Reaches D query) ⟨[], [.object query.shape], Catalog.empty⟩ := by
    refine ⟨nofun, fun s hs => ?_, fun name r hr => ?_⟩
    · rw [List.mem_singleton.1 hs]
      exact .refl
    · cases r <;> cases hr
  obtain ⟨catalog, rfl, hentered⟩ := hstart.returns (hcoherent.compatible hshared)
    (fun _ _ hd hlink => hd.tail hlink) hreturns
  have hchecked : checkDefinitions D catalog.outputs catalog.inputs = .ok () :=
    checkDefinitions_eq_ok_iff.2
      ⟨fun o ho => hrules _ (hentered o.1 (.output o.2) ho).2,
        fun i hi => hrules _ (hentered i.1 (.input i.2) hi).2⟩
  refine ⟨⟨query, catalog⟩, ?_⟩
  rw [ofQuery_of_collect hcollect, hchecked]
  rfl

end Accepted

/-! ## Depths of trees -/

namespace Trees
open JsonHost

/-- The depth of a tree up to a limit, which is a number as the depth is. -/
def limitedDepth : ObjectType (host 1 1) .thunk :=
  ⟨"Query", [("depth", .declared (.withArguments
    (.merge pair (.single "tree" .argument byName none)
      (.single "limit" .argument (.scalar "Int" .ok) none))
    ⟨Fin.last 0, .nil⟩ fun _ arguments => .pure arguments))]⟩

/-- The query reaches itself, numbers on both sides, and trees. -/
theorem eq_of_reaches {d : Definition (host 1 1) .thunk} (h : Reaches definitions limitedDepth d) :
    d = limitedDepth.definition ∨ d = .output (.scalar "Int") ∨ d = .input (.scalar "Int") ∨
      d = .input (definitions.input (Fin.last 0)).shape := by
  induction h with
  | refl => exact .inl rfl
  | tail _ hlink ih =>
    rcases ih with rfl | rfl | rfl | rfl
    · cases hlink with
      | field hf =>
        rw [List.mem_singleton.1 hf]
        exact .inr (.inl rfl)
      | member hm => cases hm
      | input hs hlead =>
        rcases List.mem_pair.1 hs with rfl | rfl
        · cases hlead with
          | reference hlead =>
            cases hlead
            exact .inr (.inr (.inr rfl))
        · cases hlead
          exact .inr (.inr (.inl rfl))
    · exact absurd hlink (Definition.not_links rfl rfl rfl)
    · exact absurd hlink (Definition.not_links rfl rfl rfl)
    · cases hlink with
      | field hf => cases hf
      | member hm => cases hm
      | input hs hlead =>
        rw [List.mem_singleton.1 hs] at hlead
        cases hlead with
        | list hlead =>
          cases hlead with
          | reference hlead =>
            cases hlead
            exact .inr (.inr (.inr rfl))

/-- The query type is accepted, though trees refer to themselves and numbers stand on both sides. -/
theorem limitedDepth_accepted :
    ∃ schema, Schema.ofQuery definitions limitedDepth = .ok schema := by
  refine ofQuery_accepts (fun _ => ⟨_, .object _ _⟩) ?_ ?_ ?_
  · intro d e hd he _ hname
    rcases eq_of_reaches hd with rfl | rfl | rfl | rfl <;>
      rcases eq_of_reaches he with rfl | rfl | rfl | rfl
    all_goals first | rfl | exact absurd hname (by decide)
  · intro t i ht hi hname
    rcases eq_of_reaches ht with h | h | h | h <;> cases h <;>
      rcases eq_of_reaches hi with h | h | h | h <;> cases h
    · exact absurd hname (by decide)
    · exact absurd hname (by decide)
    · exact .inl ⟨rfl, rfl⟩
    · exact absurd hname (by decide)
  · intro d hd
    rcases eq_of_reaches hd with rfl | rfl | rfl | rfl
    · exact checkOutput_eq_ok_iff.1 (by rfl)
    · exact checkOutput_eq_ok_iff.1 (by rfl)
    · exact checkInput_eq_ok_iff.1 (by rfl)
    · exact checkInput_eq_ok_iff.1 (by rfl)

end Trees
end QueryTypes
