import QueryTypes.Proofs.Catalog.Growth

/-!
# What a collection enters

`Collected` says what a whole collection does: entries stay, each new one is keyed by its own name,
and whatever a new one links to has an entry of its name that agrees with it.
-/

namespace QueryTypes

variable {S : Signature} {c : S.Context}

namespace Catalog

/-! ## A whole collection -/

/-- Everything a definition links to is covered, and its inputs do lead to definitions. -/
structure Completes (D : Definitions S) (catalog : Catalog S c) (d : Definition S c) : Prop where
  links : ∀ e, d.Links D e → catalog.Covers D e
  leads : ∀ s ∈ d.inputs, ∃ i, s.LeadsTo D.input i

theorem Completes.mono {D : Definitions S} {before after : Catalog S c} {d : Definition S c}
    (hd : before.Completes D d) (h : before.Extends after) : after.Completes D d :=
  ⟨fun e he => (hd.links e he).mono h, hd.leads⟩

/-- What collecting does to a catalog: entries stay, and each new entry stands under its own name,
satisfies `P`, and is completed. -/
structure Collected (D : Definitions S) (P : Definition S c → Prop) (before after : Catalog S c) :
    Prop where
  kept : before.Extends after
  grown : ∀ name r, after.Holds name r → before.Holds name r ∨
    (name = r.name ∧ P r ∧ after.Completes D r)

section Collected
variable {D : Definitions S} {P : Definition S c → Prop}

theorem Collected.refl (catalog : Catalog S c) : Collected D P catalog catalog :=
  ⟨.refl _, fun _ _ h => .inl h⟩

theorem Collected.trans {c₁ c₂ c₃ : Catalog S c} (h : Collected D P c₁ c₂)
    (h' : Collected D P c₂ c₃) : Collected D P c₁ c₃ := by
  refine ⟨h.kept.trans h'.kept, fun name r hr => ?_⟩
  rcases h'.grown name r hr with hr | hr
  · rcases h.grown name r hr with hr | ⟨hn, hp, hl⟩
    · exact .inl hr
    · exact .inr ⟨hn, hp, hl.mono h'.kept⟩
  · exact .inr hr

/-- A definition is entered, then completed. -/
theorem Collected.of_enter {before after : Catalog S c} {d : Definition S c} (hd : P d)
    (h : Collected D P (before.enter d) after) (hl : after.Completes D d) :
    Collected D P before after := by
  refine ⟨(extends_enter before d).trans h.kept, fun name r hr => ?_⟩
  rcases h.grown name r hr with hr | hr
  · rcases holds_enter hr with hr | ⟨rfl, rfl⟩
    · exact .inl hr
    · exact .inr ⟨rfl, hd, hl⟩
  · exact .inr hr

end Collected

/-! ## Collecting inputs -/

/-- The input leads to a definition that the catalog covers. -/
def Settles (D : Definitions S) (catalog : Catalog S c) (s : InputShape S.inputs) : Prop :=
  ∃ d, s.LeadsTo D.input d ∧ catalog.Covers D (.input d)

section Collecting
variable {D : Definitions S} {P : Definition S c → Prop} {before after final : Catalog S c}

theorem Settles.mono {s : InputShape S.inputs} (hs : before.Settles D s)
    (h : before.Extends after) : after.Settles D s := by
  obtain ⟨d, hd, hc⟩ := hs
  exact ⟨d, hd, hc.mono h⟩

theorem Settles.covers {s d : InputShape S.inputs} (hs : after.Settles D s)
    (hd : s.LeadsTo D.input d) : after.Covers D (.input d) := by
  obtain ⟨e, he, hc⟩ := hs
  exact hd.unique he ▸ hc

theorem completes_of_settles {d : Definition S c}
    (hf : ∀ f ∈ d.fields, after.Covers D (.output (f.output.shape D).core))
    (hm : ∀ m ∈ d.members, after.Covers D (.output (.object m)))
    (hi : ∀ s ∈ d.inputs, after.Settles D s) : after.Completes D d := by
  refine ⟨fun e he => ?_, fun s hs => ?_⟩
  · cases he with
    | field h => exact hf _ h
    | member h => exact hm _ h
    | input hs hlead => exact (hi _ hs).covers hlead
  · obtain ⟨i, hlead, -⟩ := hi s hs
    exact ⟨i, hlead⟩

/-- `P` travels along the links of whatever is entered by the end. -/
theorem collectPending_collected (hP : ∀ d e, final.Holds d.name d → P d → d.Links D e → P e)
    {fuel : Nat} {pending : List (InputShape S.inputs)}
    (h : collectPending D fuel pending before = .ok after) (hfinal : after.Extends final)
    (hp : ∀ s ∈ pending, ∀ d, s.LeadsTo D.input d → P (.input d)) :
    Collected D P before after ∧ ∀ s ∈ pending, after.Settles D s := by
  fun_induction collectPending D fuel pending before with
  | case1 => cases h; exact ⟨.refl _, by simp⟩
  | case2 => cases h
  | case3 => cases h
  | case4 => cases h
  | case5 fuel s pending before shape hs hadd ih =>
    have hlead := InputShape.leadsTo_of_definition? hs
    obtain ⟨hc, hset⟩ := ih h fun t ht => hp t (List.mem_cons_of_mem _ ht)
    rcases addInput_takes hadd with ⟨-, hcov⟩ | ⟨-, -, hr⟩
    · refine ⟨hc, fun t ht => ?_⟩
      rcases List.mem_cons.1 ht with rfl | ht
      · exact ⟨shape, hlead, hcov.mono hc.kept⟩
      · exact hset t ht
    · cases hr
  | case6 fuel s pending before shape hs extended hadd ih =>
    have hlead := InputShape.leadsTo_of_definition? hs
    have hshape : P (.input shape) := hp s List.mem_cons_self shape hlead
    rcases addInput_takes hadd with ⟨hr, -⟩ | ⟨hnone, -, hr⟩
    · cases hr
    cases hr
    have hheld : final.Holds shape.namedType (.input shape) :=
      ((collectPending_grows h).extends.trans hfinal).holds (holds_enter_self before (.input shape))
    -- the slots of the new entry go first, so all of them are settled when the line is done
    obtain ⟨hc, hset⟩ := ih h fun t ht d hd => by
      rcases List.mem_append.1 ht with ht | ht
      · exact hP (.input shape) _ hheld hshape (.input ht hd)
      · exact hp t (List.mem_cons_of_mem _ ht) d hd
    have hdone : after.Completes D (.input shape) :=
      completes_of_settles (by simp [Definition.fields]) (by simp [Definition.members])
        fun t ht => hset t (List.mem_append_left _ ht)
    refine ⟨.of_enter hshape hc hdone, fun t ht => ?_⟩
    rcases List.mem_cons.1 ht with rfl | ht
    · exact ⟨shape, hlead, (covers_enter hnone).mono hc.kept⟩
    · exact hset t (List.mem_append_right _ ht)

theorem collectArguments_collected (hP : ∀ d e, final.Holds d.name d → P d → d.Links D e → P e)
    {fields : List (FieldShape S c)} (h : before.collectArguments D fields = .ok after)
    (hfinal : after.Extends final)
    (hp : ∀ s ∈ fields.flatMap fun f => f.arguments.map Slot.input, ∀ d,
      s.LeadsTo D.input d → P (.input d)) :
    Collected D P before after ∧
      ∀ s ∈ fields.flatMap fun f => f.arguments.map Slot.input, after.Settles D s := by
  unfold collectArguments at h
  generalize (fields.flatMap fun f => f.arguments.map Slot.input) = inputs at h hp ⊢
  induction inputs generalizing before with
  | nil => cases h; exact ⟨.refl _, by simp⟩
  | cons s rest ih =>
    rw [List.foldlM_cons] at h
    obtain ⟨mid, hmid, h⟩ := Outcome.bind_eq_ok h
    have hmore := (collectInputs_grows h).extends.trans hfinal
    obtain ⟨hc, hset⟩ := collectPending_collected hP hmid hmore (by
      intro t ht; rw [List.mem_singleton.1 ht]; exact hp s List.mem_cons_self)
    obtain ⟨hc', hset'⟩ := ih h fun t ht => hp t (List.mem_cons_of_mem _ ht)
    refine ⟨hc.trans hc', fun t ht => ?_⟩
    rcases List.mem_cons.1 ht with rfl | ht
    · exact (hset _ (List.mem_singleton.2 rfl)).mono hc'.kept
    · exact hset' t ht

/-! ## Collecting outputs -/

theorem links_of_successor {s t : OutputShape S c} (ht : t ∈ s.successors D) :
    (Definition.output s).Links D (.output t.core) := by
  rcases List.mem_append.1 ht with ht | ht
  · obtain ⟨f, hf, rfl⟩ := List.mem_map.1 ht
    exact .field hf
  · obtain ⟨m, hm, rfl⟩ := List.mem_map.1 ht
    exact .member hm

/-- One more list or optional taken off: the output goes to the back, its core stays what it was. -/
theorem forall_core_back (p : OutputShape S c → Prop) (s item : OutputShape S c)
    (line : List (OutputShape S c)) (hs : s.core = item.core) :
    (∀ t ∈ line ++ [item], p t.core) ↔ ∀ t ∈ s :: line, p t.core := by
  simp only [List.forall_mem_append, List.forall_mem_cons, List.not_mem_nil, false_implies,
    implies_true, and_true, hs]
  exact and_comm

theorem core_eq_self {s : OutputShape S c} (hlist : ∀ item, s ≠ .list item)
    (hopt : ∀ inner, s ≠ .optional inner) : s.core = s := by
  cases s with
  | list item => exact absurd rfl (hlist item)
  | optional inner => exact absurd rfl (hopt inner)
  | _ => rfl

theorem collectLine_collected (hP : ∀ d e, final.Holds d.name d → P d → d.Links D e → P e)
    {fuel : Nat} {line : List (OutputShape S c)} (h : collectLine D fuel line before = .ok after)
    (hfinal : after.Extends final) (hp : ∀ s ∈ line, P (.output s.core)) :
    Collected D P before after ∧ ∀ s ∈ line, after.Covers D (.output s.core) := by
  -- what is put in line has `P`, because `P` travels along links
  fun_induction collectLine D fuel line before with
  | case1 => cases h; exact ⟨.refl _, by simp⟩
  | case2 => cases h
  | case3 fuel item line before ih =>
    have hline := (forall_core_back (P <| .output ·) (.list item) item line rfl).2 hp
    obtain ⟨hc, hset⟩ := ih h hline
    exact ⟨hc, (forall_core_back (after.Covers D <| .output ·) (.list item) item line rfl).1 hset⟩
  | case4 fuel inner line before ih =>
    have hline := (forall_core_back (P <| .output ·) (.optional inner) inner line rfl).2 hp
    obtain ⟨hc, hset⟩ := ih h hline
    exact ⟨hc,
      (forall_core_back (after.Covers D <| .output ·) (.optional inner) inner line rfl).1 hset⟩
  | case5 => cases h
  | case6 fuel s line before hlist hopt hadd ih =>
    have hcore : s.core = s := core_eq_self hlist hopt
    obtain ⟨hc, hset⟩ := ih h fun t ht => hp t (List.mem_cons_of_mem _ ht)
    rcases addOutput_takes hadd with ⟨-, hcov⟩ | ⟨-, -, hr⟩
    · refine ⟨hc, fun t ht => ?_⟩
      rcases List.mem_cons.1 ht with rfl | ht
      · exact hcore.symm ▸ hcov.mono hc.kept
      · exact hset t ht
    · cases hr
  | case7 fuel s line before hlist hopt extended hadd ih =>
    have hcore : s.core = s := core_eq_self hlist hopt
    have hs : P (.output s) := hcore ▸ hp s List.mem_cons_self
    rcases addOutput_takes hadd with ⟨hr, -⟩ | ⟨hnone, -, hr⟩
    · cases hr
    cases hr
    obtain ⟨mid, hargs, h⟩ := Outcome.bind_eq_ok h
    have hmore := (collectLine_grows h).extends.trans hfinal
    have hheld : final.Holds s.namedType (.output s) :=
      ((collectInputs_grows hargs).extends.trans hmore).holds (holds_enter_self before (.output s))
    obtain ⟨hc, hset⟩ := collectArguments_collected hP hargs hmore fun t ht d hd =>
      hP (.output s) _ hheld hs (.input ht hd)
    obtain ⟨hc', hset'⟩ := ih mid h fun t ht => by
      rcases List.mem_append.1 ht with ht | ht
      · exact hp t (List.mem_cons_of_mem _ ht)
      · exact hP (.output s) _ hheld hs (links_of_successor ht)
    have hnext : ∀ t ∈ s.successors D, after.Covers D (.output t.core) := fun t ht =>
      hset' t (List.mem_append_right _ ht)
    have hdone : after.Completes D (.output s) :=
      completes_of_settles (fun f hf => hnext _ (List.mem_append_left _ (List.mem_map_of_mem hf)))
        (fun m hm => hnext (.object m) (List.mem_append_right _ (List.mem_map_of_mem hm)))
        fun t ht => (hset t ht).mono hc'.kept
    refine ⟨.of_enter hs (hc.trans hc') hdone, fun t ht => ?_⟩
    rcases List.mem_cons.1 ht with rfl | ht
    · exact hcore.symm ▸ (covers_enter hnone).mono (hc.trans hc').kept
    · exact hset' t (List.mem_append_left _ ht)

end Collecting
end Catalog
end QueryTypes
