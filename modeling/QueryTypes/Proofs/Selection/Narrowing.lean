import QueryTypes.Bound.Basic

/-!
# Narrowing and matching

A value of an interface or union narrows to the first member that accepts it, and
`AbstractType.matchingMembers` names all that do. Members are adapted one by one and types as a
whole, in any order; `Member.narrowing` composes all of that into one partial mapping of values.
Narrowing and matching both come down to it, before binding and after.
-/

namespace QueryTypes

variable {S : Signature} {c d e : S.Context}

/-! ## Members -/

namespace Member

/-- The mapping of a member with its adapters composed into it. -/
def narrowing : {c : S.Context} → Member S c → Narrowing S.Value S.Value
  | _, .concrete _ narrowing => narrowing
  | _, .contramapped f inner => inner.narrowing.contramap f
  | _, .converted _ inner => inner.narrowing

/-- The object type of a member, in the context it was written in. -/
def object : {c : S.Context} → Member S c → Σ origin, ObjectType S origin
  | c, .concrete object _ => ⟨c, object⟩
  | _, .contramapped _ inner => inner.object
  | _, .converted _ inner => inner.object

theorem name_object : {c : S.Context} → (m : Member S c) → m.object.2.name = m.name
  | _, .concrete _ _ => rfl
  | _, .contramapped _ inner => name_object inner
  | _, .converted _ inner => name_object inner

theorem accepts_eq : {c : S.Context} → (m : Member S c) → (v : S.Value) →
    m.accepts v = (m.narrowing.apply v).isSome
  | _, .concrete _ _, _ => rfl
  | _, .contramapped f inner, v => accepts_eq inner (f v)
  | _, .converted _ inner, v => accepts_eq inner v

end Member

/-- The object type a value is bound to, and the value. -/
def BoundObject.held (o : BoundObject S c) : (Σ origin, ObjectType S origin) × S.Value :=
  (⟨o.origin, o.type⟩, o.value)

/-- A member binds what its mapping produces to its object type. -/
theorem Member.held_narrow : {c : S.Context} → (m : Member S c) → (v : S.Value) →
    (m.narrow v).map BoundObject.held = (m.narrowing.apply v).map fun w => (m.object, w)
  | _, .concrete object narrowing, v => by
    change Option.map _ (Option.map _ _) = _
    rw [Option.map_map]
    rfl
  | _, .contramapped f inner, v => Member.held_narrow inner (f v)
  | _, .converted n inner, v => by
    have hheld : BoundObject.held ∘ BoundObject.convert n = BoundObject.held (S := S) := rfl
    change Option.map _ (Option.map _ _) = _
    rw [Option.map_map, hheld]
    exact Member.held_narrow inner v

/-! ## Adapters of the whole -/

/-- Adapters of an interface or union as a whole, first one innermost. -/
inductive Adapters (S : Signature) : S.Context → S.Context → Type where
  | nil {c : S.Context} : Adapters S c c
  | contramap {c d : S.Context} (inner : Adapters S c d) (f : S.Value → S.Value) : Adapters S c d
  | convert {c d e : S.Context} (inner : Adapters S c d) (n : S.Conversion d e) : Adapters S c e

namespace Adapters

/-- What the adapters make of a value before it reaches the adapted type. -/
def probe : {d : S.Context} → Adapters S c d → S.Value → S.Value
  | _, .nil => id
  | _, .contramap inner f => inner.probe ∘ f
  | _, .convert inner _ => inner.probe

/-- The adapted type. -/
def type (t : AbstractType S c) : {d : S.Context} → Adapters S c d → AbstractType S d
  | _, .nil => t
  | _, .contramap inner f => (inner.type t).contramap f
  | _, .convert inner n => (inner.type t).convert n

/-- A member as it stands in the adapted type. -/
def member (m : Member S c) : {d : S.Context} → Adapters S c d → Member S d
  | _, .nil => m
  | _, .contramap inner f => .contramapped f (inner.member m)
  | _, .convert inner n => .converted n (inner.member m)

theorem name_type (t : AbstractType S c) (stack : Adapters S c d) :
    (stack.type t).name = t.name := by
  induction stack with
  | nil => rfl
  | contramap inner f ih => rw [type, AbstractType.name_contramap, ih]
  | convert inner n ih => rw [type, AbstractType.name_convert, ih]

theorem members_type (t : AbstractType S c) (stack : Adapters S c d) :
    (stack.type t).members = t.members.map fun m => stack.member m := by
  induction stack with
  | nil => exact (List.map_id _).symm
  | contramap inner f ih =>
    rw [type, AbstractType.members_contramap, ih, List.map_map]
    rfl
  | convert inner n ih =>
    rw [type, AbstractType.members_convert, ih, List.map_map]
    rfl

variable (m : Member S c) (stack : Adapters S c d)

theorem name_member : (stack.member m).name = m.name := by
  induction stack with
  | nil => rfl
  | contramap _ _ ih => exact ih
  | convert _ _ ih => exact ih

theorem object_member : (stack.member m).object = m.object := by
  induction stack with
  | nil => rfl
  | contramap _ _ ih => exact ih
  | convert _ _ ih => exact ih

/-- The adapters of the whole transform the value once, in front of those of the member. -/
theorem narrowing_member :
    (stack.member m).narrowing = m.narrowing.contramap stack.probe := by
  induction stack with
  | nil => rfl
  | contramap inner f ih => exact congrArg (Narrowing.contramap f) ih
  | convert _ _ ih => exact ih

variable {m stack} {v : S.Value}

theorem held_member : ((stack.member m).narrow v).map BoundObject.held =
    ((m.narrowing.contramap stack.probe).apply v).map fun w => (m.object, w) := by
  rw [Member.held_narrow, narrowing_member, object_member]

theorem narrow_member_eq_none_iff : (stack.member m).narrow v = none ↔
    (m.narrowing.contramap stack.probe).apply v = none := by
  rw [← Option.map_eq_none_iff (f := BoundObject.held), held_member, Option.map_eq_none_iff]

theorem narrow_member_eq_some {o : BoundObject S d} (h : (stack.member m).narrow v = some o) :
    (m.narrowing.contramap stack.probe).apply v = some o.value ∧
      (⟨o.origin, o.type⟩ : Σ origin, ObjectType S origin) = m.object := by
  have hheld : ((stack.member m).narrow v).map BoundObject.held = _ := held_member
  rw [h] at hheld
  obtain ⟨w, hw, hholds⟩ := Option.map_eq_some_iff.1 hheld.symm
  have hvalue : w = o.value := congrArg Prod.snd hholds
  exact ⟨hvalue ▸ hw, (congrArg Prod.fst hholds).symm⟩

end Adapters

/-! ## The first member that accepts -/

namespace AbstractType

/-- The names of the members whose composed mapping accepts a value that `probe` has transformed, in
declared order. -/
def accepting (t : AbstractType S c) (probe : S.Value → S.Value) (v : S.Value) : List String :=
  (t.members.filter fun m => ((m.narrowing.contramap probe).apply v).isSome).map Member.name

/-- What narrowing comes to: the object of the first member whose composed mapping accepts the value
that `probe` has transformed, holding what that mapping produced, or else the error that names the
type. -/
structure Narrows (t : AbstractType S c) (probe : S.Value → S.Value) (v : S.Value)
    (r : Except ResolveError (BoundObject S d)) : Prop where
  ok_iff : (∃ o, r = .ok o) ↔ t.accepting probe v ≠ []
  first : ∀ o, r = .ok o → (t.accepting probe v).head? = some o.typename ∧
    ∃ before m after, t.members = before ++ m :: after ∧
      (∀ m' ∈ before, (m'.narrowing.contramap probe).apply v = none) ∧
      (m.narrowing.contramap probe).apply v = some o.value ∧
      (⟨o.origin, o.type⟩ : Σ origin, ObjectType S origin) = m.object
  refused : t.accepting probe v = [] → r = .error (.noMatchingMember t.name)

variable {t : AbstractType S c} {stack : Adapters S c d} {probe : S.Value → S.Value} {v : S.Value}

theorem matchingMembers_adapted :
    (stack.type t).matchingMembers v = t.accepting stack.probe v := by
  have hname : Member.name ∘ (fun m : Member S c => stack.member m) = Member.name :=
    funext fun m => stack.name_member m
  have haccepts : (fun m : Member S d => m.accepts v) ∘ (fun m : Member S c => stack.member m) =
      fun m => ((m.narrowing.contramap stack.probe).apply v).isSome :=
    funext fun m => by rw [Function.comp_apply, Member.accepts_eq, stack.narrowing_member]
  rw [matchingMembers, stack.members_type, List.filter_map, List.map_map, hname, haccepts,
    accepting]

/-- Up to the first member that accepts the value no name is listed, and then that of the member. -/
theorem accepting_of_first {before after : List (Member S c)} {m : Member S c} {w : S.Value}
    (hmembers : t.members = before ++ m :: after)
    (hbefore : ∀ m' ∈ before, (m'.narrowing.contramap probe).apply v = none)
    (hm : (m.narrowing.contramap probe).apply v = some w) :
    (t.accepting probe v).head? = some m.name := by
  have hnone : before.filter (fun m => ((m.narrowing.contramap probe).apply v).isSome) = [] :=
    List.filter_eq_nil_iff.2 fun m' hm' => by simp [hbefore m' hm']
  rw [accepting, hmembers, List.filter_append, hnone, List.nil_append,
    List.filter_cons_of_pos (by rw [hm]; rfl), List.map_cons, List.head?_cons]

theorem narrows_adapted : t.Narrows stack.probe v ((stack.type t).narrow v) := by
  unfold narrow
  rw [stack.members_type, List.findSome?_map]
  cases hfound : t.members.findSome?
      ((fun m : Member S d => m.narrow v) ∘ fun m => stack.member m) with
  | none =>
    have hempty : t.accepting stack.probe v = [] := by
      rw [accepting, List.map_eq_nil_iff, List.filter_eq_nil_iff]
      intro m hm
      rw [Adapters.narrow_member_eq_none_iff.1 (List.findSome?_eq_none_iff.1 hfound m hm)]
      exact Bool.false_ne_true
    exact ⟨by simp [hempty], by simp, fun _ => by rw [stack.name_type]⟩
  | some o =>
    obtain ⟨before, m, after, hmembers, hm, hrefused⟩ := List.findSome?_eq_some_iff.1 hfound
    obtain ⟨hproduced, hobject⟩ := Adapters.narrow_member_eq_some hm
    have hbefore : ∀ m' ∈ before, (m'.narrowing.contramap stack.probe).apply v = none :=
      fun m' hm' => Adapters.narrow_member_eq_none_iff.1 (hrefused m' hm')
    have hhead : (t.accepting stack.probe v).head? = some o.typename := by
      rw [accepting_of_first hmembers hbefore hproduced, ← m.name_object, ← hobject]
      rfl
    have hsome : t.accepting stack.probe v ≠ [] := fun hempty => by simp [hempty] at hhead
    refine ⟨⟨fun _ => hsome, fun _ => ⟨o, rfl⟩⟩, fun o' ho' => ?_, fun hempty => absurd hempty hsome⟩
    cases ho'
    exact ⟨hhead, before, m, after, hmembers, hbefore, hproduced, hobject⟩

/-- Converting the bound object changes none of this. -/
theorem Narrows.convert {r : Except ResolveError (BoundObject S d)} (h : t.Narrows probe v r)
    (n : S.Conversion d e) : t.Narrows probe v (r.map (BoundObject.convert n)) := by
  cases r with
  | ok o =>
    refine ⟨⟨fun _ => h.ok_iff.1 ⟨o, rfl⟩, fun _ => ⟨_, rfl⟩⟩, fun o' ho' => ?_, fun hempty => ?_⟩
    · cases ho'
      exact h.first o rfl
    · cases h.refused hempty
  | error reason =>
    refine ⟨⟨fun ⟨_, ho⟩ => (nomatch ho), fun hsome => ?_⟩, fun _ ho => (nomatch ho),
      fun hempty => ?_⟩
    · obtain ⟨_, ho⟩ := h.ok_iff.2 hsome
      cases ho
    · cases h.refused hempty
      rfl

theorem narrows_bound (chain : S.Conversions d e) :
    t.Narrows stack.probe v (chain.carry BoundAbstract.convert ((stack.type t).bind v)).narrow := by
  induction chain with
  | nil => exact narrows_adapted
  | snoc chain n ih => exact ih.convert n

/-- However an interface or union and its members have been adapted, the names that match a value are
those of the members whose composed mapping accepts it, in declared order. Narrowing gives a value
exactly if there are any: the object of the first of these members, holding what its mapping
produced. Otherwise the error names the type. The same holds for the bound value, through any chain
of conversions. -/
theorem narrow_agrees_with_matching (t : AbstractType S c) (stack : Adapters S c d) (v : S.Value) :
    (stack.type t).matchingMembers v = t.accepting stack.probe v ∧
      t.Narrows stack.probe v ((stack.type t).narrow v) ∧
      ∀ {e : S.Context} (chain : S.Conversions d e),
        t.Narrows stack.probe v (chain.carry BoundAbstract.convert ((stack.type t).bind v)).narrow :=
  ⟨matchingMembers_adapted, narrows_adapted, narrows_bound⟩

end AbstractType
end QueryTypes
