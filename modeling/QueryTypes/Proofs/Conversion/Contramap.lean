import QueryTypes.Proofs.Conversion.Agreement
import QueryTypes.Proofs.Selection.Narrowing

/-!
# Types for other parents

Fields, members and whole types can be adapted to other parents, each by a path of its own, and
between conversions. `ObjectType.Acts` and `AbstractType.Acts` say that one type behaves on a parent
as another does on what a function makes of the parent. The relation composes, conversions keep it,
and two types that act on a third one in the same way act on each other as the identity, so the laws
of contramap all come from one lemma on held fields and one on members.
-/

namespace QueryTypes

variable {S : Signature} {c d e : S.Context} {D : Definitions S} {f g : S.Value → S.Value}

/-! ## Fields -/

/-- A held field declares what another does, and resolves on a parent as the other does on what `f`
makes of the parent. -/
structure Resolver.Acts (D : Definitions S) (f : S.Value → S.Value) (r' r : Resolver S c) :
    Prop where
  arguments : r'.arguments = r.arguments
  output : r'.output = r.output
  resolve : ∀ name parent args, r'.resolve D name parent args = r.resolve D name (f parent) args

theorem Resolver.acts_contramapped (r : Resolver S c) : (Resolver.contramapped f r).Acts D f r :=
  ⟨rfl, rfl, fun _ _ _ => rfl⟩

/-- A field may be adapted before it is held. -/
theorem Resolver.acts_declared (field : Field S c) :
    (Resolver.declared (field.contramap f)).Acts D f (.declared field) := by
  cases field <;> exact ⟨rfl, rfl, fun _ _ _ => rfl⟩

namespace Fields

/-- Fields declare what others do, and resolve on a parent as the others do on what `f` makes of the
parent. -/
structure Acts (D : Definitions S) (f : S.Value → S.Value) (fields' fields : Fields S c) :
    Prop where
  shapes : fields'.shapes = fields.shapes
  resolve : ∀ owner parent field args,
    fields'.resolve D owner parent field args = fields.resolve D owner (f parent) field args
  resolveNamed : ∀ owner parent field args,
    fields'.resolveNamed D owner parent field args =
      fields.resolveNamed D owner (f parent) field args

/-- Fields built one by one from the same things act on each other if each two of them do. -/
theorem acts_map {ι : Type} {r' r : ι → Resolver S c} (h : ∀ i, (r' i).Acts D f (r i))
    (named : List (String × ι)) :
    Fields.Acts D f (named.map fun p => (p.1, r' p.2)) (named.map fun p => (p.1, r p.2)) := by
  refine ⟨?_, fun owner parent field args => ?_, fun owner parent field args => ?_⟩
  · simp only [shapes, List.map_map, Function.comp_def, (h _).arguments, (h _).output]
  · simp only [resolve, Keyed.lookup_map]
    cases named.lookup field with
    | none => rfl
    | some i => simp only [Option.map_some, (h i).resolve]
  · simp only [resolveNamed, Keyed.lookup_map]
    cases named.lookup field with
    | none => rfl
    | some i => simp only [Option.map_some, (h i).arguments, (h i).resolve]

theorem acts_contramap (fields : Fields S c) : Fields.Acts D f (fields.contramap f) fields := by
  have h : Fields.Acts D f (fields.contramap f) (fields.map fun p => (p.1, p.2)) :=
    acts_map Resolver.acts_contramapped fields
  simpa using h

theorem acts_ofDeclared (fields : List (String × Field S c)) :
    Fields.Acts D f (.ofDeclared (fields.map fun p => (p.1, p.2.contramap f)))
      (.ofDeclared fields) := by
  have h : Fields.Acts D f (fields.map fun p => (p.1, .declared (p.2.contramap f)))
      (.ofDeclared fields) := acts_map Resolver.acts_declared fields
  simpa [Fields.ofDeclared, Function.comp_def] using h

end Fields

/-! ## Objects -/

namespace ObjectType

/-- An object type declares what another does and behaves on a parent as the other does on what `f`
makes of the parent: field by field, and along every walk from the bound value. -/
structure Acts (D : Definitions S) (f : S.Value → S.Value) (o' o : ObjectType S c) : Prop where
  name : o'.name = o.name
  shape : o'.shape = o.shape
  resolve : ∀ parent field args,
    o'.resolve D parent field args = o.resolve D (f parent) field args
  resolveNamed : ∀ parent field args,
    o'.resolveNamed D parent field args = o.resolveNamed D (f parent) field args
  walk : ∀ (run : {α : Type} → S.Deferred c α → α) (path : List Action) parent,
    Reached.Same D ((Reached.value (.object (o'.bind parent))).walk D run path)
      ((Reached.value (.object (o.bind (f parent)))).walk D run path)

/-- What two types declare and resolve decides every walk. -/
theorem acts_of_resolve {o' o : ObjectType S c} (hname : o'.name = o.name)
    (hshape : o'.shape = o.shape)
    (hresolve : ∀ parent field args,
      o'.resolve D parent field args = o.resolve D (f parent) field args)
    (hnamed : ∀ parent field args,
      o'.resolveNamed D parent field args = o.resolveNamed D (f parent) field args) :
    o'.Acts D f o := by
  refine ⟨hname, hshape, hresolve, hnamed, fun run path parent => ?_⟩
  have hagrees : (Bound.object (o'.bind parent)).Agrees D (.object (o.bind (f parent))) := by
    refine ⟨?_, fun op => ?_⟩
    · change View.object o'.name (OutputShape.object o'.shape) = .object o.name (.object o.shape)
      rw [hname, hshape]
    · cases op with
      | resolve field args => exact congrArg Reached.ofOutcome (hresolve parent field args)
      | resolveNamed field args => exact congrArg Reached.ofOutcome (hnamed parent field args)
      | item index => rfl
      | narrow => rfl
  exact .walk (.value hagrees) run path

theorem acts_of_fields {name : String} {fields' fields : Fields S c}
    (h : Fields.Acts D f fields' fields) : Acts D f ⟨name, fields'⟩ ⟨name, fields⟩ :=
  acts_of_resolve rfl (congrArg (ObjectShape.mk name) h.shapes) (h.resolve name)
    (h.resolveNamed name)

theorem acts_contramap (o : ObjectType S c) : (o.contramap f).Acts D f o :=
  acts_of_fields o.fields.acts_contramap

variable {o o' o'' : ObjectType S c}

theorem acts_refl (o : ObjectType S c) : o.Acts D id o :=
  acts_of_resolve rfl rfl (fun _ _ _ => rfl) fun _ _ _ => rfl

/-- The adapter nearest to the parent is the inner function. -/
theorem Acts.trans (h : o''.Acts D g o') (h' : o'.Acts D f o) : o''.Acts D (f ∘ g) o :=
  acts_of_resolve (h.name.trans h'.name) (h.shape.trans h'.shape)
    (fun _ _ _ => (h.resolve ..).trans (h'.resolve ..))
    fun _ _ _ => (h.resolveNamed ..).trans (h'.resolveNamed ..)

/-- What acts in the same way behaves in the same way. -/
theorem Acts.alike (h : o''.Acts D f o) (h' : o'.Acts D f o) : o''.Acts D id o' :=
  acts_of_resolve (h.name.trans h'.name.symm) (h.shape.trans h'.shape.symm)
    (fun _ _ _ => (h.resolve ..).trans (h'.resolve ..).symm)
    fun _ _ _ => (h.resolveNamed ..).trans (h'.resolveNamed ..).symm

theorem Acts.convert (h : o'.Acts D f o) (n : S.Conversion c d) :
    (o'.convert n).Acts D f (o.convert n) := by
  have hresolve (o : ObjectType S c) (parent : S.Value) (field : String) (args) :
      (o.convert n).resolve D parent field args =
        S.convertResolution n <$> o.resolve D parent field args :=
    o.fields.mirrors_convert.resolve o.name parent field args
  have hnamed (o : ObjectType S c) (parent : S.Value) (field : String) (args) :
      (o.convert n).resolveNamed D parent field args =
        S.convertResolution n <$> o.resolveNamed D parent field args :=
    o.fields.mirrors_convert.resolveNamed o.name parent field args
  refine acts_of_resolve h.name ?_ (fun parent field args => ?_) fun parent field args => ?_
  · rw [shape_convert, shape_convert, h.shape]
  · rw [hresolve, hresolve, h.resolve]
  · rw [hnamed, hnamed, h.resolveNamed]

end ObjectType

/-! ## Interfaces and unions -/

namespace AbstractType

/-- An interface or union declares what another does and behaves on a value as the other does on what
`f` makes of the value: in the fields of its own, in narrowing and matching, and along every walk
from the bound value. -/
structure Acts (D : Definitions S) (f : S.Value → S.Value) (t' t : AbstractType S c) : Prop where
  name : t'.name = t.name
  shape : t'.shape = t.shape
  resolve : ∀ value field args,
    t'.resolve D value field args = t.resolve D (f value) field args
  narrow : ∀ value, t'.narrow value = t.narrow (f value)
  matchingMembers : ∀ value, t'.matchingMembers value = t.matchingMembers (f value)
  walk : ∀ (run : {α : Type} → S.Deferred c α → α) (path : List Action) value,
    Reached.Same D ((Reached.value (.abstract (t'.bind value))).walk D run path)
      ((Reached.value (.abstract (t.bind (f value)))).walk D run path)

theorem acts_of_resolve {t' t : AbstractType S c} (hname : t'.name = t.name)
    (hshape : t'.shape = t.shape)
    (hresolve : ∀ value field args,
      t'.resolve D value field args = t.resolve D (f value) field args)
    (hnarrow : ∀ value, t'.narrow value = t.narrow (f value))
    (hmatching : ∀ value, t'.matchingMembers value = t.matchingMembers (f value)) :
    t'.Acts D f t := by
  refine ⟨hname, hshape, hresolve, hnarrow, hmatching, fun run path value => ?_⟩
  have hagrees : (Bound.abstract (t'.bind value)).Agrees D (.abstract (t.bind (f value))) := by
    refine ⟨?_, fun op => ?_⟩
    · change View.abstract t'.name t'.shape = .abstract t.name t.shape
      rw [hname, hshape]
    · cases op with
      | resolve field args => exact congrArg Reached.ofOutcome (hresolve value field args)
      | narrow => exact congrArg (Reached.map Bound.object <| .ofExcept ·) (hnarrow value)
      | resolveNamed field args => rfl
      | item index => rfl
  exact .walk (.value hagrees) run path

/-- Members adapted one by one narrow and match what the members do for what `f` makes of a value. -/
theorem acts_of_members {t' t : AbstractType S c} (hname : t'.name = t.name)
    (hshape : t'.shape = t.shape) (hfields : Fields.Acts D f t'.fields t.fields)
    (hmembers : t'.members = t.members.map (Member.contramapped f)) : t'.Acts D f t := by
  refine acts_of_resolve hname hshape (fun value field args => ?_) (fun value => ?_) fun value => ?_
  · rw [resolve, resolve, hname, hfields.resolve]
  · have hfirst : (fun m => Member.narrow m value) ∘ Member.contramapped f =
        fun m : Member S c => m.narrow (f value) := rfl
    rw [narrow, narrow, hname, hmembers, List.findSome?_map, hfirst]
  · rw [matchingMembers, matchingMembers, hmembers, List.filter_map, List.map_map]
    rfl

theorem acts_interface {name : String} {fields' fields : Fields S c} (members : List (Member S c))
    (h : Fields.Acts D f fields' fields) :
    Acts D f (.interface name fields' (members.map (Member.contramapped f)))
      (.interface name fields members) := by
  refine acts_of_members rfl ?_ h rfl
  rw [shape, shape, h.shapes, List.map_map]
  rfl

theorem acts_union (name : String) (members : List (Member S c)) :
    Acts D f (.union name (members.map (Member.contramapped f))) (.union name members) := by
  refine acts_of_members rfl ?_ ⟨rfl, fun _ _ _ _ => rfl, fun _ _ _ _ => rfl⟩ rfl
  rw [shape, shape, List.map_map]
  rfl

theorem acts_contramap (t : AbstractType S c) : (t.contramap f).Acts D f t := by
  cases t with
  | interface name fields members => exact acts_interface members fields.acts_contramap
  | union name members => exact acts_union name members

variable {t t' t'' : AbstractType S c}

theorem acts_refl (t : AbstractType S c) : t.Acts D id t :=
  acts_of_resolve rfl rfl (fun _ _ _ => rfl) (fun _ => rfl) fun _ => rfl

theorem Acts.trans (h : t''.Acts D g t') (h' : t'.Acts D f t) : t''.Acts D (f ∘ g) t :=
  acts_of_resolve (h.name.trans h'.name) (h.shape.trans h'.shape)
    (fun _ _ _ => (h.resolve ..).trans (h'.resolve ..))
    (fun _ => (h.narrow _).trans (h'.narrow _))
    fun _ => (h.matchingMembers _).trans (h'.matchingMembers _)

theorem Acts.alike (h : t''.Acts D f t) (h' : t'.Acts D f t) : t''.Acts D id t' :=
  acts_of_resolve (h.name.trans h'.name.symm) (h.shape.trans h'.shape.symm)
    (fun _ _ _ => (h.resolve ..).trans (h'.resolve ..).symm)
    (fun _ => (h.narrow _).trans (h'.narrow _).symm)
    fun _ => (h.matchingMembers _).trans (h'.matchingMembers _).symm

theorem Acts.convert (h : t'.Acts D f t) (n : S.Conversion c d) :
    (t'.convert n).Acts D f (t.convert n) := by
  have hmirrors (t : AbstractType S c) : Mirrors D n (t.convert n) t := t.mirrors_convert
  have hresolve (t : AbstractType S c) (value : S.Value) (field : String) (args) :
      (t.convert n).resolve D value field args =
        S.convertResolution n <$> t.resolve D value field args := by
    rw [AbstractType.resolve, (hmirrors t).fields.resolve, name_convert]
    rfl
  have hmatching (t : AbstractType S c) (value : S.Value) :
      (t.convert n).matchingMembers value = t.matchingMembers value := by
    rw [AbstractType.matchingMembers, members_convert, List.filter_map, List.map_map]
    rfl
  refine acts_of_resolve ?_ ?_ (fun value field args => ?_) (fun value => ?_) fun value => ?_
  · rw [name_convert, name_convert, h.name]
  · rw [shape_convert, shape_convert, h.shape]
  · rw [hresolve, hresolve, h.resolve]
  · rw [(hmirrors t').narrow, (hmirrors t).narrow, h.narrow]
  · rw [hmatching, hmatching, h.matchingMembers]

end AbstractType

/-! ## Stacks of adapters -/

namespace Adapters

/-- The adapted object type. -/
def object (o : ObjectType S c) : {d : S.Context} → Adapters S c d → ObjectType S d
  | _, .nil => o
  | _, .contramap inner f => (inner.object o).contramap f
  | _, .convert inner n => (inner.object o).convert n

/-- The conversions among the adapters. -/
def conversions : {d : S.Context} → Adapters S c d → S.Conversions c d
  | _, .nil => .nil
  | _, .contramap inner _ => inner.conversions
  | _, .convert inner n => inner.conversions.snoc n

/-- However contramaps and conversions are stacked, the conversions alone behave in the same way on
what the functions together make of a parent, the outermost function first. -/
theorem object_acts (o : ObjectType S c) (stack : Adapters S c d) :
    (stack.object o).Acts D stack.probe (stack.conversions.carry ObjectType.convert o) := by
  induction stack with
  | nil => exact o.acts_refl
  | contramap inner f ih => exact (inner.object o).acts_contramap.trans ih
  | convert inner n ih => exact ih.convert n

theorem type_acts (t : AbstractType S c) (stack : Adapters S c d) :
    (stack.type t).Acts D stack.probe (stack.conversions.carry AbstractType.convert t) := by
  induction stack with
  | nil => exact t.acts_refl
  | contramap inner f ih => exact (inner.type t).acts_contramap.trans ih
  | convert inner n ih => exact ih.convert n

end Adapters

/-! ## The laws -/

/-- An object, interface or union adapted by `f` behaves on a parent as it does itself on what `f`
makes of the parent, to every depth. Adapting twice is adapting by the functions one after the other,
the second one first; adapting and converting go in either order; and adapting every field and every
member by itself is adapting the whole. So of any stack of adapters only the conversions and the
composed function count. -/
theorem contramap_acts (D : Definitions S) (f g : S.Value → S.Value) (n : S.Conversion c d) :
    (∀ o : ObjectType S c,
      (o.contramap f).Acts D f o ∧
      ((o.contramap f).contramap g).Acts D id (o.contramap fun b => f (g b)) ∧
      ((o.contramap f).convert n).Acts D id ((o.convert n).contramap f) ∧
      ∀ {e : S.Context} (stack : Adapters S c e),
        (stack.object o).Acts D stack.probe (stack.conversions.carry ObjectType.convert o)) ∧
    (∀ t : AbstractType S c,
      (t.contramap f).Acts D f t ∧
      ((t.contramap f).contramap g).Acts D id (t.contramap fun b => f (g b)) ∧
      ((t.contramap f).convert n).Acts D id ((t.convert n).contramap f) ∧
      ∀ {e : S.Context} (stack : Adapters S c e),
        (stack.type t).Acts D stack.probe (stack.conversions.carry AbstractType.convert t)) ∧
    ∀ (name : String) (fields : List (String × Field S c)) (members : List (Member S c)),
      let adapted := fields.map fun p => (p.1, p.2.contramap f)
      ObjectType.Acts D id ⟨name, .ofDeclared adapted⟩
        (.contramap f ⟨name, .ofDeclared fields⟩) ∧
      AbstractType.Acts D id
        (.interface name (.ofDeclared adapted) (members.map (Member.contramapped f)))
        (.contramap f (.interface name (.ofDeclared fields) members)) ∧
      AbstractType.Acts D id (.union name (members.map (Member.contramapped f)))
        (.contramap f (.union name members)) := by
  refine ⟨fun o => ⟨o.acts_contramap, ?_, ?_, Adapters.object_acts o⟩,
    fun t => ⟨t.acts_contramap, ?_, ?_, Adapters.type_acts t⟩,
    fun name fields members => ⟨?_, ?_, ?_⟩⟩
  · exact ((o.contramap f).acts_contramap.trans o.acts_contramap).alike o.acts_contramap
  · exact (o.acts_contramap.convert n).alike (o.convert n).acts_contramap
  · exact ((t.contramap f).acts_contramap.trans t.acts_contramap).alike t.acts_contramap
  · exact (t.acts_contramap.convert n).alike (t.convert n).acts_contramap
  · exact (ObjectType.acts_of_fields (Fields.acts_ofDeclared fields)).alike
      (ObjectType.acts_contramap _)
  · exact (AbstractType.acts_interface members (Fields.acts_ofDeclared fields)).alike
      (AbstractType.acts_contramap _)
  · exact AbstractType.acts_refl _

end QueryTypes
