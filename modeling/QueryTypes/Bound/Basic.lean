import QueryTypes.Bound.Error
import QueryTypes.OutputType.Basic

/-!
# Bound values

A host value paired with its output type. Leaves, tokens and nulls are encoded at once; objects and
abstract values keep their type, their host value and the conversions they have been through, and
are asked field by field.
-/

namespace QueryTypes

variable {S : Signature}

/-- An object value: an object type in the context it was bound in, the value, and the conversions
from there. -/
structure BoundObject (S : Signature) (c : S.Context) where
  origin : S.Context
  type : ObjectType S origin
  value : S.Value
  conversions : S.Conversions origin c

/-- The value of an interface or union before it is narrowed. -/
structure BoundAbstract (S : Signature) (c : S.Context) where
  origin : S.Context
  type : AbstractType S origin
  value : S.Value
  conversions : S.Conversions origin c

/-- A host value paired with its output type. -/
inductive Bound (S : Signature) (c : S.Context) where
  | leaf (json : Json)
  | token (name : String)
  | null
  | list (items : List (Bound S c))
  | object (value : BoundObject S c)
  | abstract (value : BoundAbstract S c)
  /-- A value for which its enum has no token. -/
  | unmapped (enumName : String)

variable {c d : S.Context}

namespace BoundObject

/-- The name of the object type. -/
def typename (o : BoundObject S c) : String := o.type.name

/-- What the object declares. -/
def shape (o : BoundObject S c) : ObjectShape S c :=
  o.conversions.carry ObjectShape.convert o.type.shape

/-- The value in another context. -/
def convert (n : S.Conversion c d) (o : BoundObject S c) : BoundObject S d :=
  ⟨o.origin, o.type, o.value, o.conversions.snoc n⟩

end BoundObject

namespace BoundAbstract

/-- The name of the interface or union. -/
def typename (a : BoundAbstract S c) : String := a.type.name

/-- What the interface or union declares. -/
def shape (a : BoundAbstract S c) : OutputShape S c :=
  a.conversions.carry OutputShape.convert a.type.shape

/-- The value in another context. -/
def convert (n : S.Conversion c d) (a : BoundAbstract S c) : BoundAbstract S d :=
  ⟨a.origin, a.type, a.value, a.conversions.snoc n⟩

end BoundAbstract

namespace Bound

def isNull : Bound S c → Bool
  | .null => true
  | _ => false

/-- The object value, if it is one. -/
def object? : Bound S c → Option (BoundObject S c)
  | .object o => some o
  | _ => none

/-- The abstract value, if it is one. -/
def abstract? : Bound S c → Option (BoundAbstract S c)
  | .abstract a => some a
  | _ => none

/-- The value inside nested lists that a path of indexes leads to. -/
def item? : Bound S c → List Nat → Option (Bound S c)
  | b, [] => some b
  | .list items, i :: path => items[i]?.bind fun b => item? b path
  | _, _ :: _ => none

mutual
/-- The JSON of leaves, tokens, nulls and lists of those. Objects and abstract values need a
selection and have none, nor have values without a token. -/
def toJson? : Bound S c → Option Json
  | .leaf j => some j
  | .token name => some (.string name)
  | .null => some .null
  | .list items => (itemsToJson? items).map .array
  | .object _ => none
  | .abstract _ => none
  | .unmapped _ => none

def itemsToJson? : List (Bound S c) → Option (List Json)
  | [] => some []
  | b :: rest =>
    match toJson? b, itemsToJson? rest with
    | some j, some js => some (j :: js)
    | _, _ => none
end

mutual
/-- The value in another context: everything reached from it is converted. -/
def convert (n : S.Conversion c d) : Bound S c → Bound S d
  | .leaf j => .leaf j
  | .token name => .token name
  | .null => .null
  | .list items => .list (convertItems n items)
  | .object o => .object (o.convert n)
  | .abstract a => .abstract (a.convert n)
  | .unmapped enumName => .unmapped enumName

def convertItems (n : S.Conversion c d) : List (Bound S c) → List (Bound S d)
  | [] => []
  | b :: rest => convert n b :: convertItems n rest
end

theorem convertItems_eq_map (n : S.Conversion c d) (items : List (Bound S c)) :
    convertItems n items = items.map (convert n) := by
  induction items with
  | nil => rfl
  | cons b rest ih => rw [convertItems, ih, List.map_cons]

end Bound

/-! ## Binding -/

/-- Pairs a value with its object type. -/
def ObjectType.bind (o : ObjectType S c) (v : S.Value) : BoundObject S c := ⟨c, o, v, .nil⟩

/-- Pairs a value with its interface or union. -/
def AbstractType.bind (t : AbstractType S c) (v : S.Value) : BoundAbstract S c := ⟨c, t, v, .nil⟩

/-- Pairs a value with its output type. -/
def OutputType.bind : {c : S.Context} → OutputType S c → S.Value → Bound S c
  | _, .scalar _ encode, v => .leaf (encode v)
  | _, .enumeration name pairs, v =>
    match pairs.find? fun p => p.2 == v with
    | some p => .token p.1
    | none => .unmapped name
  | _, .list items item, v => .list ((items v).map item.bind)
  | _, .optional view inner, v =>
    match view v with
    | some x => inner.bind x
    | none => .null
  | _, .object type, v => .object (type.bind v)
  | _, .abstract type, v => .abstract (type.bind v)
  | _, .converted n inner, v => (inner.bind v).convert n

/-! ## Narrowing -/

/-- The bound object of the member that accepts the value. -/
def Member.narrow : {c : S.Context} → Member S c → S.Value → Option (BoundObject S c)
  | _, .concrete object narrowing, v => (narrowing.apply v).map object.bind
  | _, .contramapped f inner, v => inner.narrow (f v)
  | _, .converted n inner, v => (inner.narrow v).map (BoundObject.convert n)

/-- A member narrows the values that it accepts. -/
theorem Member.isSome_narrow : {c : S.Context} → (m : Member S c) → (v : S.Value) →
    (m.narrow v).isSome = m.accepts v
  | _, .concrete _ narrowing, v => by simp [Member.narrow, Member.accepts]
  | _, .contramapped f inner, v => Member.isSome_narrow inner (f v)
  | _, .converted _ inner, v => by
    simp only [Member.narrow, Member.accepts, Option.isSome_map]
    exact Member.isSome_narrow inner v

/-- The first member, in declared order, that accepts the value. -/
def AbstractType.narrow (t : AbstractType S c) (v : S.Value) :
    Except ResolveError (BoundObject S c) :=
  match t.members.findSome? (·.narrow v) with
  | some o => .ok o
  | none => .error (.noMatchingMember t.name)

/-- The member object of an abstract value. -/
def BoundAbstract.narrow (a : BoundAbstract S c) : Except ResolveError (BoundObject S c) :=
  a.conversions.carry (F := fun c => Except ResolveError (BoundObject S c))
    (fun n r => r.map (BoundObject.convert n)) (a.type.narrow a.value)

end QueryTypes
