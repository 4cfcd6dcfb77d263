import QueryTypes.Bound.Basic
import QueryTypes.InputType.Decode

/-!
# Resolving fields

A field of a parent value resolves to a bound value, at hand or deferred. Arguments are positional,
one payload a declared argument, or given by name; unknown names are refused before anything is
decoded. Converting a bound value converts every resolution that comes out of it, and the values
that those resolutions give.
-/

namespace QueryTypes

variable {S : Signature}

/-- What a field resolves to. -/
abbrev Signature.FieldResolution (S : Signature) (c : S.Context) := S.Resolves c (Bound S c)

/-- Converts a resolution and the value it gives. -/
def Signature.convertResolution (S : Signature) {c d : S.Context} (n : S.Conversion c d)
    (r : S.FieldResolution c) : S.FieldResolution d :=
  (r.map (Bound.convert n)).convert n

/-- Decodes the arguments and runs the resolver, without encoding the value. The name of the field
is used in errors alone. -/
def Field.resolve (D : Definitions S) {c : S.Context} (f : Field S c) (name : String)
    (parent : S.Value) (args : List (Option Payload)) :
    Outcome DecodeError (S.Resolves c S.Value) :=
  match f with
  | .simple _ resolve =>
    if args.isEmpty then .ok (resolve parent) else .error (.arityMismatch name 0 args.length)
  | .withArguments slots _ resolve => do
    let decoded ← slots.decode D.input name args
    .ok (resolve parent decoded)

/-- Resolves a held field and binds the value to the field's output. -/
def Resolver.resolve (D : Definitions S) (name : String) :
    {c : S.Context} → Resolver S c → S.Value → List (Option Payload) →
      Outcome DecodeError (S.FieldResolution c)
  | _, .declared field, parent, args =>
    Resolution.map (field.output.type D).bind <$> field.resolve D name parent args
  | _, .contramapped f inner, parent, args => inner.resolve D name (f parent) args
  | _, .converted n inner, parent, args =>
    S.convertResolution n <$> inner.resolve D name parent args

namespace Fields
variable {c : S.Context}

/-- Resolves the field of the given name with positional arguments; `owner` names the type. -/
def resolve (D : Definitions S) (fields : Fields S c) (owner : String) (parent : S.Value)
    (field : String) (args : List (Option Payload)) :
    Outcome ResolveError (S.FieldResolution c) :=
  match List.lookup field fields with
  | none => .error (.unknownField field owner)
  | some r => (r.resolve D field parent args).mapError .invalidArguments

/-- Resolves the field of the given name with arguments given by name. -/
def resolveNamed (D : Definitions S) (fields : Fields S c) (owner : String) (parent : S.Value)
    (field : String) (args : Keyed Payload) : Outcome ResolveError (S.FieldResolution c) :=
  match List.lookup field fields with
  | none => .error (.unknownField field owner)
  | some r =>
    match undeclared? r.arguments args with
    | some key => .error (.unknownArgument key field owner)
    | none =>
      (r.resolve D field parent (positional r.arguments args)).mapError .invalidArguments

end Fields

namespace ObjectType
variable {c : S.Context}

/-- Resolves a field of a parent value with positional arguments. -/
def resolve (D : Definitions S) (o : ObjectType S c) (parent : S.Value) (field : String)
    (args : List (Option Payload)) : Outcome ResolveError (S.FieldResolution c) :=
  o.fields.resolve D o.name parent field args

/-- Resolves a field of a parent value with arguments given by name. -/
def resolveNamed (D : Definitions S) (o : ObjectType S c) (parent : S.Value) (field : String)
    (args : Keyed Payload) : Outcome ResolveError (S.FieldResolution c) :=
  o.fields.resolveNamed D o.name parent field args

end ObjectType

/-- Resolves a field of the interface itself on an abstract value. -/
def AbstractType.resolve (D : Definitions S) {c : S.Context} (t : AbstractType S c)
    (parent : S.Value) (field : String) (args : List (Option Payload)) :
    Outcome ResolveError (S.FieldResolution c) :=
  t.fields.resolve D t.name parent field args

/-- Converts what a field resolves to along a chain. -/
def Signature.carryResolution (S : Signature) {c d : S.Context} (chain : S.Conversions c d)
    (r : Outcome ResolveError (S.FieldResolution c)) :
    Outcome ResolveError (S.FieldResolution d) :=
  chain.carry (F := fun c => Outcome ResolveError (S.FieldResolution c))
    (fun n r => S.convertResolution n <$> r) r

namespace BoundObject
variable {c : S.Context}

/-- Resolves a field with one positional payload a declared argument. -/
def resolve (D : Definitions S) (o : BoundObject S c) (field : String)
    (args : List (Option Payload)) : Outcome ResolveError (S.FieldResolution c) :=
  S.carryResolution o.conversions (o.type.resolve D o.value field args)

/-- Resolves a field with arguments given by name. -/
def resolveNamed (D : Definitions S) (o : BoundObject S c) (field : String)
    (args : Keyed Payload) : Outcome ResolveError (S.FieldResolution c) :=
  S.carryResolution o.conversions (o.type.resolveNamed D o.value field args)

end BoundObject

/-- Resolves a field declared on the interface itself. -/
def BoundAbstract.resolve (D : Definitions S) {c : S.Context} (a : BoundAbstract S c)
    (field : String) (args : List (Option Payload)) :
    Outcome ResolveError (S.FieldResolution c) :=
  S.carryResolution a.conversions (a.type.resolve D a.value field args)

end QueryTypes
