import QueryTypes.Proofs.Conversion.Laws

/-!
# Operations on bound values

`Bound.step` is one operation on a bound value: resolving a field, taking an item of a list, or
narrowing an abstract value. `Bound.view` is what a bound value shows without any. Two bound values
agree when they show the same and every operation takes them to the same; `step_convert` and
`view_convert` say what a conversion does to both.
-/

namespace QueryTypes

/-- An operation on a bound value. -/
inductive Operation where
  /-- Resolves a field with positional arguments. -/
  | resolve (field : String) (args : List (Option Payload))
  /-- Resolves a field with arguments given by name. -/
  | resolveNamed (field : String) (args : Keyed Payload)
  | item (index : Nat)
  | narrow

/-! ## What an operation comes to -/

/-- What an operation comes to. -/
inductive Reached (E : Effects) (c : E.Context) (α : Type) where
  | value (a : α)
  | resolution (r : Resolution E c α)
  | failed (reason : ResolveError)
  | unfinished
  /-- There is no such operation on the value. -/
  | refused

namespace Reached
variable {E : Effects} {c d : E.Context} {α β γ : Type}

/-- What resolving comes to. -/
def ofOutcome : Outcome ResolveError (Resolution E c α) → Reached E c α
  | .ok r => .resolution r
  | .error e => .failed e
  | .unfinished => .unfinished

/-- What narrowing comes to. -/
def ofExcept : Except ResolveError α → Reached E c α
  | .ok a => .value a
  | .error e => .failed e

/-- What looking for an item comes to. -/
def ofOption : Option α → Reached E c α
  | some a => .value a
  | none => .refused

/-- Transforms the value, also the one that a resolution gives. -/
def map (f : α → β) : Reached E c α → Reached E c β
  | .value a => .value (f a)
  | .resolution r => .resolution (r.map f)
  | .failed e => .failed e
  | .unfinished => .unfinished
  | .refused => .refused

/-- Converts a resolution; anything else has no computation in it. -/
def convert (n : E.Conversion c d) : Reached E c α → Reached E d α
  | .value a => .value a
  | .resolution r => .resolution (r.convert n)
  | .failed e => .failed e
  | .unfinished => .unfinished
  | .refused => .refused

/-- Converts a resolution along a chain: one at hand stays as it is, the computation of a deferred
one is converted by each link once, first link first. -/
def along (chain : Chain E c d) : Reached E c α → Reached E d α
  | .value a => .value a
  | .resolution r => .resolution (r.along chain)
  | .failed e => .failed e
  | .unfinished => .unfinished
  | .refused => .refused

theorem map_map (hE : E.MapsCompose) (f : α → β) (g : β → γ) (r : Reached E c α) :
    (r.map f).map g = r.map (g ∘ f) := by
  cases r with
  | resolution r => exact congrArg Reached.resolution (r.map_map hE f g)
  | _ => rfl

theorem map_convert {n : E.Conversion c d} (hn : E.Natural n) (f : α → β) (r : Reached E c α) :
    (r.convert n).map f = (r.map f).convert n := by
  cases r with
  | resolution r => exact congrArg Reached.resolution (r.map_convert hn f)
  | _ => rfl

theorem along_nil (r : Reached E c α) : r.along .nil = r := by
  cases r with
  | resolution r => exact congrArg Reached.resolution r.along_nil
  | _ => rfl

theorem along_snoc {e : E.Context} (chain : Chain E c d) (n : E.Conversion d e)
    (r : Reached E c α) : r.along (chain.snoc n) = (r.along chain).convert n := by
  cases r with
  | resolution r => exact congrArg Reached.resolution (r.along_snoc chain n)
  | _ => rfl

end Reached

/-! ## One operation -/

variable {S : Signature} {c d : S.Context}

/-- Performs an operation on a bound value. -/
def Bound.step (D : Definitions S) : Operation → Bound S c → Reached S.toEffects c (Bound S c)
  | .resolve field args, .object o => .ofOutcome (o.resolve D field args)
  | .resolve field args, .abstract a => .ofOutcome (a.resolve D field args)
  | .resolveNamed field args, .object o => .ofOutcome (o.resolveNamed D field args)
  | .item index, .list items => .ofOption items[index]?
  | .narrow, .abstract a => .map .object (.ofExcept a.narrow)
  | _, _ => .refused

/-- What a value shows without any operation; `σ` describes types. -/
inductive View (σ : Type) where
  | leaf (json : Json)
  | token (name : String)
  | null
  | list (length : Nat)
  | object (typename : String) (type : σ)
  | abstract (typename : String) (type : σ)
  | unmapped (enumName : String)

/-- The view with other descriptions of types. -/
def View.map {σ τ : Type} (f : σ → τ) : View σ → View τ
  | .leaf j => .leaf j
  | .token name => .token name
  | .null => .null
  | .list length => .list length
  | .object typename type => .object typename (f type)
  | .abstract typename type => .abstract typename (f type)
  | .unmapped enumName => .unmapped enumName

namespace Bound

/-- What a bound value shows, with the shapes of objects and abstract values. -/
def view : Bound S c → View (OutputShape S c)
  | .leaf j => .leaf j
  | .token name => .token name
  | .null => .null
  | .list items => .list items.length
  | .object o => .object o.typename (.object o.shape)
  | .abstract a => .abstract a.typename a.shape
  | .unmapped enumName => .unmapped enumName

/-! ## Under a conversion -/

/-- What a converted outcome comes to. -/
theorem ofOutcome_convertResolution (n : S.Conversion c d)
    (r : Outcome ResolveError (S.FieldResolution c)) :
    Reached.ofOutcome (E := S.toEffects) (S.convertResolution n <$> r) =
      ((Reached.ofOutcome r).map (convert n)).convert n := by
  cases r <;> rfl

/-- An operation on a converted value comes to what it comes to on the value, converted. -/
theorem step_convert (D : Definitions S) (n : S.Conversion c d) (op : Operation) (b : Bound S c) :
    (b.convert n).step D op = ((b.step D op).map (convert n)).convert n := by
  cases b with
  | object o =>
    cases op with
    | resolve field args => exact ofOutcome_convertResolution n (o.resolve D field args)
    | resolveNamed field args => exact ofOutcome_convertResolution n (o.resolveNamed D field args)
    | _ => rfl
  | abstract a =>
    cases op with
    | resolve field args => exact ofOutcome_convertResolution n (a.resolve D field args)
    | narrow =>
      change Reached.map Bound.object (.ofExcept (a.narrow.map (BoundObject.convert n))) =
        (((Reached.ofExcept a.narrow).map Bound.object).map (convert n)).convert n
      cases a.narrow <;> rfl
    | _ => rfl
  | list items =>
    cases op with
    | item index =>
      simp only [convert, step, convertItems_eq_map, List.getElem?_map]
      cases items[index]? <;> rfl
    | _ => rfl
  | _ => cases op <;> rfl

theorem view_convert (n : S.Conversion c d) (b : Bound S c) :
    (b.convert n).view = b.view.map (OutputShape.convert n) := by
  cases b with
  | list items => simp [convert, view, View.map, convertItems_eq_map]
  | _ => rfl

/-- Two bound values show the same, and every operation takes them to the same. -/
structure Agrees (D : Definitions S) (a b : Bound S c) : Prop where
  view : a.view = b.view
  step : ∀ op, a.step D op = b.step D op

theorem Agrees.convert {D : Definitions S} {a b : Bound S c} (h : a.Agrees D b)
    (n : S.Conversion c d) : (a.convert n).Agrees D (b.convert n) :=
  ⟨by rw [view_convert, view_convert, h.view], fun op => by
    rw [step_convert, step_convert, h.step]⟩

end Bound
end QueryTypes
