import QueryTypes.JsonHost.Expression
import QueryTypes.OutputType.Basic

/-!
# A host of JSON values

A host whose values are JSON and whose contexts are thunks, futures that are ready, and thunks that
keep a log. Its scalars read and write JSON, its enums, lists and optionals are those of JSON, and
its resolvers are expressions.
-/

namespace QueryTypes.JsonHost

/-! ## Contexts -/

/-- The contexts of the host. -/
inductive Context where
  | thunk | async | log
  deriving DecidableEq, Repr

/-- A value with the lines logged on the way to it. -/
structure Logged (α : Type) where
  value : α
  lines : List String

/-- The computations of a context. -/
def Deferred : Context → Type → Type
  | .thunk, α => Unit → α
  | .async, α => Unit → α
  | .log, α => Logged α

/-- The conversions between contexts. -/
inductive Conversion : Context → Context → Type where
  | identity {c : Context} : Conversion c c
  | lift : Conversion .thunk .async
  /-- Runs the thunk and starts a log. -/
  | log : Conversion .thunk .log
  /-- Adds a line to the log. -/
  | tag (line : String) : Conversion .log .log

/-- A value at hand as a computation. -/
def deferPure : (c : Context) → {α : Type} → α → Deferred c α
  | .thunk, _, a => fun _ => a
  | .async, _, a => fun _ => a
  | .log, _, a => (⟨a, []⟩ : Logged _)

/-- A computation whose result is transformed afterwards. -/
def deferMap : (c : Context) → {α β : Type} → (α → β) → Deferred c α → Deferred c β
  | .thunk, _, _, f, x => fun u => f (x u)
  | .async, _, _, f, x => fun u => f (x u)
  | .log, _, _, f, (x : Logged _) => (⟨f x.value, x.lines⟩ : Logged _)

/-- A computation carried over to another context. -/
def deferConvert : {c d : Context} → {α : Type} → Conversion c d → Deferred c α → Deferred d α
  | _, _, _, .identity, x => x
  | _, _, _, .lift, x => x
  | _, _, _, .log, x => (⟨x (), ["log"]⟩ : Logged _)
  | _, _, _, .tag line, (x : Logged _) => (⟨x.value, x.lines ++ [line]⟩ : Logged _)

/-- The value of a computation and the lines it logged. -/
def run : (c : Context) → {α : Type} → Deferred c α → Logged α
  | .thunk, _, x => ⟨x (), []⟩
  | .async, _, x => ⟨x (), []⟩
  | .log, _, x => x

/-- The contexts with their conversions. -/
def effects : Effects where
  Context := Context
  Deferred := Deferred
  pure := fun {c} {_} => deferPure c
  map := fun {c} {_ _} => deferMap c
  Conversion := Conversion
  convert := fun {_ _} {_} => deferConvert

/-- The signature of JSON values over tables of the given sizes, written as thunks. -/
abbrev host (inputs outputs : Nat) : Signature :=
  { effects with Value := Json, inputs, outputs, home := fun _ => Context.thunk }

/-! ## Scalars -/

/-- The readers of scalars. -/
inductive Reader where
  | int | intGot | string | boolean | any | never | blank | short

/-- How many characters a short text may have. -/
def shortLength : Nat := 5

/-- Reads a leaf, or says why not. -/
def Reader.read : Reader → Json → Except String Json
  | .int, j => if j.int64?.isSome then .ok j else .error "expected an integer"
  | .intGot, j =>
    if j.int64?.isSome then .ok j else .error ("expected an integer, got " ++ j.text)
  | .string, .string s => .ok (.string s)
  | .string, _ => .error "expected a string"
  | .boolean, .bool b => .ok (.bool b)
  | .boolean, _ => .error "expected a boolean"
  | .any, j => .ok j
  | .never, _ => .error "never"
  | .blank, _ => .error ""
  | .short, .string s =>
    if s.length ≤ shortLength then .ok (.string s)
    else .error ("too long: " ++ toString s.length)
  | .short, _ => .error "not text"

/-- The writers of scalars: as it is, as its text, or as the member `v` of an object. -/
inductive Writer where
  | asIs | text | wrap

/-- Writes a value as a leaf. -/
def Writer.write : Writer → Json → Json
  | .asIs, j => j
  | .text, j => .string j.text
  | .wrap, j => .object [("v", j)]

/-! ## Lists, optionals and members -/

/-- An absent value is null, a present one stands for itself. -/
def orNull (j : Option Json) : Json := j.getD .null

/-- An absent value is null, a present one is the member `some` of an object. -/
def someOrNull : Option Json → Json
  | some j => .object [("some", j)]
  | none => .null

/-- Null is absent. -/
def notNull (j : Json) : Option Json := if j.isNull then none else some j

/-- Two values as an array. -/
def pair (a b : Json) : Json := .array [a, b]

/-- Accepts the objects of one kind and keeps them as they are. -/
def ofKind (kind : Int) : Narrowing Json Json :=
  ⟨fun j =>
    match j with
    | .object members =>
      match (members.lookup "kind").bind Json.int64? with
      | some k => if k = kind then some j else none
      | none => none
    | _ => none⟩

/-- Accepts the values for which a condition is exactly true, as another expression gives them. -/
def acceptWhen (condition value : Expression) : Narrowing Json Json :=
  ⟨fun j =>
    if isTrue (condition.eval ⟨j, .null, .null⟩) then some (value.eval ⟨j, .null, .null⟩)
    else none⟩

/-- An expression as a function of its own value. -/
def Expression.onSelf (e : Expression) (j : Json) : Json := e.eval ⟨j, .null, .null⟩

end QueryTypes.JsonHost
