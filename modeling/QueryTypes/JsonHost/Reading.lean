import QueryTypes.JsonHost.Basic

/-!
# The host in writing

Expressions are written in JSON: a variable by its name, an operation as an object with one member,
the operator, whose value holds the operands. Narrowings are written in JSON too; conversions and
the readers and writers of scalars have names.
-/

namespace QueryTypes.JsonHost

namespace Expression

/-- The variable of the given name. -/
def ofName? : String → Option Expression
  | "self" => some (.variable .self)
  | "args" => some (.variable .args)
  | "item" => some (.variable .item)
  | _ => none

/-- The operator that takes a list of operands. -/
def many? : String → Option (List Expression → Expression)
  | "list" => some .list
  | "all" => some .all
  | "any" => some .any
  | _ => none

/-- The operation of the given name on as many operands as it takes. -/
def operation? : String → List Expression → Option Expression
  | "not", [a] => some (.not a)
  | "lower", [a] => some (.lower a)
  | "eq", [a, b] => some (.eq a b)
  | "has", [a, b] => some (.has a b)
  | "add", [a, b] => some (.add a b)
  | "concat", [a, b] => some (.concat a b)
  | "filter", [a, b] => some (.filter a b)
  | "find", [a, b] => some (.find a b)
  | "each", [a, b] => some (.each a b)
  | "take", [a, b] => some (.take a b)
  | "if", [c, a, b] => some (.branch c a b)
  | _, _ => none

/-- A look-up under a key as it is written; a key that is neither a name nor an index finds
nothing. -/
def lookUp (e : Expression) : Json → Expression
  | .string name => .get e (.name name)
  | .number (.int i) => if 0 ≤ i then .get e (.index i.toNat) else .const .null
  | _ => .const .null

/-- Reads an expression that nests at most `fuel` levels. -/
def readWithin : Nat → Json → Option Expression
  | 0, _ => none
  | fuel + 1, j =>
    match j with
    | .string name => ofName? name
    | .object [("const", value)] => some (.const value)
    | .object [("obj", .array members)] =>
      Expression.object <$> members.mapM fun m =>
        match m with
        | .array [.string name, e] => (fun e => (name, e)) <$> readWithin fuel e
        | _ => none
    | .object [("get", .array [e, key])] => (fun e => lookUp e key) <$> readWithin fuel e
    | .object [(operator, .array operands)] => do
      let es ← operands.mapM (readWithin fuel)
      match many? operator with
      | some f => return f es
      | none => operation? operator es
    | _ => none

/-- Reads an expression. -/
def ofJson? (j : Json) : Option Expression := readWithin (j.depth + 1) j

end Expression

/-- The function of its own value that an expression in writing stands for. -/
def functionOfJson? (j : Json) : Option (Json → Json) := Expression.onSelf <$> Expression.ofJson? j

/-- Reads a narrowing that nests at most `fuel` levels: a condition and what becomes of the values
that meet it, the kind of an object, or a function before or after another narrowing. -/
def narrowingWithin : Nat → Json → Option (Narrowing Json Json)
  | 0, _ => none
  | fuel + 1, j =>
    match j.member? "when", j.member? "subtype", j.member? "contramap", j.member? "map" with
    | some condition, _, _, _ => do
      let value ← match j.member? "then" with
        | some e => Expression.ofJson? e
        | none => some (.variable .self)
      return acceptWhen (← Expression.ofJson? condition) value
    | _, some (.number (.int kind)), _, _ => some (ofKind kind)
    | _, _, some f, _ => do
      return (← narrowingWithin fuel (← j.member? "of")).contramap (← functionOfJson? f)
    | _, _, _, some f => do
      return (← narrowingWithin fuel (← j.member? "of")).map (← functionOfJson? f)
    | _, _, _, _ => none

/-- Reads a narrowing. -/
def narrowingOfJson? (j : Json) : Option (Narrowing Json Json) := narrowingWithin (j.depth + 1) j

/-- The scalar reader of the given name. -/
def Reader.ofName? : String → Option Reader
  | "int" => some .int
  | "int_got" => some .intGot
  | "string" => some .string
  | "boolean" => some .boolean
  | "any" => some .any
  | "never" => some .never
  | "blank" => some .blank
  | "short" => some .short
  | _ => none

/-- The scalar writer of the given name. -/
def Writer.ofName? : String → Option Writer
  | "id" => some .asIs
  | "text" => some .text
  | "wrap" => some .wrap
  | _ => none

/-- The conversion of the given name from a context, with the context it leads to. -/
def Conversion.ofName? (c : Context) (name : String) : Option ((d : Context) × Conversion c d) :=
  if name = "identity" then some ⟨c, .identity⟩
  else
    match c with
    | .thunk =>
      if name = "lift" then some ⟨.async, .lift⟩
      else if name = "log" then some ⟨.log, .log⟩
      else none
    | .async => none
    | .log =>
      if name.startsWith "tag:" then some ⟨.log, .tag (String.ofList (name.toList.drop 4))⟩
      else none

/-- Carries a thing along conversions of the given names, given how one conversion carries it. -/
def carryNamed {F : Context → Type} (step : {c d : Context} → Conversion c d → F c → F d) :
    List String → (c : Context) → F c → Option ((d : Context) × F d)
  | [], c, x => some ⟨c, x⟩
  | name :: rest, c, x => do
    let ⟨d, n⟩ ← Conversion.ofName? c name
    carryNamed step rest d (step n x)

/-- The value of a resolution and the lines logged on the way; a value at hand logs nothing. -/
def settle {c : Context} {α : Type} : Resolution effects c α → Logged α
  | .pure a => ⟨a, []⟩
  | .deferred x => run c x

end QueryTypes.JsonHost
