import QueryTypes.Json.Text

/-!
# Resolver expressions

A small language for resolvers over JSON values. Every expression has a value: what does not apply
to its operands is null or false.
-/

namespace QueryTypes.JsonHost

/-- What an expression is evaluated under: the parent or decoded value, the decoded arguments, and
the element at hand inside a list operation. -/
structure Bindings where
  self : Json := .null
  args : Json := .null
  item : Json := .null

/-- The variables of an expression. -/
inductive Variable where
  | self | args | item

/-- A key of an object or an index of an array. -/
inductive Key where
  | name (name : String)
  | index (i : Nat)

/-- An expression. -/
inductive Expression where
  | variable (v : Variable)
  | const (value : Json)
  | object (members : List (String × Expression))
  | list (items : List Expression)
  | get (e : Expression) (key : Key)
  | eq (a b : Expression)
  | not (a : Expression)
  | all (operands : List Expression)
  | any (operands : List Expression)
  | has (a b : Expression)
  | lower (a : Expression)
  | add (a b : Expression)
  | concat (a b : Expression)
  | branch (condition a b : Expression)
  | filter (l e : Expression)
  | find (l e : Expression)
  | each (l e : Expression)
  | take (l n : Expression)

/-- The items of a value: those of an array, none of null, else the value itself. -/
def items : Json → List Json
  | .array js => js
  | .null => []
  | j => [j]

/-- Whether a value is exactly true. -/
def isTrue : Json → Bool
  | .bool true => true
  | _ => false

/-- The part of a value under a key. -/
def part : Json → Key → Json
  | .object members, .name name => (members.lookup name).getD .null
  | .array js, .index i => js[i]?.getD .null
  | _, _ => .null

/-- Whether `t` stands somewhere in `s`. -/
def occursIn (t s : List Char) : Bool :=
  (List.range (s.length + 1)).any fun i => t.isPrefixOf (s.drop i)

/-- Whether a value has a part: an object a key, a text a text, an array an equal element. -/
def hasPart : Json → Json → Bool
  | .object members, .string name => (members.lookup name).isSome
  | .string s, .string t => occursIn t.toList s.toList
  | .array js, j => js.any fun x => x == j
  | _, _ => false

/-- A text with its ASCII letters in lower case. -/
def lowered : Json → Json
  | .string s => .string (String.ofList (s.toList.map Char.toLower))
  | j => j

/-- The sum of two 64-bit integers, if it is one too. -/
def sum (a b : Json) : Json :=
  match a.int64?, b.int64? with
  | some m, some n => if Number.inWord (m + n) then .int (m + n) else .null
  | _, _ => .null

/-- Two texts or two arrays joined. -/
def joined : Json → Json → Json
  | .string s, .string t => .string (s ++ t)
  | .array js, .array ks => .array (js ++ ks)
  | _, _ => .null

/-- The first items of a value. -/
def firstItems (j n : Json) : Json :=
  match n.int64? with
  | some n => .array ((items j).take n.toNat)
  | none => .array []

namespace Expression

/-- The value of a variable. -/
def lookup (b : Bindings) : Variable → Json
  | .self => b.self
  | .args => b.args
  | .item => b.item

mutual
/-- The value of an expression. -/
def eval : Expression → Bindings → Json
  | .variable v, b => lookup b v
  | .const j, _ => j
  | .object members, b => Json.ofMembers (evalMembers members b)
  | .list es, b => .array (evalAll es b)
  | .get e key, b => part (eval e b) key
  | .eq x y, b => .bool (eval x b == eval y b)
  | .not x, b => .bool (!isTrue (eval x b))
  | .all es, b => .bool ((evalAll es b).all isTrue)
  | .any es, b => .bool ((evalAll es b).any isTrue)
  | .has x y, b => .bool (hasPart (eval x b) (eval y b))
  | .lower x, b => lowered (eval x b)
  | .add x y, b => sum (eval x b) (eval y b)
  | .concat x y, b => joined (eval x b) (eval y b)
  | .branch c x y, b => if isTrue (eval c b) then eval x b else eval y b
  | .filter l e, b =>
    .array ((items (eval l b)).filter fun j => isTrue (eval e { b with item := j }))
  | .find l e, b =>
    ((items (eval l b)).find? fun j => isTrue (eval e { b with item := j })).getD .null
  | .each l e, b => .array ((items (eval l b)).map fun j => eval e { b with item := j })
  | .take l n, b => firstItems (eval l b) (eval n b)

def evalAll : List Expression → Bindings → List Json
  | [], _ => []
  | e :: rest, b => eval e b :: evalAll rest b

def evalMembers : List (String × Expression) → Bindings → List (String × Json)
  | [], _ => []
  | (k, e) :: rest, b => (k, eval e b) :: evalMembers rest b
end

end Expression
end QueryTypes.JsonHost
