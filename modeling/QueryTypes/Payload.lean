import QueryTypes.Json.Text
import QueryTypes.Json.Reader

/-!
# Payloads

The untyped values that reach a decoder. Literals of a query arrive as native lists, objects and
enum tokens; variables arrive as one JSON leaf that may itself be an array or an object. The views
`token?`, `elements?` and `fields?` treat both forms alike.
-/

namespace QueryTypes

/-- A value from outside. The fields of a native object have distinct names, in the order they were
written. -/
inductive Payload where
  | leaf (json : Json)
  | list (items : List Payload)
  | object (fields : List (String × Payload))
  | token (name : String)

namespace Payload

instance : Inhabited Payload := ⟨.leaf .null⟩

/-- The null payload. -/
def null : Payload := .leaf .null

def isNull : Payload → Bool
  | .leaf .null => true
  | _ => false

/-- A native object from pairs; a repeated name keeps its place and takes the last value. -/
def ofPairs (pairs : List (String × Payload)) : Payload := .object (Keyed.ofPairs pairs)

/-- The leaf that a JSON document holds. -/
def ofText? (text : String) : Option Payload := (Json.ofText? text).map .leaf

/-! ## Views -/

/-- The JSON of a leaf. -/
def leaf? : Payload → Option Json
  | .leaf j => some j
  | _ => none

/-- The name an enum token or a string leaf gives. -/
def token? : Payload → Option String
  | .token name => some name
  | .leaf (.string s) => some s
  | _ => none

/-- The elements of a native list or an array leaf. -/
def elements? : Payload → Option (List Payload)
  | .list items => some items
  | .leaf (.array items) => some (items.map .leaf)
  | _ => none

/-- The fields of a native object or an object leaf. -/
def fields? : Payload → Option (Keyed Payload)
  | .object fields => some fields
  | .leaf (.object members) => some (members.map fun m => (m.1, .leaf m.2))
  | _ => none

/-- What a payload looks like from outside. -/
inductive Kind where
  | null | boolean | number | string | array | object | list | enum
  deriving DecidableEq, Repr

/-- The word for a kind in error messages. -/
def Kind.word : Kind → String
  | .null => "null"
  | .boolean => "boolean"
  | .number => "number"
  | .string => "string"
  | .array => "array"
  | .object => "object"
  | .list => "list"
  | .enum => "enum"

def kind : Payload → Kind
  | .leaf .null => .null
  | .leaf (.bool _) => .boolean
  | .leaf (.number _) => .number
  | .leaf (.string _) => .string
  | .leaf (.array _) => .array
  | .leaf (.object _) => .object
  | .list _ => .list
  | .object _ => .object
  | .token _ => .enum

/-! ## Equality -/

mutual
/-- Equality of payloads: native objects are compared as maps, whatever the order of their
fields. -/
def same : Payload → Payload → Bool
  | .leaf a, .leaf b => a == b
  | .list a, .list b => sameItems a b
  | .object a, .object b => a.length == b.length && sameFields a b
  | .token a, .token b => a == b
  | _, _ => false

def sameItems : List Payload → List Payload → Bool
  | [], [] => true
  | a :: as, b :: bs => same a b && sameItems as bs
  | _, _ => false

/-- Whether every field of the first list has an equal one in the second. -/
def sameFields : List (String × Payload) → List (String × Payload) → Bool
  | [], _ => true
  | (k, a) :: rest, other =>
    (match other.lookup k with
      | some b => same a b
      | none => false) && sameFields rest other
end

instance : BEq Payload := ⟨same⟩

/-! ## The JSON form -/

mutual
/-- The JSON a payload stands for: lists are arrays, objects are objects, tokens are strings. -/
def toJson : Payload → Json
  | .leaf j => j
  | .list items => .array (itemsToJson items)
  | .object fields => Json.ofMembers (fieldsToJson fields)
  | .token name => .string name

def itemsToJson : List Payload → List Json
  | [] => []
  | p :: rest => toJson p :: itemsToJson rest

def fieldsToJson : List (String × Payload) → List (String × Json)
  | [] => []
  | (k, p) :: rest => (k, toJson p) :: fieldsToJson rest
end

mutual
/-- The JSON text of a payload; the fields of a native object keep their order. -/
def text : Payload → String
  | .leaf j => j.text
  | .list items => "[" ++ ",".intercalate (itemTexts items) ++ "]"
  | .object fields => "\x7b" ++ ",".intercalate (fieldTexts fields) ++ "\x7d"
  | .token name => Json.quote name

def itemTexts : List Payload → List String
  | [] => []
  | p :: rest => text p :: itemTexts rest

def fieldTexts : List (String × Payload) → List String
  | [] => []
  | (k, p) :: rest => (Json.quote k ++ ":" ++ text p) :: fieldTexts rest
end

/-! ## Depth -/

mutual
/-- How deep lists and objects nest, native ones and those of leaves alike. -/
def depth : Payload → Nat
  | .leaf j => j.depth
  | .list items => depthItems items + 1
  | .object fields => depthFields fields + 1
  | .token _ => 0

def depthItems : List Payload → Nat
  | [] => 0
  | p :: rest => max (depth p) (depthItems rest)

def depthFields : List (String × Payload) → Nat
  | [] => 0
  | (_, p) :: rest => max (depth p) (depthFields rest)
end

end Payload
end QueryTypes
