import QueryTypes.Json.Number
import QueryTypes.Keyed

/-!
# JSON values

JSON documents whose objects keep their members in the byte order of their names, one member a
name.
-/

namespace QueryTypes

/-- A JSON value. -/
inductive Json where
  | null
  | bool (value : Bool)
  | number (value : Number)
  | string (value : String)
  | array (items : List Json)
  | object (members : List (String × Json))

namespace Json

instance : Inhabited Json := ⟨.null⟩

/-- Writes a member at its place in name order; a name that is present takes the new value. -/
def putMember (members : List (String × Json)) (name : String) (value : Json) :
    List (String × Json) :=
  match members with
  | [] => [(name, value)]
  | (k, v) :: rest =>
    if name = k then (k, value) :: rest
    else if name < k then (name, value) :: (k, v) :: rest
    else (k, v) :: putMember rest name value

/-- The object with the given members; the last of a repeated name counts. -/
def ofMembers (pairs : List (String × Json)) : Json :=
  .object (pairs.foldl (fun ms p => putMember ms p.1 p.2) [])

/-- An integer, which must fit 64 bits. -/
def int (n : Int) : Json := .number (.int n)

/-- A double; what is not finite has no JSON number and becomes null. -/
def ofFloat (x : Float) : Json := if x.isFinite then .number (.float x) else .null

def isNull : Json → Bool
  | .null => true
  | _ => false

/-- The value under a name of an object. -/
def member? : Json → String → Option Json
  | .object members, name => members.lookup name
  | _, _ => none

/-- The value as a signed 64-bit integer. -/
def int64? : Json → Option Int
  | .number n => n.int64?
  | _ => none

mutual
/-- Equality of values, with numbers compared by `Number.same`. -/
def same : Json → Json → Bool
  | .null, .null => true
  | .bool a, .bool b => a == b
  | .number a, .number b => a == b
  | .string a, .string b => a == b
  | .array a, .array b => sameItems a b
  | .object a, .object b => sameMembers a b
  | _, _ => false

def sameItems : List Json → List Json → Bool
  | [], [] => true
  | a :: as, b :: bs => same a b && sameItems as bs
  | _, _ => false

def sameMembers : List (String × Json) → List (String × Json) → Bool
  | [], [] => true
  | (j, a) :: as, (k, b) :: bs => j == k && same a b && sameMembers as bs
  | _, _ => false
end

instance : BEq Json := ⟨same⟩

mutual
/-- How deep arrays and objects nest. -/
def depth : Json → Nat
  | .array items => depthItems items + 1
  | .object members => depthMembers members + 1
  | _ => 0

def depthItems : List Json → Nat
  | [] => 0
  | j :: rest => max (depth j) (depthItems rest)

def depthMembers : List (String × Json) → Nat
  | [] => 0
  | (_, j) :: rest => max (depth j) (depthMembers rest)
end

end Json
end QueryTypes
