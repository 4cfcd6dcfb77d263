import QueryTypes.Bound.Resolve

/-!
# Selections

Walking a bound value along a selection: the selected fields of an object in order, each resolved
with arguments given by name and run at once; lists item by item; abstract values narrowed first.
The first error ends the walk.
-/

namespace QueryTypes

/-- A selected field: its arguments and what is selected from its value. -/
inductive Selection where
  | field (name : String) (arguments : List (String × Payload)) (selected : List Selection)

/-- The encoded result of a walk. -/
inductive Answer where
  | json (value : Json)
  | list (items : List Answer)
  | object (fields : List (String × Answer))

variable {S : Signature} {c : S.Context}

mutual
/-- The answer of a value, given the answer of an object. -/
def Bound.answerWith (onObject : BoundObject S c → Outcome ResolveError Answer) :
    Bound S c → Outcome ResolveError Answer
  | .leaf j => .ok (.json j)
  | .token name => .ok (.json (.string name))
  | .null => .ok (.json .null)
  | .list items => Answer.list <$> Bound.itemsWith onObject items
  | .object o => onObject o
  | .abstract a => do
    let o ← Outcome.ofExcept a.narrow
    onObject o
  | .unmapped enumName => .error (.unmappedEnumValue enumName)

def Bound.itemsWith (onObject : BoundObject S c → Outcome ResolveError Answer) :
    List (Bound S c) → Outcome ResolveError (List Answer)
  | [] => .ok []
  | b :: rest => do
    let a ← Bound.answerWith onObject b
    let as ← Bound.itemsWith onObject rest
    return a :: as
end

/-- The field that every object answers with the name of its type. -/
def typenameField : String := "__typename"

mutual
/-- The answer of an object to one selected field; `run` runs deferred values. -/
def Selection.answer (D : Definitions S) (run : {α : Type} → S.Deferred c α → α) :
    Selection → BoundObject S c → Outcome ResolveError (String × Answer)
  | .field name arguments selected, o =>
    if name = typenameField then .ok (name, .json (.string o.typename))
    else do
      let resolution ← o.resolveNamed D name arguments
      let value := match resolution with
        | .pure b => b
        | .deferred x => run x
      let answer ← value.answerWith fun inner =>
        Answer.object <$> Selection.answers D run selected inner
      return (name, answer)

/-- The answers of an object to selected fields, in order. -/
def Selection.answers (D : Definitions S) (run : {α : Type} → S.Deferred c α → α) :
    List Selection → BoundObject S c → Outcome ResolveError (List (String × Answer))
  | [], _ => .ok []
  | s :: rest, o => do
    let a ← Selection.answer D run s o
    let as ← Selection.answers D run rest o
    return a :: as
end

end QueryTypes
