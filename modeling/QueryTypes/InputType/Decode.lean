import QueryTypes.InputType.Basic
import QueryTypes.InputType.Error
import QueryTypes.Outcome

/-!
# Decoding

`InputType.decode` decodes a payload, first failure first. References unfold through the table; the
payload loses depth at every list and object, and between two of those no definition need unfold
twice, so a number of unfoldings known beforehand is enough whenever any number is.
-/

namespace QueryTypes

variable {V : Type} {n : Nat}

/-- How the references of a table decode. -/
abbrev Unfolding (V : Type) (n : Nat) := Fin n → Payload → Outcome DecodeError V

/-- The first name of a payload's fields that no slot declares. -/
def undeclared? (declared : List (Slot (InputShape n))) (fields : Keyed Payload) :
    Option String :=
  fields.keys.find? fun key => !declared.any (·.name == key)

/-- The payloads of the declared slots, looked up by name; `none` where one is absent. -/
def positional (declared : List (Slot (InputShape n))) (fields : Keyed Payload) :
    List (Option Payload) :=
  declared.map fun slot => fields.lookup slot.name

/-- The error for an absent payload. -/
def SlotKind.missing (kind : SlotKind) (name owner : String) : DecodeError :=
  match kind with
  | .field => .missingField name owner
  | .argument => .missingArgument name owner

/-- Failures of arguments name the argument; those of fields stand as they are. -/
def SlotKind.wrap (kind : SlotKind) (name : String) (error : DecodeError) : DecodeError :=
  match kind with
  | .field => error
  | .argument => .invalidArgument name error

mutual
/-- Decodes a payload, references through `unfold`. -/
def InputType.decodeWith (unfold : Unfolding V n) : InputType V n → Payload → Outcome DecodeError V
  | .scalar name read, p =>
    match p with
    | .leaf .null => .error (.shapeMismatch .scalar name .null)
    | .leaf j =>
      match read j with
      | .ok a => .ok a
      | .error message => .error (.invalidScalar name message)
    | p => .error (.shapeMismatch .scalar name p.kind)
  | .enumeration name pairs, p =>
    match p.token? with
    | some token =>
      match (Keyed.ofPairs pairs).lookup token with
      | some a => .ok a
      | none => .error (.unknownEnumToken token name)
    | none => .error (.shapeMismatch .enum name p.kind)
  | .object name slots, p =>
    match p.fields? with
    | some fields => do
      let a ← slots.read unfold name (positional slots.declarations fields)
      match undeclared? slots.declarations fields with
      | some key => .error (.unknownField key name)
      | none => .ok a
    | none => .error (.shapeMismatch .inputObject name p.kind)
  | .list item assemble, p =>
    match p.elements? with
    | some elements => assemble <$> elements.mapM (item.decodeWith unfold)
    | none =>
      .error (.shapeMismatch .list (InputShape.list item.shape).typeRef.text p.kind)
  | .optional inner assemble, p =>
    if p.isNull then .ok (assemble none)
    else (fun a => assemble (some a)) <$> inner.decodeWith unfold p
  | .map f inner, p => f <$> inner.decodeWith unfold p
  | .reference _ target, p => unfold target p

/-- Decodes one payload a slot, from left to right. An absent payload takes the default, else
decodes as null where the slot's input is optional. -/
def Slots.read (unfold : Unfolding V n) :
    Slots V n → String → List (Option Payload) → Outcome DecodeError V
  | .single name kind input default, owner, values =>
    match values.head?.join, default with
    | some p, _ => (input.decodeWith unfold p).mapError (kind.wrap name)
    | none, some a => .ok a
    | none, none =>
      if input.shape.isOptional then (input.decodeWith unfold .null).mapError (kind.wrap name)
      else .error (kind.missing name owner)
  | .merge combine left right, owner, values => do
    let a ← left.read unfold owner (values.take left.size)
    let b ← right.read unfold owner (values.drop left.size)
    .ok (combine a b)
  | .map f slots, owner, values => f <$> slots.read unfold owner values
end

/-- References that unfold at most `fuel` times inside each other. -/
def InputTable.unfold (table : InputTable V n) : Nat → Unfolding V n
  | 0, _, _ => .unfinished
  | fuel + 1, target, p => (table target).decodeWith (InputTable.unfold table fuel) p

/-- Enough unfoldings for a payload of the given depth: each definition once a level. -/
def unfoldings (n depth : Nat) : Nat := n * (depth + 1)

/-- Decodes a payload over a table of definitions. -/
def InputType.decode (table : InputTable V n) (input : InputType V n) (p : Payload) :
    Outcome DecodeError V :=
  input.decodeWith (InputTable.unfold table (unfoldings n p.depth)) p

/-- The depth of the deepest payload. -/
def deepest (values : List (Option Payload)) : Nat :=
  (values.map fun v => (v.map Payload.depth).getD 0).foldr max 0

/-- Decodes positional payloads, one a slot; `none` marks an absent one. The owner, an input object
or a field, is named in errors. -/
def Slots.decode (table : InputTable V n) (slots : Slots V n) (owner : String)
    (values : List (Option Payload)) : Outcome DecodeError V :=
  if values.length = slots.size then
    slots.read (InputTable.unfold table (unfoldings n (deepest values))) owner values
  else .error (.arityMismatch owner slots.size values.length)

/-- Decodes payloads given by name. -/
def Slots.decodeNamed (table : InputTable V n) (slots : Slots V n) (owner : String)
    (fields : Keyed Payload) : Outcome DecodeError V :=
  slots.decode table owner (positional slots.declarations fields)

end QueryTypes
