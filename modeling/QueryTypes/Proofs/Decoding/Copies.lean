import QueryTypes.Proofs.Decoding.Unfolding

/-!
# Copies of definitions

A definition that is built anew each time a reference unfolds occurs in a table once for each time,
every copy referring to copies. How many copies there are makes no difference: what refers to copies
decodes as what refers to the originals (`InputType.decode_copies`).
-/

namespace QueryTypes

variable {V : Type} {m n : Nat}

/-! ## References to the originals -/

section Retarget
variable (original : Fin m → Fin n)

mutual
/-- The input with references to the originals of the definitions it refers to. -/
def InputType.retarget : InputType V m → InputType V n
  | .scalar name read => .scalar name read
  | .enumeration name pairs => .enumeration name pairs
  | .object name slots => .object name slots.retarget
  | .list item assemble => .list item.retarget assemble
  | .optional inner assemble => .optional inner.retarget assemble
  | .map f inner => .map f inner.retarget
  | .reference name target => .reference name (original target)

def Slots.retarget : Slots V m → Slots V n
  | .single name kind input default => .single name kind input.retarget default
  | .merge combine left right => .merge combine left.retarget right.retarget
  | .map f slots => .map f slots.retarget
end

end Retarget

variable {original : Fin m → Fin n}

theorem InputType.typeRef_retarget (t : InputType V m) :
    (t.retarget original).shape.typeRef = t.shape.typeRef := by
  induction t using InputType.induction with
  | list item assemble ih => simp only [retarget, shape, InputShape.typeRef, ih]
  | optional inner assemble ih => simp only [retarget, shape, InputShape.typeRef, ih]
  | map f inner ih => simp only [retarget, shape, ih]
  | _ => simp only [retarget, shape, InputShape.typeRef, InputShape.namedType]

theorem InputType.isOptional_retarget (t : InputType V m) :
    (t.retarget original).shape.isOptional = t.shape.isOptional := by
  induction t using InputType.induction with
  | map f inner ih => simp only [retarget, shape, ih]
  | _ => simp only [retarget, shape, InputShape.isOptional]

namespace Slots

theorem size_retarget (slots : Slots V m) : (slots.retarget original).size = slots.size := by
  match slots with
  | .single .. => simp only [retarget, size]
  | .merge _ left right =>
    simp only [retarget, size, size_retarget left, size_retarget right]
  | .map _ inner => simp only [retarget, size, size_retarget inner]

theorem names_retarget (slots : Slots V m) :
    (slots.retarget original).declarations.map Slot.name = slots.declarations.map Slot.name := by
  match slots with
  | .single .. => simp only [retarget, declarations, List.map_cons, List.map_nil]
  | .merge _ left right =>
    simp only [retarget, declarations, List.map_append, names_retarget left, names_retarget right]
  | .map _ inner => simp only [retarget, declarations, names_retarget inner]

end Slots

theorem positional_congr {declared : List (Slot (InputShape n))}
    {declared' : List (Slot (InputShape m))} (h : declared.map Slot.name = declared'.map Slot.name)
    (fields : Keyed Payload) : positional declared fields = positional declared' fields := by
  have hnames {l : Nat} (declared : List (Slot (InputShape l))) :
      positional declared fields = (declared.map Slot.name).map (List.lookup · fields) := by
    rw [positional, List.map_map]
    rfl
  rw [hnames, hnames, h]

theorem undeclared?_congr {declared : List (Slot (InputShape n))}
    {declared' : List (Slot (InputShape m))} (h : declared.map Slot.name = declared'.map Slot.name)
    (fields : Keyed Payload) : undeclared? declared fields = undeclared? declared' fields := by
  have hnames {l : Nat} (declared : List (Slot (InputShape l))) (key : String) :
      declared.any (·.name == key) = (declared.map Slot.name).any (· == key) := by
    rw [List.any_map]
    rfl
  simp only [undeclared?, hnames, h]

variable {u : Unfolding V n}

mutual
/-- Decoding asks references for what they come to, not for where they lead. -/
theorem InputType.decodeWith_retarget (t : InputType V m) (p : Payload) :
    (t.retarget original).decodeWith u p = t.decodeWith (fun i => u (original i)) p := by
  match t with
  | .scalar name read => simp only [InputType.retarget, InputType.decodeWith]
  | .enumeration name pairs => simp only [InputType.retarget, InputType.decodeWith]
  | .object name slots =>
    simp only [InputType.retarget, InputType.decodeWith, positional_congr slots.names_retarget,
      undeclared?_congr slots.names_retarget, Slots.read_retarget slots]
  | .list item assemble =>
    have hitem : (item.retarget original).decodeWith u =
        item.decodeWith fun i => u (original i) :=
      funext fun q => InputType.decodeWith_retarget item q
    simp only [InputType.retarget, InputType.decodeWith, hitem, InputShape.typeRef,
      InputType.typeRef_retarget]
  | .optional inner assemble =>
    simp only [InputType.retarget, InputType.decodeWith, InputType.decodeWith_retarget inner]
  | .map f inner =>
    simp only [InputType.retarget, InputType.decodeWith, InputType.decodeWith_retarget inner]
  | .reference name target => simp only [InputType.retarget, InputType.decodeWith]

theorem Slots.read_retarget (slots : Slots V m) (owner : String) (values : List (Option Payload)) :
    (slots.retarget original).read u owner values =
      slots.read (fun i => u (original i)) owner values := by
  match slots with
  | .single name kind input default =>
    simp only [Slots.retarget, Slots.read, InputType.decodeWith_retarget input,
      InputType.isOptional_retarget input]
  | .merge combine left right =>
    simp only [Slots.retarget, Slots.read, Slots.size_retarget, Slots.read_retarget left,
      Slots.read_retarget right]
  | .map f inner => simp only [Slots.retarget, Slots.read, Slots.read_retarget inner]
end

/-- A table in which definitions occur in several copies, each referring to copies, decodes as the
table of the originals. -/
theorem InputType.decode_copies {table : InputTable V n} {copies : InputTable V m}
    (h : ∀ i, (copies i).retarget original = table (original i)) (input : InputType V m)
    (p : Payload) : input.decode copies p = (input.retarget original).decode table p := by
  have hunfold (k : Nat) : copies.unfold k = fun i => table.unfold k (original i) := by
    induction k with
    | zero => rfl
    | succ k ih =>
      funext i q
      simp only [InputTable.unfold, ih, ← h i, decodeWith_retarget]
  -- enough unfoldings for both tables
  have hm := Nat.le_max_left (unfoldings m p.depth) (unfoldings n p.depth)
  have hn := Nat.le_max_right (unfoldings m p.depth) (unfoldings n p.depth)
  rw [← decodeWith_unfold hm, ← decodeWith_unfold hn, decodeWith_retarget, hunfold]

end QueryTypes
