import QueryTypes.Json.Basic

/-!
# Reading JSON

A reader of JSON documents over lists of characters. Each part returns what it read and the rest of
the text. Documents nest less than 128 levels deep, strings hold no raw control characters and no
lone surrogates, and numbers follow the JSON grammar.
-/

namespace QueryTypes.Json.Reader

/-- The four blanks of JSON. -/
def isBlank (c : Char) : Bool := c == ' ' || c == '\t' || c == '\n' || c == '\r'

def skipBlanks (s : List Char) : List Char := s.dropWhile isBlank

/-- The rest of the text after `word`. -/
def expect : List Char → List Char → Option (List Char)
  | [], s => some s
  | c :: word, d :: s => if c = d then expect word s else none
  | _ :: _, [] => none

/-! ## Numbers -/

def digitValue (c : Char) : Nat := c.toNat - '0'.toNat

/-- A digit appended to a significand of 64 bits, if it still fits. -/
def appendDigit (significand digit : Nat) : Option Nat :=
  let s := significand * 10 + digit
  if s < Nat.pow 2 64 then some s else none

/-- The digits before the point: the significand, and how many digits no longer fitted. -/
def wholeDigits : List Nat → Nat → Nat × Nat
  | [], s => (s, 0)
  | d :: rest, s =>
    match appendDigit s d with
    | some s' => wholeDigits rest s'
    | none => (s, rest.length + 1)

/-- The digits after the point: the significand, and how many digits it took. -/
def fractionDigits : List Nat → Nat → Nat × Nat
  | [], s => (s, 0)
  | d :: rest, s =>
    match appendDigit s d with
    | some s' => let r := fractionDigits rest s'; (r.1, r.2 + 1)
    | none => (s, 0)

/-- The double nearest to `10 ^ e`. -/
def powerOfTen (e : Nat) : Float := Float.ofScientific 1 false e

/-- A significand times a power of ten in double arithmetic; `none` where it overflows. Powers
below `1e-308` are reached in steps, and nothing of a 64-bit significand survives three. -/
def scale : Nat → Float → Int → Option Float
  | 0, f, _ => some f
  | steps + 1, f, e =>
    if e.natAbs ≤ 308 then
      if 0 ≤ e then
        let r := f * powerOfTen e.natAbs
        if r.isFinite then some r else none
      else some (f / powerOfTen e.natAbs)
    else if f == 0 then some f
    else if 0 ≤ e then none
    else scale steps (f / powerOfTen 308) (e + 308)

/-- A run of digits. -/
def digits (s : List Char) : List Nat × List Char :=
  ((s.takeWhile Char.isDigit).map digitValue, s.dropWhile Char.isDigit)

/-- The fraction of a number, if it has one: at least one digit after the point. -/
def fraction (s : List Char) : Option (Option (List Nat) × List Char) :=
  match s with
  | '.' :: rest =>
    match digits rest with
    | ([], _) => none
    | (ds, rest) => some (some ds, rest)
  | s => some (none, s)

/-- The digits of an exponent. -/
def exponentDigits (negative : Bool) (s : List Char) : Option (Option Int × List Char) :=
  match digits s with
  | ([], _) => none
  | (ds, rest) =>
    let e : Int := (ds.foldl (fun n d => n * 10 + d) 0 : Nat)
    some (some (if negative then -e else e), rest)

/-- The exponent of a number, if it has one. -/
def exponent (s : List Char) : Option (Option Int × List Char) :=
  match s with
  | c :: rest =>
    if c = 'e' ∨ c = 'E' then
      match rest with
      | '+' :: rest => exponentDigits false rest
      | '-' :: rest => exponentDigits true rest
      | rest => exponentDigits false rest
    else some (none, s)
  | [] => some (none, [])

/-- The number with the given parts. Without fraction and exponent it is an integer where it fits,
except that minus zero is a double. -/
def assemble (negative : Bool) (whole : List Nat) (frac : Option (List Nat)) (exp : Option Int) :
    Option Number :=
  let (s, dropped) := wholeDigits whole 0
  let signed (f : Float) : Number := .float (if negative then -f else f)
  match frac, exp with
  | none, none =>
    if dropped = 0 then
      if !negative then some (.int s)
      else if s = 0 ∨ Nat.pow 2 63 < s then some (signed (UInt64.ofNat s).toFloat)
      else some (.int (-s))
    else (scale 4 (UInt64.ofNat s).toFloat dropped).map signed
  | _, _ =>
    let (s, taken) := fractionDigits (frac.getD []) s
    (scale 4 (UInt64.ofNat s).toFloat (dropped - taken + exp.getD 0)).map signed

/-- A number without leading zeros. -/
def number (s : List Char) : Option (Number × List Char) := do
  let (negative, s) := match s with
    | '-' :: rest => (true, rest)
    | s => (false, s)
  let (whole, s) ← match digits s with
    | ([], _) => none
    | (0 :: _ :: _, _) => none
    | r => some r
  let (frac, s) ← fraction s
  let (exp, s) ← exponent s
  let n ← assemble negative whole frac exp
  return (n, s)

/-! ## Strings -/

def hexValue (c : Char) : Option Nat :=
  if c.isDigit then some (c.toNat - '0'.toNat)
  else if 'a' ≤ c ∧ c ≤ 'f' then some (c.toNat - 'a'.toNat + 10)
  else if 'A' ≤ c ∧ c ≤ 'F' then some (c.toNat - 'A'.toNat + 10)
  else none

/-- A UTF-16 unit written as four hexadecimal digits. -/
def unit : List Char → Option (Nat × List Char)
  | a :: b :: c :: d :: rest => do
    return ((((← hexValue a) * 16 + (← hexValue b)) * 16 + (← hexValue c)) * 16 + (← hexValue d),
      rest)
  | _ => none

/-- The character of an escape; the backslash is read already. A high surrogate needs its low one
in a second escape. -/
def escaped : List Char → Option (Char × List Char)
  | '"' :: rest => some ('"', rest)
  | '\\' :: rest => some ('\\', rest)
  | '/' :: rest => some ('/', rest)
  | 'b' :: rest => some ('\x08', rest)
  | 'f' :: rest => some ('\x0c', rest)
  | 'n' :: rest => some ('\n', rest)
  | 'r' :: rest => some ('\r', rest)
  | 't' :: rest => some ('\t', rest)
  | 'u' :: rest =>
    match unit rest with
    | none => none
    | some (high, rest) =>
      if 0xDC00 ≤ high ∧ high < 0xE000 then none
      else if high < 0xD800 ∨ 0xE000 ≤ high then some (Char.ofNat high, rest)
      else
        match rest with
        | '\\' :: 'u' :: rest =>
          match unit rest with
          | none => none
          | some (low, rest) =>
            if 0xDC00 ≤ low ∧ low < 0xE000 then
              some (Char.ofNat (0x10000 + (high - 0xD800) * 0x400 + (low - 0xDC00)), rest)
            else none
        | _ => none
  | _ => none

/-- The characters of a string up to its closing quote; `fuel` bounds their number. -/
def stringBody : Nat → List Char → Option (List Char × List Char)
  | 0, _ => none
  | fuel + 1, s =>
    match s with
    | [] => none
    | '"' :: rest => some ([], rest)
    | '\\' :: rest => do
      let (c, rest) ← escaped rest
      let (cs, rest) ← stringBody fuel rest
      return (c :: cs, rest)
    | c :: rest =>
      if c.toNat < 32 then none
      else do
        let (cs, rest) ← stringBody fuel rest
        return (c :: cs, rest)

/-- A string; the opening quote is read already. -/
def string (s : List Char) : Option (String × List Char) :=
  (stringBody (s.length + 1) s).map fun r => (String.ofList r.1, r.2)

/-! ## Values -/

mutual
/-- A value that nests less than `depth` levels; `fuel` bounds the number of steps. -/
def value : Nat → Nat → List Char → Option (Json × List Char)
  | 0, _, _ => none
  | fuel + 1, depth, s =>
    match skipBlanks s with
    | '"' :: rest => (string rest).map fun r => (.string r.1, r.2)
    | '[' :: rest =>
      if depth ≤ 1 then none
      else
        match skipBlanks rest with
        | ']' :: rest => some (.array [], rest)
        | rest => (items fuel (depth - 1) rest).map fun r => (.array r.1, r.2)
    | '\x7b' :: rest =>
      if depth ≤ 1 then none
      else
        match skipBlanks rest with
        | '\x7d' :: rest => some (.object [], rest)
        | rest => (members fuel (depth - 1) rest).map fun r => (ofMembers r.1, r.2)
    | 'n' :: rest => (expect ['u', 'l', 'l'] rest).map fun r => (.null, r)
    | 't' :: rest => (expect ['r', 'u', 'e'] rest).map fun r => (.bool true, r)
    | 'f' :: rest => (expect ['a', 'l', 's', 'e'] rest).map fun r => (.bool false, r)
    | s => (number s).map fun r => (.number r.1, r.2)

/-- The items of an array up to its closing bracket, at least one. -/
def items : Nat → Nat → List Char → Option (List Json × List Char)
  | 0, _, _ => none
  | fuel + 1, depth, s => do
    let (j, rest) ← value fuel depth s
    match skipBlanks rest with
    | ']' :: rest => return ([j], rest)
    | ',' :: rest => do
      let (js, rest) ← items fuel depth rest
      return (j :: js, rest)
    | _ => none

/-- The members of an object up to its closing brace, at least one. -/
def members : Nat → Nat → List Char → Option (List (String × Json) × List Char)
  | 0, _, _ => none
  | fuel + 1, depth, s =>
    match skipBlanks s with
    | '"' :: rest => do
      let (k, rest) ← string rest
      match skipBlanks rest with
      | ':' :: rest => do
        let (j, rest) ← value fuel depth rest
        match skipBlanks rest with
        | '\x7d' :: rest => return ([(k, j)], rest)
        | ',' :: rest => do
          let (ms, rest) ← members fuel depth rest
          return ((k, j) :: ms, rest)
        | _ => none
      | _ => none
    | _ => none
end

end QueryTypes.Json.Reader

namespace QueryTypes.Json

/-- The value of a JSON document, with nothing but blanks around it. -/
def ofText? (text : String) : Option Json :=
  let s := text.toList
  match Reader.value (2 * s.length + 2) 128 s with
  | some (j, rest) => if (Reader.skipBlanks rest).isEmpty then some j else none
  | none => none

end QueryTypes.Json
