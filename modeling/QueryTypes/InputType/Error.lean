import QueryTypes.Payload

/-!
# Decoding errors

Why a payload does not decode. Decoding stops at the first failure, so there is always one cause.
-/

namespace QueryTypes

/-- The form of payload an input type asks for. -/
inductive Expected where
  | scalar | enum | inputObject | list
  deriving DecidableEq, Repr

/-- The words for a form in error messages. -/
def Expected.word : Expected → String
  | .scalar => "scalar"
  | .enum => "enum"
  | .inputObject => "input object"
  | .list => "list"

/-- The cause of a failed decoding. -/
inductive DecodeError where
  /-- The payload has another form than the type asks for. -/
  | shapeMismatch (expected : Expected) (typeName : String) (actual : Payload.Kind)
  /-- A field without default is absent. -/
  | missingField (field object : String)
  /-- The payload has a field that the input object does not declare. -/
  | unknownField (field object : String)
  /-- The token is not one of the enum's. -/
  | unknownEnumToken (token enumName : String)
  /-- The scalar's own reader refused the leaf. -/
  | invalidScalar (scalar message : String)
  /-- The payload of an argument does not decode. -/
  | invalidArgument (argument : String) (cause : DecodeError)
  /-- An argument without default is absent. -/
  | missingArgument (argument field : String)
  /-- There are more or fewer positional payloads than slots. -/
  | arityMismatch (owner : String) (expected actual : Nat)
  deriving DecidableEq

/-- The error in words. -/
def DecodeError.message : DecodeError → String
  | .shapeMismatch expected typeName actual =>
    "expected " ++ expected.word ++ " for " ++ typeName ++ ", got " ++ actual.word
  | .missingField field object => "missing field " ++ field ++ " in input object " ++ object
  | .unknownField field object => "unknown field " ++ field ++ " in input object " ++ object
  | .unknownEnumToken token enumName => "unknown value " ++ token ++ " for enum " ++ enumName
  | .invalidScalar scalar message => "invalid value for scalar " ++ scalar ++ ": " ++ message
  | .invalidArgument argument cause => "invalid argument " ++ argument ++ ": " ++ cause.message
  | .missingArgument argument field => "missing argument " ++ argument ++ " for field " ++ field
  | .arityMismatch owner expected actual =>
    owner ++ " expects " ++ toString expected ++ " values, got " ++ toString actual

end QueryTypes
