import QueryTypes.InputType.Error

/-!
# Resolving errors

Why a field of a bound value does not resolve, or a bound value does not encode.
-/

namespace QueryTypes

/-- The cause of a failed resolution. -/
inductive ResolveError where
  /-- The type has no such field. -/
  | unknownField (field typeName : String)
  /-- The field has no such argument. -/
  | unknownArgument (argument field typeName : String)
  /-- The arguments do not decode. -/
  | invalidArguments (cause : DecodeError)
  /-- No member accepts the abstract value. -/
  | noMatchingMember (typeName : String)
  /-- The enum has no token for the value. -/
  | unmappedEnumValue (enumName : String)
  deriving DecidableEq

/-- The error in words. -/
def ResolveError.message : ResolveError → String
  | .unknownField field typeName => "unknown field " ++ field ++ " on type " ++ typeName
  | .unknownArgument argument field typeName =>
    "unknown argument " ++ argument ++ " for field " ++ typeName ++ "." ++ field
  | .invalidArguments cause => cause.message
  | .noMatchingMember typeName => "no member of " ++ typeName ++ " matches the value"
  | .unmappedEnumValue enumName => "enum " ++ enumName ++ " has no token for the value"

end QueryTypes
