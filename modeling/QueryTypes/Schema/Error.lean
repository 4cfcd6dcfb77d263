import QueryTypes.OutputType.Shape
import QueryTypes.Text.Quoted

/-!
# Schema errors

Why a set of type definitions is no schema.
-/

namespace QueryTypes

/-- What a name stands for. -/
inductive NameKind where
  | scalar | enum | enumValue | object | interface | union | input | field | argument
  deriving DecidableEq, Repr

/-- The words for what a name stands for. -/
def NameKind.word : NameKind → String
  | .scalar => "scalar"
  | .enum => "enum"
  | .enumValue => "enum value"
  | .object => "type"
  | .interface => "interface"
  | .union => "union"
  | .input => "input"
  | .field => "field"
  | .argument => "argument"

/-- What a definition needs at least one of. -/
inductive Part where
  | fields | members | values
  deriving DecidableEq, Repr

/-- The word for the parts of a definition. -/
def Part.word : Part → String
  | .fields => "fields"
  | .members => "members"
  | .values => "values"

/-- The cause of a rejected schema. -/
inductive SchemaError where
  /-- A name is not usable in a query document. -/
  | invalidName (name : String) (kind : NameKind)
  /-- A definition has none of the parts it needs. -/
  | emptyType (typeName : String) (missing : Part)
  | duplicateField (field typeName : String)
  | duplicateArgument (argument field typeName : String)
  | duplicateMember (member typeName : String)
  | duplicateEnumValue (value typeName : String)
  /-- A member lacks a field of its interface. -/
  | missingInterfaceField (interface member field : String)
  /-- A member declares a field of its interface differently. -/
  | interfaceFieldMismatch (interface member expected actual : String)
  /-- Two definitions of one kind share a name and declare different things. -/
  | conflictingDefinitions (name : String)
  /-- Two kinds of definition share a name. -/
  | conflictingTypes (name : String) (first second : TypeKind)
  deriving DecidableEq

/-- The error in words. -/
def SchemaError.message : SchemaError → String
  | .invalidName name kind => "invalid " ++ kind.word ++ " name " ++ Text.quoted name
  | .emptyType typeName missing => typeName ++ " declares no " ++ missing.word
  | .duplicateField field typeName => "duplicate field " ++ field ++ " on " ++ typeName
  | .duplicateArgument argument field typeName =>
    "duplicate argument " ++ argument ++ " on " ++ typeName ++ "." ++ field
  | .duplicateMember member typeName => "duplicate member " ++ member ++ " in " ++ typeName
  | .duplicateEnumValue value typeName => "duplicate value " ++ value ++ " in enum " ++ typeName
  | .missingInterfaceField interface member field =>
    member ++ " does not declare field " ++ field ++ " of interface " ++ interface
  | .interfaceFieldMismatch interface member expected actual =>
    member ++ " declares " ++ actual ++ " but interface " ++ interface ++ " declares " ++ expected
  | .conflictingDefinitions name => name ++ " has conflicting definitions"
  | .conflictingTypes name first second =>
    name ++ " is declared as both " ++ first.word ++ " and " ++ second.word

end QueryTypes
