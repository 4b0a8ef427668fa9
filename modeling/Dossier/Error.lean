/-!
# What can be wrong with a request

`CompileError` says why a filter, an update, a sort specification or a name is refused before any
statement runs; `ApplyError` why an update does not fit a stored document. Each has its wording in
`message`.
-/

namespace Dossier

/-- What is wrong with a field path. -/
inductive PathFault
  | empty
  | tooLong
  | emptySegment
  | badCharacter
  | reservedColumn (column : String)
deriving DecidableEq, Repr

/-- What is wrong with the name of a collection. -/
inductive NameFault
  | empty
  | tooLong
  | badStart
  | badCharacter
  | reserved
deriving DecidableEq, Repr

/-- What an operand should have been. -/
inductive OperandFault
  | range
  | array
  | boolean
  | string
  | increment
  | pairs
  | pathEntries
  | paths
deriving DecidableEq, Repr

/-- What has to be a JSON object. -/
inductive Subject
  | filter
  | update
  | sort
deriving DecidableEq, Repr

/-- Why a request is refused before any statement runs. -/
inductive CompileError
  | unknownOperator (field operator : String)
  | unknownUpdateOperator (operator : String)
  | invalidOperand (field operator : String) (fault : OperandFault)
  | mixedOperators (field : String)
  | invalidPath (path : String) (fault : PathFault)
  | protectedField (field : String)
  | emptyUpdate
  | conflictingPaths (path : String)
  | invalidDirection (field : String)
  | notAnObject (subject : Subject)
  | invalidName (name : String) (fault : NameFault)
deriving DecidableEq, Repr

/-- Why an update does not fit a document. -/
inductive ApplyError
  | notAContainer (path segment : String)
  | notANumber (path : String)
  | overflow (path : String)
deriving DecidableEq, Repr

namespace PathFault

def message : PathFault → String
  | empty => "path must not be empty"
  | tooLong => "path exceeds length limit"
  | emptySegment => "path contains an empty segment"
  | badCharacter => "segments may only contain letters, digits, '_' and '-'"
  | reservedColumn column => "column name " ++ column ++ " is reserved"

end PathFault

namespace NameFault

def message : NameFault → String
  | empty => "identifier must not be empty"
  | tooLong => "identifier exceeds length limit"
  | badStart => "identifier must start with a letter or '_'"
  | badCharacter => "identifier may only contain ASCII letters, digits and '_'"
  | reserved => "identifier uses a reserved prefix"

end NameFault

namespace OperandFault

def message : OperandFault → String
  | range => "range operand must be a number or string"
  | array => "operand must be an array"
  | boolean => "operand must be a boolean"
  | string => "operand must be a string"
  | increment => "increment must be a number"
  | pairs => "operand must be an object of path/value pairs"
  | pathEntries => "array entries must be path strings"
  | paths => "operand must be an object or an array of paths"

end OperandFault

namespace Subject

def text : Subject → String
  | filter => "filter"
  | update => "update"
  | sort => "sort specification"

end Subject

/-- A text between backquotes. -/
def ticked (s : String) : String := "\x60" ++ s ++ "\x60"

namespace CompileError

def message : CompileError → String
  | unknownOperator field operator =>
    "filter compile error: unknown operator " ++ ticked operator ++ " on field " ++ ticked field
  | unknownUpdateOperator operator =>
    "update compile error: unknown update operator " ++ ticked operator
  | invalidOperand field operator fault =>
    "filter compile error: invalid operand for " ++ ticked operator ++ " on field "
      ++ ticked field ++ ": " ++ fault.message
  | mixedOperators field =>
    "filter compile error: field " ++ ticked field ++ " mixes operators and literal keys"
  | invalidPath path fault => "invalid field path " ++ ticked path ++ ": " ++ fault.message
  | protectedField field =>
    "update compile error: field " ++ ticked field ++ " is reserved and cannot be modified"
  | emptyUpdate => "update compile error: update document is empty"
  | conflictingPaths path =>
    "update compile error: path " ++ ticked path ++ " is targeted by more than one operator"
  | invalidDirection field =>
    "sort compile error: invalid direction for field " ++ ticked field ++ " (expected 1 or -1)"
  | notAnObject subject => subject.text ++ " must be a JSON object"
  | invalidName name fault => "invalid identifier " ++ ticked name ++ ": " ++ fault.message

end CompileError

namespace ApplyError

def message : ApplyError → String
  | notAContainer path segment =>
    "cannot traverse " ++ ticked path ++ ": segment " ++ ticked segment ++ " is not an object"
  | notANumber path => "cannot increment " ++ ticked path ++ ": current value is not a number"
  | overflow path => "cannot increment " ++ ticked path ++ ": integer overflow"

end ApplyError

end Dossier
