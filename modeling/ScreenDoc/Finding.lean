import ScreenDoc.Json.Fault

/-!
# Findings

What validation reports: a place, a code, a severity and a message. Findings are data, never
failures; whoever asks for them decides which ones matter.
-/

namespace ScreenDoc

inductive ErrorCode where
  | emptyJson
  | malformedJson
  | unknownComposeType
  | propertiesTypeMismatch
  | unknownModifierOperation
  | modifierValueOutOfRange
  | invalidHexColor
  | childrenOnLeafNode
  | invalidArrangement
  | invalidAlignment
  | unrecognizedProperties
  deriving DecidableEq

namespace ErrorCode

def all : List ErrorCode :=
  [emptyJson, malformedJson, unknownComposeType, propertiesTypeMismatch, unknownModifierOperation,
    modifierValueOutOfRange, invalidHexColor, childrenOnLeafNode, invalidArrangement,
    invalidAlignment, unrecognizedProperties]

def name : ErrorCode → String
  | emptyJson => "EMPTY_JSON"
  | malformedJson => "MALFORMED_JSON"
  | unknownComposeType => "UNKNOWN_COMPOSE_TYPE"
  | propertiesTypeMismatch => "PROPERTIES_TYPE_MISMATCH"
  | unknownModifierOperation => "UNKNOWN_MODIFIER_OPERATION"
  | modifierValueOutOfRange => "MODIFIER_VALUE_OUT_OF_RANGE"
  | invalidHexColor => "INVALID_HEX_COLOR"
  | childrenOnLeafNode => "CHILDREN_ON_LEAF_NODE"
  | invalidArrangement => "INVALID_ARRANGEMENT"
  | invalidAlignment => "INVALID_ALIGNMENT"
  | unrecognizedProperties => "UNRECOGNIZED_PROPERTIES"

def named? (s : String) : Option ErrorCode :=
  all.find? fun code => code.name == s

end ErrorCode

inductive Severity where
  | error
  | warning
  deriving DecidableEq

namespace Severity

def name : Severity → String
  | error => "Error"
  | warning => "Warning"

def word : Severity → String
  | error => "error"
  | warning => "warning"

def named? (s : String) : Option Severity :=
  [error, warning].find? fun severity => severity.name == s

end Severity

/-- One thing found; `path` leads to it from the top of the payload. -/
structure Finding where
  path : String
  message : String
  code : ErrorCode
  severity : Severity
  deriving DecidableEq

namespace Finding

def error (path : String) (code : ErrorCode) (message : String) : Finding :=
  ⟨path, message, code, .error⟩

def warning (path : String) (code : ErrorCode) (message : String) : Finding :=
  ⟨path, message, code, .warning⟩

def line (f : Finding) : String :=
  f.severity.word ++ " [" ++ f.code.name ++ "] " ++ f.path ++ ": " ++ f.message

def repeats (f g : Finding) : Bool :=
  f.path == g.path && f.code == g.code

/-- The findings without those that repeat the place and code of an earlier one. -/
def distinct (findings : List Finding) : List Finding :=
  findings.foldl (fun kept f => if kept.any f.repeats then kept else kept ++ [f]) []

def isValid (findings : List Finding) : Bool :=
  !findings.any fun f => f.severity == .error

def isClean (findings : List Finding) : Bool :=
  findings.isEmpty

def warnings (findings : List Finding) : List Finding :=
  findings.filter fun f => f.severity == .warning

def codes (findings : List Finding) : List ErrorCode :=
  findings.map Finding.code

end Finding

end ScreenDoc
