import ScreenDoc.Finding

/-!
# Refused texts

Why a text gives no node, document or payload, and the one finding that stands for the refusal. A
text that holds nothing but spaces is refused before it is read.
-/

namespace ScreenDoc

namespace Text

/-- The characters with the property `White_Space`. -/
def isSpace (c : Char) : Bool :=
  let n := c.toNat
  (0x09 ≤ n && n ≤ 0x0D) || n == 0x20 || n == 0x85 || n == 0xA0 || n == 0x1680
    || (0x2000 ≤ n && n ≤ 0x200A) || n == 0x2028 || n == 0x2029 || n == 0x202F || n == 0x205F
    || n == 0x3000

def isBlank (s : String) : Bool :=
  s.toList.all isSpace

end Text

inductive DecodeError where
  /-- The text is blank. -/
  | empty
  | malformed (failure : Failure)
  deriving DecidableEq

def Failure.reason : Failure → String
  | fault .truncated => "the text ends too early"
  | fault .malformed => "the text is not JSON"
  | mismatch => "the value has another form"

namespace DecodeError

def message : DecodeError → String
  | empty => "input is empty"
  | malformed failure => "malformed JSON: " ++ failure.reason

def code : DecodeError → ErrorCode
  | empty => .emptyJson
  | malformed _ => .malformedJson

def finding (e : DecodeError) : Finding :=
  .error "root" e.code e.message

/-- Refuses a blank text before it is read. -/
def guard {α : Type} (text : String) (read : String → Except Failure α) : Except DecodeError α :=
  if Text.isBlank text then .error .empty else (read text).mapError .malformed

end DecodeError

end ScreenDoc
