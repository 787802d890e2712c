import ScreenDoc.Binary64.Decimal
import ScreenDoc.Json.Basic

/-!
# Writing JSON

Compact text without spaces, and the indented form that settings are shown in. Fields are written
in the order in which they stand. Every printer takes the text that is to follow, so that writing
is linear and a printed value is always the beginning of a longer text.
-/

namespace ScreenDoc

namespace Json

def hexDigit (n : Nat) : Char :=
  (Nat.toDigits 16 n).getLastD '0'

/-- A character of a string literal: quotes, backslashes and controls are escaped. -/
def escape (c : Char) : List Char :=
  match c with
  | '"' => ['\\', '"']
  | '\\' => ['\\', '\\']
  | '\x08' => ['\\', 'b']
  | '\x0c' => ['\\', 'f']
  | '\n' => ['\\', 'n']
  | '\r' => ['\\', 'r']
  | '\t' => ['\\', 't']
  | c =>
    if c.toNat < 0x20 then
      ['\\', 'u', '0', '0', hexDigit (c.toNat / 16), hexDigit (c.toNat % 16)]
    else [c]

def renderString (s : String) (rest : List Char) : List Char :=
  '"' :: (s.toList.flatMap escape ++ '"' :: rest)

def integerText (n : Int) : List Char :=
  if n < 0 then '-' :: Nat.toDigits 10 n.natAbs else Nat.toDigits 10 n.natAbs

def renderNumber : Number → List Char → List Char
  | .int n, rest => integerText n ++ rest
  | .float x, rest => x.text .json ++ rest

mutual

/-- The compact text of a value before `rest`. -/
def render : Json → List Char → List Char
  | null, rest => 'n' :: 'u' :: 'l' :: 'l' :: rest
  | bool true, rest => 't' :: 'r' :: 'u' :: 'e' :: rest
  | bool false, rest => 'f' :: 'a' :: 'l' :: 's' :: 'e' :: rest
  | number n, rest => renderNumber n rest
  | string s, rest => renderString s rest
  | array [], rest => '[' :: ']' :: rest
  | array (item :: items), rest => '[' :: render item (renderItems items (']' :: rest))
  | object [], rest => '\x7b' :: '\x7d' :: rest
  | object ((key, value) :: fields), rest =>
    '\x7b' :: renderString key (':' :: render value (renderFields fields ('\x7d' :: rest)))

def renderItems : List Json → List Char → List Char
  | [], rest => rest
  | item :: items, rest => ',' :: render item (renderItems items rest)

def renderFields : List (String × Json) → List Char → List Char
  | [], rest => rest
  | (key, value) :: fields, rest =>
    ',' :: renderString key (':' :: render value (renderFields fields rest))

end

def text (j : Json) : String :=
  String.ofList (render j [])

/-- A line break and two spaces for each level. -/
def newLine (level : Nat) (rest : List Char) : List Char :=
  '\n' :: (List.replicate (2 * level) ' ' ++ rest)

mutual

def renderIndented (level : Nat) : Json → List Char → List Char
  | array (item :: items), rest =>
    '[' :: newLine (level + 1) (renderIndented (level + 1) item
      (renderIndentedItems (level + 1) items (newLine level (']' :: rest))))
  | object ((key, value) :: fields), rest =>
    '\x7b' :: newLine (level + 1) (renderString key (':' :: ' ' ::
      renderIndented (level + 1) value
        (renderIndentedFields (level + 1) fields (newLine level ('\x7d' :: rest)))))
  | array [], rest => '[' :: ']' :: rest
  | object [], rest => '\x7b' :: '\x7d' :: rest
  | null, rest => render null rest
  | bool b, rest => render (bool b) rest
  | number n, rest => render (number n) rest
  | string s, rest => render (string s) rest

def renderIndentedItems (level : Nat) : List Json → List Char → List Char
  | [], rest => rest
  | item :: items, rest =>
    ',' :: newLine level (renderIndented level item (renderIndentedItems level items rest))

def renderIndentedFields (level : Nat) : List (String × Json) → List Char → List Char
  | [], rest => rest
  | (key, value) :: fields, rest =>
    ',' :: newLine level (renderString key (':' :: ' ' ::
      renderIndented level value (renderIndentedFields level fields rest)))

end

def indentedText (j : Json) : String :=
  String.ofList (renderIndented 0 j [])

end Json

end ScreenDoc
