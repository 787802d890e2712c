import ScreenDoc.Json.Draft
import ScreenDoc.Json.Numeral
import ScreenDoc.Json.StringLiteral

/-!
# Reading text

`Draft.ofText` gives the draft of a text and whether anything stands behind its value. Reading
consumes the text from left to right and stops at the first place where it breaks. The recursion
is bounded by twice the length of the text, since every value begins with a character and every
container with a bracket.
-/

namespace ScreenDoc

/-- What follows a part of the text, unless the text broke in it. -/
abbrev Rest := Except Break (List Char)

namespace Reader

def isBlank (c : Char) : Bool :=
  c == ' ' || c == '\n' || c == '\t' || c == '\r'

def skipBlank (cs : List Char) : List Char :=
  cs.dropWhile isBlank

/-- What follows the rest of a fixed word. -/
def word : List Char → List Char → Rest
  | [], cs => .ok cs
  | _ :: _, [] => .error ⟨.truncated, .truncated, .malformed⟩
  | w :: ws, c :: cs => if c = w then word ws cs else .error (.all .malformed)

/-- A scalar and what follows it. -/
def scalar (read : Except Break (Draft × List Char)) : Draft × Rest :=
  match read with
  | .ok (draft, rest) => (draft, .ok rest)
  | .error place => (.broken place, .error place)

/-- A scalar value, or the place where no value begins. -/
def scalarValue : List Char → Draft × Rest
  | [] => scalar (.error (.all .truncated))
  | 'n' :: cs => scalar ((word ['u', 'l', 'l'] cs).map (Draft.null, ·))
  | 't' :: cs => scalar ((word ['r', 'u', 'e'] cs).map (Draft.bool true, ·))
  | 'f' :: cs => scalar ((word ['a', 'l', 's', 'e'] cs).map (Draft.bool false, ·))
  | '"' :: cs => scalar ((StringLiteral.read cs).map fun (s, rest) => (Draft.string s, rest))
  | c :: cs =>
    if c = '-' ∨ c.isDigit then
      scalar ((Numeral.scan (c :: cs)).map fun (n, rest) => (Draft.number n.value, rest))
    else scalar (.error (.all .malformed))

def keyDue : List Char → Break
  | [] => .all .truncated
  | _ :: _ => .all .malformed

/-- An item by the reader of a value, and the items behind it by theirs. -/
def item (readValue : List Char → Draft × Rest) (readMore : List Char → Items × Rest)
    (cs : List Char) : Items × Rest :=
  match readValue cs with
  | (value, .error place) => (.item value (.broken place), .error place)
  | (value, .ok cs) =>
    let (more, rest) := readMore cs
    (.item value more, rest)

/-- A member by the reader of a value, and the members behind it by theirs. -/
def member (readValue : List Char → Draft × Rest) (readMore : List Char → Members × Rest)
    (cs : List Char) : Members × Rest :=
  match skipBlank cs with
  | '"' :: cs =>
    match StringLiteral.read cs with
    | .error place => (.keyless place, .error place)
    | .ok (key, cs) =>
      let (value, rest) := match skipBlank cs with
        | ':' :: cs => readValue cs
        | [] => scalar (.error (.all .truncated))
        | _ => scalar (.error (.all .malformed))
      match rest with
      | .error place => (.member key value (.broken place), .error place)
      | .ok cs =>
        let (more, rest) := readMore cs
        (.member key value more, rest)
  | cs => (.keyless (keyDue cs), .error (keyDue cs))

mutual

def value : Nat → List Char → Draft × Rest
  | 0, _ => scalar (.error (.all .truncated))
  | fuel + 1, cs =>
    match skipBlank cs with
    | '[' :: cs =>
      let (items, rest) := items fuel cs
      (.array items, rest)
    | '{' :: cs =>
      let (members, rest) := members fuel cs
      (.object members, rest)
    | cs => scalarValue cs

def items : Nat → List Char → Items × Rest
  | 0, _ => (.broken (.all .truncated), .error (.all .truncated))
  | fuel + 1, cs =>
    match skipBlank cs with
    | ']' :: cs => (.close, .ok cs)
    | cs => item (value fuel) (moreItems fuel) cs

def moreItems : Nat → List Char → Items × Rest
  | 0, _ => (.broken (.all .truncated), .error (.all .truncated))
  | fuel + 1, cs =>
    match skipBlank cs with
    | ']' :: cs => (.close, .ok cs)
    | ',' :: cs => item (value fuel) (moreItems fuel) cs
    | [] => (.broken (.all .truncated), .error (.all .truncated))
    | _ => (.broken (.all .malformed), .error (.all .malformed))

def members : Nat → List Char → Members × Rest
  | 0, _ => (.broken (.all .truncated), .error (.all .truncated))
  | fuel + 1, cs =>
    match skipBlank cs with
    | '}' :: cs => (.close, .ok cs)
    | cs => member (value fuel) (moreMembers fuel) cs

def moreMembers : Nat → List Char → Members × Rest
  | 0, _ => (.broken (.all .truncated), .error (.all .truncated))
  | fuel + 1, cs =>
    match skipBlank cs with
    | '}' :: cs => (.close, .ok cs)
    | ',' :: cs => member (value fuel) (moreMembers fuel) cs
    | [] => (.broken (.all .truncated), .error (.all .truncated))
    | _ => (.broken (.all .malformed), .error (.all .malformed))

end

end Reader

def Draft.ofText (text : String) : Draft × Bool :=
  let cs := text.toList
  match Reader.value (2 * cs.length + 2) cs with
  | (draft, .ok rest) => (draft, (Reader.skipBlank rest).isEmpty)
  | (draft, .error _) => (draft, false)

/-- Reads a whole text by a reader of drafts; what stands behind the value is found last. -/
def Draft.readText {α : Type} (read : Draft → Except Failure α) (text : String) :
    Except Failure α := do
  let (draft, ended) := ofText text
  let result ← read draft
  if ended then .ok result else malformed

def Json.ofText (text : String) : Except Failure Json :=
  (Draft.readText (Draft.value Draft.roomAtTop) text).map Json.canonical

end ScreenDoc
