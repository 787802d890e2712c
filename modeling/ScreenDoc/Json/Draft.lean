import ScreenDoc.Json.Basic
import ScreenDoc.Json.Fault

/-!
# Drafts

What a text gives before anything is asked of it: its values in text order, with repeated keys,
up to the first place where it stops being JSON. Whoever reads a draft walks it in that order, so
the first failure met is the one that counts. Numbers out of range and strings with a lone
surrogate are marked and matter only to a reader, and so does nesting.
-/

namespace ScreenDoc

mutual

/-- A value as far as the text gives it. -/
inductive Draft where
  | null
  | bool (value : Bool)
  /-- A number, unless it is out of range. -/
  | number (value : Option Number)
  /-- A string, unless a surrogate in it stands alone. -/
  | string (value : Option String)
  | array (items : Items)
  | object (members : Members)
  /-- No value: the text breaks off here. -/
  | broken (place : Break)

/-- What stands between the brackets of an array. -/
inductive Items where
  | close
  | item (value : Draft) (rest : Items)
  /-- Neither a comma nor the closing bracket follows. -/
  | broken (place : Break)

/-- What stands between the braces of an object. -/
inductive Members where
  | close
  | member (key : Option String) (value : Draft) (rest : Members)
  /-- A key is due, but no whole string stands there. -/
  | keyless (place : Break)
  /-- Neither a comma nor the closing brace follows. -/
  | broken (place : Break)

end

namespace Draft

/-- The most containers that may stand one inside the other in what is read. -/
def roomAtTop : Nat := 127

/-- Fails where a text breaks for a reader. -/
def fail {α : Type} (place : Break) : Except Failure α :=
  .error (.fault place.read)

def malformed {α : Type} : Except Failure α :=
  .error (.fault .malformed)

/-- The value is JSON, but of another form. -/
def mismatch {α : Type} : Except Failure α :=
  .error .mismatch

/-- A string as a reader takes it. -/
def whole {α : Type} : Option α → Except Failure α
  | some a => .ok a
  | none => malformed

/-- Enters a container: fails when no room is left for another one. -/
def enter {α : Type} (room : Nat) (read : Nat → Except Failure α) : Except Failure α :=
  match room with
  | 0 => malformed
  | room + 1 => read room

/-- The failure of a reader that met a value of a form it does not take. Scalars are read to
their end first; containers are not entered. -/
def unexpected {α : Type} : Draft → Except Failure α
  | number none => malformed
  | string none => malformed
  | broken place => fail place
  | _ => mismatch

end Draft

mutual

/-- The value as it stands in the text, with at most `room` containers one inside the other. -/
def Draft.value (room : Nat) : Draft → Except Failure Json
  | .null => .ok .null
  | .bool b => .ok (.bool b)
  | .number n => do .ok (.number (← Draft.whole n))
  | .string s => do .ok (.string (← Draft.whole s))
  | .array items => Draft.enter room fun room => do .ok (.array (← items.values room))
  | .object members => Draft.enter room fun room => do .ok (.object (← members.values room))
  | .broken place => Draft.fail place

def Items.values (room : Nat) : Items → Except Failure (List Json)
  | .close => .ok []
  | .item value rest => do
    let value ← value.value room
    .ok (value :: (← rest.values room))
  | .broken place => Draft.fail place

def Members.values (room : Nat) : Members → Except Failure (List (String × Json))
  | .close => .ok []
  | .member key value rest => do
    let key ← Draft.whole key
    let value ← value.value room
    .ok ((key, value) :: (← rest.values room))
  | .keyless place => Draft.fail place
  | .broken place => Draft.fail place

end

mutual

/-- Passes over a value: only a break of the text fails. -/
def Draft.skip : Draft → Except Failure Unit
  | .array items => items.skip
  | .object members => members.skip
  | .broken place => .error (.fault place.skipped)
  | .null => .ok ()
  | .bool _ => .ok ()
  | .number _ => .ok ()
  | .string _ => .ok ()

def Items.skip : Items → Except Failure Unit
  | .close => .ok ()
  | .item value rest => do
    value.skip
    rest.skip
  | .broken place => .error (.fault place.skipped)

def Members.skip : Members → Except Failure Unit
  | .close => .ok ()
  | .member _ value rest => do
    value.skip
    rest.skip
  | .keyless place => .error (.fault place.skipped)
  | .broken place => .error (.fault place.skipped)

end

/-- Reads the fields of a record in text order. A field may occur once; keys that are no field
are passed over. -/
def Members.fold {σ : Type} (add : σ → String → Draft → Except Failure σ) (names : List String) :
    List String → Members → σ → Except Failure σ
  | _, .close, state => .ok state
  | _, .broken place, _ => Draft.fail place
  | _, .keyless place, _ => Draft.fail place
  | seen, .member key value rest, state => do
    let key ← Draft.whole key
    if key ∈ names then
      if key ∈ seen then Draft.mismatch
      else rest.fold add names (key :: seen) (← add state key value)
    else
      value.skip
      rest.fold add names seen state

/-- Reads the fields of a record by position; there may be fewer items than fields. -/
def Items.fold {σ : Type} (add : σ → String → Draft → Except Failure σ) :
    List String → Items → σ → Except Failure σ
  | _, .close, state => .ok state
  | _, .broken place, _ => Draft.fail place
  | [], .item _ _, _ => Draft.malformed
  | name :: names, .item value rest, state => do
    rest.fold add names (← add state name value)

/-- Reads a record from an object or, by position, from an array. -/
def Draft.record {σ : Type} (names : List String)
    (add : Nat → σ → String → Draft → Except Failure σ) (start : σ) (room : Nat) :
    Draft → Except Failure σ
  | .object members => enter room fun room => members.fold (add room) names [] start
  | .array items => enter room fun room => items.fold (add room) names start
  | other => other.unexpected

def Items.list {α : Type} (read : Draft → Except Failure α) : Items → Except Failure (List α)
  | .close => .ok []
  | .item value rest => do
    let value ← read value
    .ok (value :: (← rest.list read))
  | .broken place => Draft.fail place

def Draft.list {α : Type} (read : Nat → Draft → Except Failure α) (room : Nat) :
    Draft → Except Failure (List α)
  | .array items => enter room fun room => items.list (read room)
  | other => other.unexpected

/-- Reads every member of an object, in text order. -/
def Members.entries {α : Type} (read : Draft → Except Failure α) :
    Members → Except Failure (List (String × α))
  | .close => .ok []
  | .member key value rest => do
    let key ← Draft.whole key
    let value ← read value
    .ok ((key, value) :: (← rest.entries read))
  | .keyless place => Draft.fail place
  | .broken place => Draft.fail place

def Draft.entries {α : Type} (read : Nat → Draft → Except Failure α) (room : Nat) :
    Draft → Except Failure (List (String × α))
  | .object members => enter room fun room => members.entries (read room)
  | other => other.unexpected

def Draft.text : Draft → Except Failure String
  | .string s => whole s
  | other => other.unexpected

def Draft.optional {α : Type} (read : Draft → Except Failure α) : Draft → Except Failure (Option α)
  | .null => .ok none
  | other => do .ok (some (← read other))

/-- Reads one of some names: a string, or an object that gives the name `null`. -/
def Draft.name {α : Type} (named? : String → Option α) (room : Nat) : Draft → Except Failure α
  | .string s => do pick (← whole s)
  | .object members => enter room fun _ =>
    match members with
    | .close => malformed
    | .broken place => fail place
    | .keyless place => fail place
    | .member key value rest => do
      let name ← pick (← whole key)
      match value with
      | .null =>
        match rest with
        | .close => .ok name
        | .broken place => fail place
        | _ => malformed
      | other => other.unexpected
  | .broken place => .error (.fault place.named)
  | _ => malformed
where
  pick (s : String) : Except Failure α :=
    match named? s with
    | some name => .ok name
    | none => mismatch

/-- The tag of a tagged object and its other fields, in text order. -/
def Members.tagged (isTag : String → Bool) (room : Nat) :
    Option String → Members → Except Failure (String × List (String × Json))
  | some tag, .close => .ok (tag, [])
  | none, .close => Draft.mismatch
  | _, .broken place => Draft.fail place
  | _, .keyless place => Draft.fail place
  | tag, .member key value rest => do
    let key ← Draft.whole key
    if key = "type" then
      if tag.isSome then Draft.mismatch
      else
        let name ← value.text
        if isTag name then rest.tagged isTag room (some name) else Draft.mismatch
    else
      let value ← value.value room
      let (tag, fields) ← rest.tagged isTag room tag
      .ok (tag, (key, value) :: fields)

/-- Reads a tagged object: its tag is judged where it stands, everything else is kept as it is. In
an array the first item is the tag. -/
def Draft.tagged (isTag : String → Bool) (room : Nat) : Draft → Except Failure (String × Json)
  | .object members => enter room fun room => do
    let (tag, fields) ← members.tagged isTag room none
    .ok (tag, .object fields)
  | .array items => enter room fun room =>
    match items with
    | .close => mismatch
    | .broken place => fail place
    | .item first rest => do
      let name ← first.text
      if isTag name then .ok (name, .array (← rest.values room)) else mismatch
  | other => other.unexpected

end ScreenDoc
