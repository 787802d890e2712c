/-!
# Arguments

What the arguments of a call ask for. Options may stand anywhere behind their command, a value
follows its option or an equals sign, and two dashes end the options. Every option is given at
most once, except that the settings file may be named before and behind the command, and then
the one behind it counts.
-/

namespace ScreenDoc.CommandLine

inductive UsageError where
  | missingCommand
  | unknownCommand (name : String)
  | unexpected (argument : String)
  | missingValue (option : String)
  | invalidValue (option value : String)
  | repeated (option : String)
  | missingFile
  deriving DecidableEq

def UsageError.message : UsageError → String
  | missingCommand => "a command is required: check, outline, invoke or config"
  | unknownCommand name => "unknown command '" ++ name ++ "'"
  | unexpected argument => "unexpected argument '" ++ argument ++ "'"
  | missingValue option => "a value is required for '--" ++ option ++ "'"
  | invalidValue option value => "invalid value '" ++ value ++ "' for '" ++ option ++ "'"
  | repeated option => "'--" ++ option ++ "' is given more than once"
  | missingFile => "a file is required"

/-- How a check reports. -/
inductive Format where
  | text
  | json
  deriving DecidableEq

inductive Command where
  | check (files : List String) (strict denyWarnings : Bool) (format : Format)
  | outline (file : String)
  | invoke (file : String) (behaviors : List String)
  | config
  deriving DecidableEq

structure Invocation where
  /-- A settings file to use instead of the one in its usual place. -/
  settings : Option String
  command : Command
  deriving DecidableEq

/-- The options that can be given, by whether a value belongs to them. -/
structure Accepted where
  flags : List String := []
  valued : List String := ["config"]

/-- What one or two arguments are. -/
inductive Word where
  | flag (name : String)
  | option (name value : String)
  | operand (value : String)
  deriving DecidableEq

/-- An argument that cannot be a value, because it begins like an option. -/
def looksLikeOption (argument : String) : Bool :=
  argument.startsWith "-" && argument != "-"

def longOption? (argument : String) : Option (String × Option String) :=
  match argument.toList with
  | '-' :: '-' :: body =>
    let name := String.ofList (body.takeWhile (· != '='))
    match body.dropWhile (· != '=') with
    | [] => some (name, none)
    | _ :: value => some (name, some (String.ofList value))
  | _ => none

/-- Sorts arguments into words, up to the first operand or, if `whole`, to the end. -/
def words (accepted : Accepted) (whole : Bool) :
    List String → Except UsageError (List Word × List String)
  | [] => .ok ([], [])
  | argument :: rest =>
    if argument = "--" then
      if whole then .ok (rest.map .operand, []) else .ok ([], argument :: rest)
    else
      match longOption? argument with
      | some (name, value) =>
        if name ∈ accepted.flags then
          match value with
          | some value => .error (.invalidValue name value)
          | none => do
            let (found, unread) ← words accepted whole rest
            .ok (.flag name :: found, unread)
        else if name ∈ accepted.valued then
          match value, rest with
          | some value, rest => do
            let (found, unread) ← words accepted whole rest
            .ok (.option name value :: found, unread)
          | none, value :: rest =>
            if looksLikeOption value then .error (.missingValue name)
            else do
              let (found, unread) ← words accepted whole rest
              .ok (.option name value :: found, unread)
          | none, [] => .error (.missingValue name)
        else .error (.unexpected argument)
      | none =>
        if looksLikeOption argument then .error (.unexpected argument)
        else if whole then do
          let (found, unread) ← words accepted whole rest
          .ok (.operand argument :: found, unread)
        else .ok ([], argument :: rest)

def operands (found : List Word) : List String :=
  found.filterMap fun
    | .operand value => some value
    | _ => none

/-- The value of an option that is given at most once. -/
def value? (found : List Word) (name : String) : Except UsageError (Option String) :=
  let values := found.filterMap fun
    | .option given value => if given = name then some value else none
    | _ => none
  match values with
  | [] => .ok none
  | [value] => .ok (some value)
  | _ => .error (.repeated name)

def flag (found : List Word) (name : String) : Except UsageError Bool :=
  match found.count (.flag name) with
  | 0 => .ok false
  | 1 => .ok true
  | _ => .error (.repeated name)

def path (name value : String) : Except UsageError String :=
  if value = "" then .error (.invalidValue name value) else .ok value

def settingsFile (found : List Word) : Except UsageError (Option String) := do
  (← value? found "config").mapM (path "config")

/-- The format of a report, text unless another is named. -/
def format (found : List Word) : Except UsageError Format := do
  match ← value? found "format" with
  | none => .ok .text
  | some "text" => .ok .text
  | some "json" => .ok .json
  | some other => .error (.invalidValue "format" other)

def accepted? : String → Option Accepted
  | "check" => some { flags := ["strict", "deny-warnings"], valued := ["config", "format"] }
  | "outline" | "invoke" | "config" => some {}
  | _ => none

def Command.read (name : String) (found : List Word) : Except UsageError Command := do
  match name, operands found with
  | "check", [] => .error .missingFile
  | "check", files => do
    let files ← files.mapM (path "file")
    .ok (.check files (← flag found "strict") (← flag found "deny-warnings") (← format found))
  | "outline", [] => .error .missingFile
  | "outline", [file] => do .ok (.outline (← path "file" file))
  | "invoke", [] => .error .missingFile
  | "invoke", file :: behaviors => do .ok (.invoke (← path "file" file) behaviors)
  | "config", [] => .ok .config
  | "outline", _ :: extra :: _ | "config", extra :: _ => .error (.unexpected extra)
  | name, _ => .error (.unknownCommand name)

def Invocation.read (arguments : List String) : Except UsageError Invocation := do
  let (before, rest) ← words {} false arguments
  match rest with
  | [] => .error .missingCommand
  | name :: rest =>
    match accepted? name with
    | none => .error (.unknownCommand name)
    | some accepted => do
      let (found, _) ← words accepted true rest
      let outer ← settingsFile before
      let inner ← settingsFile found
      .ok { settings := inner.or outer, command := ← Command.read name found }

end ScreenDoc.CommandLine
