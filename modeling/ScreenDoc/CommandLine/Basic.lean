import ScreenDoc.Binding
import ScreenDoc.CommandLine.Arguments
import ScreenDoc.DecodeError
import ScreenDoc.Node.Flatten
import ScreenDoc.Settings
import ScreenDoc.Text.Quoted
import ScreenDoc.Validate.Basic
import ScreenDoc.Wire.Document
import ScreenDoc.Wire.Finding

/-!
# The command line

Checks files, shows the outline of a tree, invokes behaviors and shows settings. Files are read
only through a function that is handed in, so that a whole call is a value: an exit code and the
texts for the two output streams.
-/

namespace ScreenDoc.CommandLine

inductive ReadFault where
  | notFound
  | isDirectory
  | notDirectory
  | denied
  | other (reason : String)
  deriving DecidableEq

def ReadFault.message : ReadFault → String
  | notFound => "No such file or directory (os error 2)"
  | isDirectory => "Is a directory (os error 21)"
  | notDirectory => "Not a directory (os error 20)"
  | denied => "Permission denied (os error 13)"
  | other reason => reason

/-- Where settings may lie. -/
structure Environment where
  configHome : Option String
  home : Option String
  temporary : String
  deriving Inhabited

def below (directory name : String) : String :=
  if directory = "" || directory.endsWith "/" then directory ++ name
  else directory ++ "/" ++ name

/-- The usual place of the settings; a directory for settings counts only if it is absolute. -/
def Environment.settingsPath (env : Environment) : String :=
  let base := match env.configHome.filter fun directory => directory.startsWith "/" with
    | some directory => directory
    | none =>
      match env.home with
      | some home => below home ".config"
      | none => env.temporary
  below (below base "sdui") "settings.json"

/-- What a call comes to; each text is followed by a line break. -/
structure Outcome where
  code : Nat := 0
  stdout : List String := []
  stderr : List String := []
  deriving Inhabited

namespace Outcome

/-- A call that ends with an error and, where there is one, its cause. -/
def failure (message : String) (cause : Option String) : Outcome where
  code := 1
  stderr := ("Error: " ++ message) :: match cause with
    | some cause => ["", "Caused by:", "    " ++ cause]
    | none => []

/-- The outcome with texts before those on the error stream. -/
def after (stderr : List String) (o : Outcome) : Outcome :=
  { o with stderr := stderr ++ o.stderr }

end Outcome

/-- A log line; further lines of the message are indented. -/
def logLine (level message : String) : String :=
  level ++ ": " ++ message.replace "\n" "\n    "

/-- What a sink record puts on the error stream. -/
def recordLine : SinkRecord → String
  | .log message => message
  | .warn warning => logLine "WARN" warning.message

/-- Whether findings fail a check. -/
def fails (denyWarnings : Bool) (findings : List Finding) : Bool :=
  !Finding.isValid findings || (denyWarnings && !Finding.isClean findings)

def textReport (file : String) (findings : List Finding) : List String :=
  if Finding.isClean findings then [file ++ ": ok"]
  else findings.map fun f => file ++ ": " ++ f.line

def jsonReport (file : String) (findings : List Finding) : Json :=
  .object [("file", .string file), ("errors", .array (findings.map Finding.toJson)),
    ("isValid", .bool (Finding.isValid findings)), ("isClean", .bool (Finding.isClean findings))]

def check (strict denyWarnings : Bool) (format : Format) (texts : List (String × String)) :
    Outcome :=
  let results := texts.map fun (file, text) => (file, Payload.validate strict text)
  { code := if results.any fun (_, findings) => fails denyWarnings findings then 1 else 0
    stdout := match format with
      | .text => results.flatMap fun (file, findings) => textReport file findings
      | .json =>
        [(Json.array (results.map fun (file, findings) => jsonReport file findings)).indentedText] }

def outline (payload : Payload) : Outcome where
  stdout := payload.root.flatten.map fun row =>
    String.ofList (List.replicate (2 * row.depth) ' ') ++ row.id ++
      match row.node.textValue with
      | some text => " " ++ Text.quoted text
      | none => ""

/-- Invokes behaviors by name; the result is the machine, the error stream and the unknown names. -/
def invokeAll (binding : Binding) : List String → Machine Unit →
    Machine Unit × List String × List String
  | [], m => (m, [], [])
  | name :: names, m =>
    match binding.behavior? name with
    | some behavior =>
      let order := Order.invoke behavior
      let next := (m.perform .inert (order.nesting + 1) order).getD m
      let shown := (next.world.records.drop m.world.records.length).map recordLine
      let (last, stderr, missing) := invokeAll binding names next
      (last, shown ++ stderr, missing)
    | none =>
      let (last, stderr, missing) := invokeAll binding names m
      (last, logLine "WARN" (Binding.unknownBehavior name) :: stderr, name :: missing)

/-- Binds a document, invokes behaviors and shows the state that they leave. -/
def invoke (settings : Settings) (payload : Payload) (behaviors : List String) : Outcome :=
  let binder : Binder := { maxDepth := settings.maxDepth }
  let (binding, m) := binder.bind payload.toDocument { app := () }
  let (m, stderr, missing) := invokeAll binding behaviors m
  let stdout := [(Json.object (binding.states.snapshot m.world.cells)).indentedText]
  if missing.isEmpty then { stdout, stderr }
  else
    let unknown := logLine "ERROR" ("unknown behaviors: " ++ ", ".intercalate missing)
    { code := 1, stdout, stderr := stderr ++ [unknown] }

section Files

variable {m : Type → Type} [Monad m] (read : String → m (Except ReadFault String))

def withText (file : String) (next : String → m Outcome) : m Outcome := do
  match ← read file with
  | .ok text => next text
  | .error fault => pure (.failure ("failed to read " ++ file) fault.message)

def withTexts (files : List String) (next : List (String × String) → m Outcome) : m Outcome :=
  match files with
  | [] => next []
  | file :: files => withText read file fun text =>
      withTexts files fun texts => next ((file, text) :: texts)

def withPayload (file : String) (next : Payload → m Outcome) : m Outcome :=
  withText read file fun text =>
    match Payload.decode text with
    | .ok payload => next payload
    | .error e => pure (.failure (file ++ ": " ++ e.finding.line) none)

/-- Goes on with the settings; ones that are not JSON are warned about and left aside. -/
def withSettings (source : String) (next : Settings → m Outcome) : m Outcome := do
  match ← read source with
  | .error .notFound => next {}
  | .error fault => pure (.failure "settings IO failed" fault.message)
  | .ok text =>
    match Settings.ofText text with
    | .ok settings => next settings
    | .error failure =>
      let warning := "settings at " ++ source ++ " are invalid, using defaults: " ++ failure.reason
      return (← next {}).after [logLine "WARN" warning]

def Command.run (settings : Settings) : Command → m Outcome
  | .check files strict denyWarnings format =>
    withTexts read files fun texts =>
      pure (CommandLine.check (settings.strict || strict) (settings.denyWarnings || denyWarnings)
        format texts)
  | .outline file => withPayload read file fun payload => pure (CommandLine.outline payload)
  | .invoke file behaviors =>
    withPayload read file fun payload => pure (CommandLine.invoke settings payload behaviors)
  | .config => pure { stdout := [settings.toJson.indentedText] }

/-- Answers a call. Arguments that are refused have an exit code of their own. -/
def run (env : Environment) (arguments : List String) : m Outcome :=
  match Invocation.read arguments with
  | .error e => pure { code := 2, stderr := ["error: " ++ e.message] }
  | .ok { settings, command } =>
    withSettings read (settings.getD env.settingsPath) fun settings => command.run read settings

end Files

end ScreenDoc.CommandLine
