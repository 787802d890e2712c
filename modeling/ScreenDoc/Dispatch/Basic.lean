import ScreenDoc.Action
import ScreenDoc.State.Registry

/-!
# Dispatch

A dispatcher carries out actions on the cells that its registry names. Nothing fails: an action
that cannot be carried out leaves a warning and the next one runs. Custom actions and the
application's own behaviors call the application, which may react with further orders, on the
same dispatcher too, and choose each in view of what came of the last; a run is therefore followed
for a given number of nested steps, and one that goes deeper has no result.
-/

namespace ScreenDoc

/-- Why an action was not carried out. -/
inductive Warning where
  | dropped (tag : String) (depth limit : Nat)
  | noHost (tag key : String)
  | notBoolean (key typeName : String)
  | noHandler (customType : String)
  deriving DecidableEq, Inhabited

def Warning.message : Warning → String
  | dropped tag depth limit =>
    "dropping " ++ tag ++ " action: dispatch depth " ++ toString depth ++ " exceeds limit "
      ++ toString limit
  | noHost tag key => tag ++ " ignored: no state host named '" ++ key ++ "'"
  | notBoolean key typeName =>
    "ToggleState ignored: state '" ++ key ++ "' holds " ++ typeName ++ ", not Boolean"
  | noHandler customType => "Custom action ignored: no handler for '" ++ customType ++ "'"

/-- What arrives at the log sink. -/
inductive SinkRecord where
  | log (message : String)
  | warn (warning : Warning)
  deriving DecidableEq, Inhabited

/-- What the application is called for: a custom action, or one of its own behaviors. -/
inductive Call where
  | custom (customType : String) (params : Json.Map)
  | behavior (id : Nat)
  deriving Inhabited

/-- A call, with the number of sink records at that moment. -/
structure NotedCall where
  call : Call
  recordsBefore : Nat
  deriving Inhabited

/-- What a run has brought about so far. The application sees this much and no more. -/
structure World where
  cells : Cells := {}
  records : List SinkRecord := []
  calls : List NotedCall := []
  deriving Inhabited

namespace World

def record (w : World) (r : SinkRecord) : World :=
  { w with records := w.records ++ [r] }

def warn (w : World) (warning : Warning) : World :=
  w.record (.warn warning)

def note (w : World) (call : Call) : World :=
  { w with calls := w.calls ++ [⟨call, w.records.length⟩] }

def setState (w : World) (states : Registry) (key : String) (value : Json.Value) : World :=
  match KeyMap.get? states key with
  | none => w.warn (.noHost "SetState" key)
  | some cell => { w with cells := w.cells.set cell (.ofJson value.json) }

/-- Turns over the boolean in the cell that a key names. -/
def toggleState (w : World) (states : Registry) (key : String) : World :=
  match KeyMap.get? states key with
  | none => w.warn (.noHost "ToggleState" key)
  | some cell =>
    let current := (w.cells.get? cell).getD .null
    match current.asBool? with
    | none => w.warn (.notBoolean key current.typeName)
    | some flag => { w with cells := w.cells.set cell (.bool !flag) }

end World

/-- A registry to act on, and how deep dispatches may nest and do nest now. -/
structure Dispatcher where
  states : Registry
  maxDepth : Option Nat := none
  depth : Nat := 0
  deriving Inhabited

abbrev DispatcherId := Nat

/-- What a name of an interface runs: a script on a dispatcher, or the application's own code. -/
inductive Behavior where
  | script (dispatcher : DispatcherId) (actions : List Action)
  | external (id : Nat)
  deriving Inhabited

/-- What can be asked for: an action on a dispatcher, or a behavior. -/
inductive Order where
  | dispatch (dispatcher : DispatcherId) (action : Action)
  | invoke (behavior : Behavior)
  deriving Inhabited

/-- What the application does on a call: it gives one order after another, each in view of what the
orders before it have brought about, and keeps a state of its own. -/
inductive Reaction (σ : Type) where
  | done (state : σ)
  | give (state : σ) (order : Order) (next : World → σ → Reaction σ)

/-- Gives these orders, whatever comes of them. -/
def Reaction.ofOrders {σ : Type} (state : σ) : List Order → Reaction σ
  | [] => .done state
  | order :: orders => .give state order fun _ state => ofOrders state orders

/-- The code around the dispatchers: the custom types it handles, and its reaction to a call. -/
structure Application (σ : Type) where
  handles : String → Bool
  respond : World → σ → Call → Reaction σ

/-- An application that handles nothing. -/
def Application.inert : Application Unit where
  handles _ := false
  respond _ _ _ := .done ()

/-- The visible world, the dispatchers that have been made and the application's own state. -/
structure Machine (σ : Type) where
  world : World := {}
  dispatchers : List Dispatcher := []
  app : σ
  deriving Inhabited

namespace Machine

variable {σ : Type}

def addDispatcher (m : Machine σ) (d : Dispatcher) : Machine σ × DispatcherId :=
  ({ m with dispatchers := m.dispatchers ++ [d] }, m.dispatchers.length)

def setDepth (m : Machine σ) (id : DispatcherId) (depth : Nat) : Machine σ :=
  { m with dispatchers := m.dispatchers.modify id fun d => { d with depth } }

def note (m : Machine σ) (c : Call) : Machine σ :=
  { m with world := m.world.note c }

/-- Carries out the orders of a reaction by `perform`. -/
def follow (perform : Machine σ → Order → Option (Machine σ)) (m : Machine σ) :
    Reaction σ → Option (Machine σ)
  | .done state => some { m with app := state }
  | .give state order next => do
    let m ← perform { m with app := state } order
    follow perform m (next m.world m.app)

def call (m : Machine σ) (app : Application σ)
    (perform : Machine σ → Order → Option (Machine σ)) (c : Call) : Option (Machine σ) :=
  let m := m.note c
  m.follow perform (app.respond m.world m.app c)

/-- Carries out an order, in at most so many nested steps. -/
def perform (app : Application σ) : Nat → Machine σ → Order → Option (Machine σ)
  | 0, _, _ => none
  | steps + 1, m, .invoke (.script id actions) =>
    actions.foldlM (fun m action => perform app steps m (.dispatch id action)) m
  | steps + 1, m, .invoke (.external id) => m.call app (perform app steps) (.behavior id)
  | steps + 1, m, .dispatch id action =>
    match m.dispatchers[id]? with
    | none => some m
    | some d =>
      let depth := d.depth + 1
      match d.maxDepth.filter (· < depth) with
      | some limit => some { m with world := m.world.warn (.dropped action.tag depth limit) }
      | none =>
        let inner := m.setDepth id depth
        let done := match action with
          | .setState key value =>
            some { inner with world := inner.world.setState d.states key value }
          | .toggleState key =>
            some { inner with world := inner.world.toggleState d.states key }
          | .log message => some { inner with world := inner.world.record (.log message) }
          | .sequence actions =>
            actions.foldlM (fun m action => perform app steps m (.dispatch id action)) inner
          | .custom customType params =>
            if app.handles customType then
              inner.call app (perform app steps) (.custom customType params)
            else some { inner with world := inner.world.warn (.noHandler customType) }
        done.map fun m => m.setDepth id d.depth

end Machine

mutual

/-- How deep an action nests; one that is no sequence has depth one. -/
def Action.nesting : Action → Nat
  | .sequence actions => Action.nestingList actions + 1
  | _ => 1

def Action.nestingList : List Action → Nat
  | [] => 0
  | a :: as => max a.nesting (Action.nestingList as)

end

/-- The nested steps that an order takes when the application answers no call. -/
def Order.nesting : Order → Nat
  | .dispatch _ action => action.nesting
  | .invoke (.script _ actions) => Action.nestingList actions + 1
  | .invoke (.external _) => 1

end ScreenDoc
