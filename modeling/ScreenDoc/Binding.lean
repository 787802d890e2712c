import ScreenDoc.Dispatch.Basic
import ScreenDoc.Document

/-!
# Bindings

Binding makes a document live: each entry of the initial state becomes a new cell, each script a
behavior on a new dispatcher, and both are laid over what the application brings along. A bound
document is bound again only when its initial state or its scripts change.
-/

namespace ScreenDoc

/-- What the application brings along. -/
structure Binder where
  states : Registry := []
  behaviors : KeyMap Behavior := []
  maxDepth : Option Nat := none
  deriving Inhabited

structure Binding where
  states : Registry
  behaviors : KeyMap Behavior
  dispatcher : DispatcherId
  initialState : Json.Map
  actions : SortedMap (List Action)
  deriving Inhabited

namespace Binding

def behavior? (b : Binding) (name : String) : Option Behavior :=
  KeyMap.get? b.behaviors name

def isCurrentFor (b : Binding) (d : Document) : Bool :=
  Json.sameFields b.initialState.fields d.initialState.fields
    && Document.sameActions b.actions.entries d.actions.entries

/-- What is said of a name that no behavior has. -/
def unknownBehavior (name : String) : String :=
  "no behavior named '" ++ name ++ "'"

end Binding

namespace Binder

variable {σ : Type}

/-- Binds a document. Its entries win over those of the application. -/
def bind (b : Binder) (d : Document) (m : Machine σ) : Binding × Machine σ :=
  let (wired, cells) :=
    Registry.ofValues m.world.cells (KeyMap.mapValues StateValue.ofJson d.initialState.fields)
  let states := Registry.extendOverriding b.states wired
  let (m, dispatcher) :=
    { m with world := { m.world with cells } }.addDispatcher { states, maxDepth := b.maxDepth }
  let scripts := KeyMap.mapValues (Behavior.script dispatcher) d.actions.entries
  ({ states, behaviors := KeyMap.insertAll b.behaviors scripts, dispatcher,
     initialState := d.initialState, actions := d.actions }, m)

end Binder

/-- A document with its current binding. -/
structure BoundDocument where
  binder : Binder
  document : Document
  binding : Binding
  deriving Inhabited

namespace BoundDocument

variable {σ : Type}

def new (binder : Binder) (d : Document) (m : Machine σ) : BoundDocument × Machine σ :=
  let (binding, m) := binder.bind d m
  ({ binder, document := d, binding }, m)

/-- Takes over a document, and says whether it had to be bound again. -/
def sync (b : BoundDocument) (d : Document) (m : Machine σ) :
    Bool × BoundDocument × Machine σ :=
  if b.binding.isCurrentFor d then (false, { b with document := d }, m)
  else
    let (binding, m) := b.binder.bind d m
    (true, { b with document := d, binding }, m)

end BoundDocument

end ScreenDoc
