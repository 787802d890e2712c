import ScreenDoc.Dispatch.Basic

/-!
# Scripted applications

An application whose handlers are data. A handler answers a call, as often as its budget allows,
with actions on one dispatcher and then with behaviors by name.
-/

namespace ScreenDoc

structure Handler where
  actions : List Action
  behaviors : List String
  budget : Nat
  deriving Inhabited

structure Repertoire where
  handlers : KeyMap Handler
  dispatcher : DispatcherId := 0
  behaviors : KeyMap Behavior := []
  deriving Inhabited

namespace Repertoire

/-- The orders of the handler of a custom type; names of no behavior order nothing. -/
def answer (r : Repertoire) (customType : String) : Repertoire × List Order :=
  match KeyMap.get? r.handlers customType with
  | some { actions, behaviors, budget := budget + 1 } =>
    ({ r with handlers := KeyMap.insert r.handlers customType { actions, behaviors, budget } },
      actions.map (.dispatch r.dispatcher)
        ++ behaviors.filterMap fun name => (KeyMap.get? r.behaviors name).map .invoke)
  | _ => (r, [])

/-- The application with these handlers; its own behaviors only note that they were called. -/
def application (handlers : KeyMap Handler) : Application Repertoire where
  handles := KeyMap.contains handlers
  respond _ r call :=
    match call with
    | .custom customType _ =>
      let (r, orders) := r.answer customType
      .ofOrders r orders
    | .behavior _ => .done r

end Repertoire

end ScreenDoc
