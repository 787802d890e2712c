import ScreenDoc.Json.Value

/-!
# Actions

What a script does when it runs. A sequence nests without limit.
-/

namespace ScreenDoc

inductive Action where
  | setState (key : String) (value : Json.Value)
  | toggleState (key : String)
  | log (message : String)
  | sequence (actions : List Action)
  /-- Left to the handler registered for the type; the parameters are only handed on. -/
  | custom (customType : String) (params : Json.Map)
  deriving Inhabited

namespace Action

def tags : List String :=
  ["SetState", "ToggleState", "Log", "Sequence", "Custom"]

def tag : Action → String
  | setState _ _ => "SetState"
  | toggleState _ => "ToggleState"
  | log _ => "Log"
  | sequence _ => "Sequence"
  | custom _ _ => "Custom"

/-- The fields of an action with this tag. -/
def fieldsOf (tag : String) : List String :=
  match tag with
  | "SetState" => ["key", "value"]
  | "ToggleState" => ["key"]
  | "Log" => ["message"]
  | "Sequence" => ["actions"]
  | "Custom" => ["customType", "params"]
  | _ => []

/-- What holds of leaves, and of a sequence as soon as it holds of its actions, holds of every
action. -/
theorem induction {motive : Action → Prop}
    (leaf : ∀ action, (∀ actions, action ≠ .sequence actions) → motive action)
    (sequence : ∀ actions, (∀ action ∈ actions, motive action) → motive (.sequence actions))
    (action : Action) : motive action :=
  match action with
  | .setState key value => leaf (.setState key value) nofun
  | .toggleState key => leaf (.toggleState key) nofun
  | .log message => leaf (.log message) nofun
  | .sequence actions => sequence actions fun action _ => induction leaf sequence action
  | .custom customType params => leaf (.custom customType params) nofun

mutual

def same : Action → Action → Bool
  | setState k v, setState l w => k == l && v.json == w.json
  | toggleState k, toggleState l => k == l
  | log m, log n => m == n
  | sequence as, sequence bs => sameList as bs
  | custom t ps, custom u qs => t == u && Json.sameFields ps.fields qs.fields
  | _, _ => false

def sameList : List Action → List Action → Bool
  | [], [] => true
  | a :: as, b :: bs => same a b && sameList as bs
  | _, _ => false

end

instance : BEq Action := ⟨same⟩

end Action

end ScreenDoc
