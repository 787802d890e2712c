/-!
# What can be wrong with a text

A text fails to be JSON in two ways: it stops too early, or it has something that cannot stand
there. A text that is JSON may still not fit what is read from it.
-/

namespace ScreenDoc

inductive Fault where
  /-- The text ends before the value does. -/
  | truncated
  /-- Something stands where it cannot, or a number or nesting exceeds the limits. -/
  | malformed
  deriving DecidableEq

inductive Failure where
  | fault (fault : Fault)
  /-- The text is JSON so far, but not of the form that is read here. -/
  | mismatch
  deriving DecidableEq

/-- The place at which a text stops being JSON. Who reads a value there, who skips it and who
looks there for a name look at different amounts of text, so each has a verdict of its own. -/
structure Break where
  read : Fault
  skipped : Fault
  named : Fault
  deriving DecidableEq

/-- A fault that all name alike. -/
def Break.all (fault : Fault) : Break :=
  ⟨fault, fault, fault⟩

end ScreenDoc
