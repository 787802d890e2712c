import ScreenDoc.KeyMap
import ScreenDoc.State.Value

/-!
# State registries

Cells hold the live values; a registry names cells by key. Several keys, in one registry or in
many, may name the same cell, and then they always read the same value.
-/

namespace ScreenDoc

abbrev CellId := Nat

/-- All cells that have been made. -/
structure Cells where
  values : List StateValue := []
  deriving Inhabited

namespace Cells

def get? (cells : Cells) (cell : CellId) : Option StateValue :=
  cells.values[cell]?

def set (cells : Cells) (cell : CellId) (value : StateValue) : Cells :=
  ⟨cells.values.set cell value⟩

def add (cells : Cells) (value : StateValue) : Cells × CellId :=
  (⟨cells.values ++ [value]⟩, cells.values.length)

end Cells

abbrev Registry := KeyMap CellId

namespace Registry

def value? (r : Registry) (cells : Cells) (key : String) : Option StateValue :=
  (KeyMap.get? r key).bind cells.get?

/-- Names a new cell by a key, over any cell that the key named. -/
def insertNew (r : Registry) (cells : Cells) (key : String) (value : StateValue) :
    Registry × Cells :=
  let (cells, cell) := cells.add value
  (KeyMap.insert r key cell, cells)

/-- A registry of new cells; of a repeated key the last value stays. -/
def ofValues (cells : Cells) (entries : List (String × StateValue)) : Registry × Cells :=
  entries.foldl (fun (r, cells) (key, value) => insertNew r cells key value) ([], cells)

/-- Takes over every entry of another registry. -/
def extendOverriding (r other : Registry) : Registry :=
  KeyMap.insertAll r other

/-- The live values as JSON, by key. -/
def snapshot (r : Registry) (cells : Cells) : Json.Map :=
  .ofFields (r.filterMap fun (key, cell) =>
    (cells.get? cell).map fun value => (key, value.toJson))

end Registry

end ScreenDoc
