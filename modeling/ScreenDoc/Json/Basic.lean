import ScreenDoc.Binary64.Basic
import ScreenDoc.KeyMap

/-!
# JSON values

Integers and doubles are kept apart: `1` and `1.0` are different values. The fields of an object
are a list, which serves two readings: as they stand in a text, in text order with repeats, and
canonical, sorted by key with the last of a repeated key. `Json.canonical` leads from the first to
the second.
-/

namespace ScreenDoc

/-- A JSON number: an integer of 64 bits, signed or not, or a double. -/
inductive Number where
  | int (value : Int)
  | float (value : Binary64)
  deriving DecidableEq

inductive Json where
  | null
  | bool (value : Bool)
  | number (value : Number)
  | string (value : String)
  | array (items : List Json)
  | object (fields : List (String × Json))
  deriving Inhabited

/-- Integers by value, doubles by value with both zeros equal, and never one with the other. -/
def Number.same : Number → Number → Bool
  | .int a, .int b => a == b
  | .float a, .float b => a.sameValue b
  | _, _ => false

def Number.toBinary64 : Number → Option Binary64
  | .int n => Binary64.ofInt n
  | .float x => some x

namespace Json

mutual

def same : Json → Json → Bool
  | null, null => true
  | bool a, bool b => a == b
  | number a, number b => a.same b
  | string a, string b => a == b
  | array as, array bs => sameItems as bs
  | object as, object bs => sameFields as bs
  | _, _ => false

def sameItems : List Json → List Json → Bool
  | [], [] => true
  | a :: as, b :: bs => same a b && sameItems as bs
  | _, _ => false

def sameFields : List (String × Json) → List (String × Json) → Bool
  | [], [] => true
  | (k, a) :: as, (l, b) :: bs => k == l && same a b && sameFields as bs
  | _, _ => false

end

instance : BEq Json := ⟨same⟩

mutual

/-- Sorts the fields of every object by key; of a repeated key the last value stays. -/
def canonical : Json → Json
  | array items => array (canonicalItems items)
  | object fields => object (KeyMap.ofList (canonicalFields fields))
  | null => null
  | bool b => bool b
  | number n => number n
  | string s => string s

def canonicalItems : List Json → List Json
  | [] => []
  | item :: items => canonical item :: canonicalItems items

def canonicalFields : List (String × Json) → List (String × Json)
  | [] => []
  | (key, value) :: fields => (key, canonical value) :: canonicalFields fields

end

mutual

/-- Every object lists its keys in strictly increasing order. -/
def Sorted : Json → Prop
  | array items => SortedItems items
  | object fields => KeyMap.Sorted fields ∧ SortedFields fields
  | null => True
  | bool _ => True
  | number _ => True
  | string _ => True

def SortedItems : List Json → Prop
  | [] => True
  | item :: items => Sorted item ∧ SortedItems items

def SortedFields : List (String × Json) → Prop
  | [] => True
  | (_, value) :: fields => Sorted value ∧ SortedFields fields

end

mutual

/-- How many values there are, containers and what they hold. -/
def size : Json → Nat
  | array items => sizeItems items + 1
  | object fields => sizeFields fields + 1
  | null => 1
  | bool _ => 1
  | number _ => 1
  | string _ => 1

def sizeItems : List Json → Nat
  | [] => 0
  | item :: items => size item + sizeItems items

def sizeFields : List (String × Json) → Nat
  | [] => 0
  | (_, value) :: fields => size value + sizeFields fields

end

mutual

/-- The greatest number of containers around any part of the value. -/
def depth : Json → Nat
  | array items => depthItems items + 1
  | object fields => depthFields fields + 1
  | null => 0
  | bool _ => 0
  | number _ => 0
  | string _ => 0

def depthItems : List Json → Nat
  | [] => 0
  | item :: items => max (depth item) (depthItems items)

def depthFields : List (String × Json) → Nat
  | [] => 0
  | (_, value) :: fields => max (depth value) (depthFields fields)

end

def field? (key : String) : Json → Option Json
  | object fields => KeyMap.get? fields key
  | _ => none

def item? (index : Nat) : Json → Option Json
  | array items => items[index]?
  | _ => none

def fields? : Json → Option (List (String × Json))
  | object fields => some fields
  | _ => none

def items? : Json → Option (List Json)
  | array items => some items
  | _ => none

/-- A double; one that is not finite has no form in JSON but `null`. -/
def ofExtended : Binary64.Extended → Json
  | .finite x => number (.float x)
  | _ => null

def string? : Json → Option String
  | string s => some s
  | _ => none

def bool? : Json → Option Bool
  | bool b => some b
  | _ => none

theorem size_pos (j : Json) : 0 < j.size := by
  cases j <;> simp [size]

theorem size_le_sizeItems {item : Json} {items : List Json} (h : item ∈ items) :
    item.size ≤ sizeItems items := by
  induction items with
  | nil => cases h
  | cons x xs ih =>
    rcases List.mem_cons.1 h with rfl | h
    · simp [sizeItems]
    · have := ih h
      simp [sizeItems]
      omega

theorem size_le_sizeFields {key : String} {value : Json} {fields : List (String × Json)}
    (h : (key, value) ∈ fields) : value.size ≤ sizeFields fields := by
  induction fields with
  | nil => cases h
  | cons x xs ih =>
    obtain ⟨k, v⟩ := x
    rcases List.mem_cons.1 h with h | h
    · cases h
      simp [sizeFields]
    · have := ih h
      simp [sizeFields]
      omega

theorem size_lt_of_mem_items {item : Json} {items : List Json} (h : item ∈ items) :
    item.size < (array items).size := by
  have := size_le_sizeItems h
  simp [size]
  omega

theorem size_lt_of_mem_fields {key : String} {value : Json} {fields : List (String × Json)}
    (h : (key, value) ∈ fields) : value.size < (object fields).size := by
  have := size_le_sizeFields h
  simp [size]
  omega

end Json

theorem Json.size_lt_of_field? {key : String} {j value : Json}
    (h : j.field? key = some value) : value.size < j.size := by
  cases j <;> simp [Json.field?] at h
  exact Json.size_lt_of_mem_fields (KeyMap.mem_of_get? h)

end ScreenDoc
