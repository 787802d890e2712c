import ScreenDoc.Proofs.Json.Canonical

/-!
# Values with some fields taken out

A part of a value has an address, the steps that lead down to it. `Json.without` takes fields out
of the objects at some addresses and keeps everything else where it is.
-/

namespace ScreenDoc

inductive Step where
  | field (key : String)
  | item (index : Nat)
  deriving DecidableEq

abbrev Address := List Step

namespace Json

def at? (j : Json) : Address → Option Json
  | [] => some j
  | .field key :: address => (j.field? key).bind fun value => value.at? address
  | .item i :: address => (j.item? i).bind fun item => item.at? address

theorem at?_append (j : Json) (a b : Address) :
    j.at? (a ++ b) = (j.at? a).bind fun value => value.at? b := by
  induction a generalizing j with
  | nil => rfl
  | cons step a ih =>
    cases step with
    | field key =>
      rw [List.cons_append, at?, at?, Option.bind_assoc]
      exact congrArg _ (funext fun value => ih value)
    | item i =>
      rw [List.cons_append, at?, at?, Option.bind_assoc]
      exact congrArg _ (funext fun item => ih item)

mutual

/-- The value without the fields that are gone; `gone` takes the address of an object and a key in
it. -/
def without (gone : Address → String → Bool) : Json → Json
  | array items => array (withoutItems gone 0 items)
  | object fields => object (withoutFields gone fields)
  | null => null
  | bool b => bool b
  | number n => number n
  | string s => string s

def withoutItems (gone : Address → String → Bool) (index : Nat) : List Json → List Json
  | [] => []
  | item :: items =>
    without (fun address => gone (.item index :: address)) item
      :: withoutItems gone (index + 1) items

def withoutFields (gone : Address → String → Bool) : List (String × Json) → List (String × Json)
  | [] => []
  | (key, value) :: fields =>
    if gone [] key then withoutFields gone fields
    else (key, without (fun address => gone (.field key :: address)) value)
      :: withoutFields gone fields

end

section Without

variable {gone : Address → String → Bool}

theorem without_array (items : List Json) :
    (array items).without gone
      = array (items.mapIdx fun i item => item.without fun address =>
          gone (.item i :: address)) := by
  have hitems (start : Nat) : withoutItems gone start items
      = items.mapIdx fun i item => item.without fun address =>
          gone (.item (start + i) :: address) := by
    induction items generalizing start with
    | nil => rfl
    | cons item items ih =>
      rw [withoutItems, ih, List.mapIdx_cons]
      simp only [Nat.add_zero, Nat.add_assoc, Nat.add_comm 1]
  rw [without, hitems]
  simp only [Nat.zero_add]

theorem without_object (fields : List (String × Json)) :
    (object fields).without gone
      = object ((fields.filter fun field => !gone [] field.1).map fun field =>
          (field.1, field.2.without fun address => gone (.field field.1 :: address))) := by
  have hfields : withoutFields gone fields
      = (fields.filter fun field => !gone [] field.1).map fun field =>
          (field.1, field.2.without fun address => gone (.field field.1 :: address)) := by
    induction fields with
    | nil => rfl
    | cons field fields ih =>
      rw [withoutFields, ih, List.filter_cons]
      cases gone [] field.1 <;> rfl
  rw [without, hfields]

theorem without_of_none {j : Json} (h : ∀ address key, gone address key = false) :
    j.without gone = j := by
  induction j using Json.induction generalizing gone with
  | array items ih =>
    have hitems : (items.mapIdx fun i item => item.without fun address =>
        gone (.item i :: address)) = items := by
      refine List.ext_getElem (by simp) fun i hleft hright => ?_
      rw [List.getElem_mapIdx]
      exact ih _ (List.getElem_mem hright) fun address => h _
    rw [without_array, hitems]
  | object fields ih =>
    have hkept : (fields.filter fun field => !gone [] field.1) = fields :=
      List.filter_eq_self.mpr fun field _ => by simp [h]
    have hfields : (fields.map fun field =>
        (field.1, field.2.without fun address => gone (.field field.1 :: address))) = fields := by
      refine (List.map_congr_left fun field hfield => ?_).trans (List.map_id fields)
      rw [ih field hfield fun address => h _]
      rfl
    rw [without_object, hkept, hfields]
  | _ => simp [without]

end Without

end Json

end ScreenDoc
