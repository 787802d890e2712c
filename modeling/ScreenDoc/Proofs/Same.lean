import ScreenDoc.Binding
import ScreenDoc.Proofs.KeyMap

/-!
# Equality by value

Two values are equal exactly when they are one and the same but for the signs of their zeros, and so
are actions and the sections of documents. So all these equalities are equivalences.
-/

namespace ScreenDoc

def Binary64.unsignedZero (x : Binary64) : Binary64 :=
  if x.isZero then zero false else x

theorem Binary64.isZero_unsignedZero (x : Binary64) : x.unsignedZero.isZero = x.isZero := by
  unfold unsignedZero
  split
  · rename_i h
    exact h.symm
  · rfl

private theorem Binary64.sameValue_iff {x y : Binary64} :
    x.sameValue y = true ↔ x.unsignedZero = y.unsignedZero := by
  rw [sameValue, Bool.or_eq_true, Bool.and_eq_true, beq_iff_eq]
  constructor
  · rintro (rfl | ⟨hx, hy⟩)
    · rfl
    · rw [unsignedZero, unsignedZero, if_pos hx, if_pos hy]
  · intro h
    have hzero : x.isZero = y.isZero := by
      rw [← isZero_unsignedZero x, h, isZero_unsignedZero]
    by_cases hx : x.isZero = true
    · exact .inr ⟨hx, hzero ▸ hx⟩
    · rw [unsignedZero, unsignedZero, if_neg hx, if_neg (hzero ▸ hx)] at h
      exact .inl h

def Number.unsignedZero : Number → Number
  | .int n => .int n
  | .float x => .float x.unsignedZero

theorem Number.same_iff {m n : Number} : m.same n = true ↔ m.unsignedZero = n.unsignedZero := by
  cases m <;> cases n <;> simp [same, unsignedZero, Binary64.sameValue_iff]

namespace Json

mutual

def unsignedZeros : Json → Json
  | number n => number n.unsignedZero
  | array items => array (unsignedZerosItems items)
  | object fields => object (unsignedZerosFields fields)
  | null => null
  | bool b => bool b
  | string s => string s

def unsignedZerosItems : List Json → List Json
  | [] => []
  | item :: items => unsignedZeros item :: unsignedZerosItems items

def unsignedZerosFields : List (String × Json) → List (String × Json)
  | [] => []
  | (key, value) :: fields => (key, unsignedZeros value) :: unsignedZerosFields fields

end

mutual

theorem same_iff : ∀ a b : Json, a.same b = true ↔ a.unsignedZeros = b.unsignedZeros
  | null, b => by cases b <;> simp [same, unsignedZeros]
  | bool _, b => by cases b <;> simp [same, unsignedZeros]
  | number _, b => by cases b <;> simp [same, unsignedZeros, Number.same_iff]
  | string _, b => by cases b <;> simp [same, unsignedZeros]
  | array as, b => by cases b <;> simp [same, unsignedZeros, sameItems_iff as]
  | object as, b => by cases b <;> simp [same, unsignedZeros, sameFields_iff as]

theorem sameItems_iff :
    ∀ as bs : List Json, sameItems as bs = true ↔ unsignedZerosItems as = unsignedZerosItems bs
  | [], bs => by cases bs <;> simp [sameItems, unsignedZerosItems]
  | a :: as, bs => by
    cases bs <;> simp [sameItems, unsignedZerosItems, same_iff a, sameItems_iff as]

theorem sameFields_iff : ∀ as bs : List (String × Json),
    sameFields as bs = true ↔ unsignedZerosFields as = unsignedZerosFields bs
  | [], bs => by cases bs <;> simp [sameFields, unsignedZerosFields]
  | (k, a) :: as, bs => by
    cases bs <;> simp [sameFields, unsignedZerosFields, same_iff a, sameFields_iff as]

end

private theorem keys_unsignedZerosFields (fields : List (String × Json)) :
    KeyMap.keys (unsignedZerosFields fields) = KeyMap.keys fields := by
  induction fields with
  | nil => rfl
  | cons field fields ih => rw [unsignedZerosFields, KeyMap.keys_cons, KeyMap.keys_cons, ih]

mutual

theorem sorted_unsignedZeros : ∀ {j : Json}, j.Sorted → j.unsignedZeros.Sorted
  | array _, h => by
    rw [Sorted] at h
    rw [unsignedZeros, Sorted]
    exact sorted_unsignedZerosItems h
  | object fields, h => by
    rw [Sorted] at h
    rw [unsignedZeros, Sorted, KeyMap.Sorted, keys_unsignedZerosFields]
    exact ⟨h.1, sorted_unsignedZerosFields h.2⟩
  | null, h => by rwa [unsignedZeros]
  | bool _, h => by rwa [unsignedZeros]
  | number _, _ => by simp [unsignedZeros, Sorted]
  | string _, h => by rwa [unsignedZeros]

theorem sorted_unsignedZerosItems :
    ∀ {items : List Json}, SortedItems items → SortedItems (unsignedZerosItems items)
  | [], h => by rwa [unsignedZerosItems]
  | _ :: _, h => by
    rw [SortedItems] at h
    rw [unsignedZerosItems, SortedItems]
    exact ⟨sorted_unsignedZeros h.1, sorted_unsignedZerosItems h.2⟩

theorem sorted_unsignedZerosFields :
    ∀ {fields : List (String × Json)}, SortedFields fields →
      SortedFields (unsignedZerosFields fields)
  | [], h => by rwa [unsignedZerosFields]
  | (_, _) :: _, h => by
    rw [SortedFields] at h
    rw [unsignedZerosFields, SortedFields]
    exact ⟨sorted_unsignedZeros h.1, sorted_unsignedZerosFields h.2⟩

end

def Value.unsignedZeros (v : Value) : Value :=
  ⟨v.json.unsignedZeros, sorted_unsignedZeros v.sorted⟩

def Map.unsignedZeros (m : Map) : Map where
  fields := unsignedZerosFields m.fields
  sorted := by
    have hsorted := sorted_unsignedZeros m.sorted
    rwa [Json.unsignedZeros] at hsorted

end Json

namespace Action

mutual

def unsignedZeros : Action → Action
  | setState key value => setState key value.unsignedZeros
  | toggleState key => toggleState key
  | log message => log message
  | sequence actions => sequence (unsignedZerosList actions)
  | custom customType params => custom customType params.unsignedZeros

def unsignedZerosList : List Action → List Action
  | [] => []
  | action :: actions => unsignedZeros action :: unsignedZerosList actions

end

mutual

theorem same_iff : ∀ a b : Action, a.same b = true ↔ a.unsignedZeros = b.unsignedZeros
  | setState _ _, b => by
    cases b <;> simp [same, unsignedZeros, Json.Value.unsignedZeros, BEq.beq, Json.same_iff]
  | toggleState _, b => by cases b <;> simp [same, unsignedZeros]
  | log _, b => by cases b <;> simp [same, unsignedZeros]
  | sequence as, b => by cases b <;> simp [same, unsignedZeros, sameList_iff as]
  | custom _ _, b => by
    cases b <;> simp [same, unsignedZeros, Json.Map.unsignedZeros, Json.sameFields_iff]

theorem sameList_iff :
    ∀ as bs : List Action, sameList as bs = true ↔ unsignedZerosList as = unsignedZerosList bs
  | [], bs => by cases bs <;> simp [sameList, unsignedZerosList]
  | a :: as, bs => by cases bs <;> simp [sameList, unsignedZerosList, same_iff a, sameList_iff as]

end

end Action

namespace Document

private theorem sameActions_cons (k l : String) (xs ys : List Action) (a b : KeyMap (List Action)) :
    sameActions ((k, xs) :: a) ((l, ys) :: b) =
      (k == l && Action.sameList xs ys && sameActions a b) := by
  have hlength : (((k, xs) :: a).length == ((l, ys) :: b).length) = (a.length == b.length) := by
    simp
  rw [sameActions, hlength, List.zip_cons_cons, List.all_cons, Bool.and_left_comm, sameActions]

theorem sameActions_iff (a b : KeyMap (List Action)) :
    sameActions a b = true ↔
      KeyMap.mapValues Action.unsignedZerosList a =
        KeyMap.mapValues Action.unsignedZerosList b := by
  induction a generalizing b with
  | nil => cases b <;> simp [sameActions, KeyMap.mapValues]
  | cons entry a ih =>
    obtain ⟨k, xs⟩ := entry
    cases b with
    | nil => simp [sameActions, KeyMap.mapValues]
    | cons other b =>
      obtain ⟨l, ys⟩ := other
      rw [sameActions_cons, Bool.and_eq_true, Bool.and_eq_true, beq_iff_eq, Action.sameList_iff,
        ih b, KeyMap.mapValues_cons, KeyMap.mapValues_cons, List.cons.injEq, Prod.mk.injEq]

/-- State and scripts of the two documents are equal by value. -/
def SameSections (d d' : Document) : Prop :=
  Json.sameFields d.initialState.fields d'.initialState.fields = true ∧
    sameActions d.actions.entries d'.actions.entries = true

private theorem sameSections_iff {d d' : Document} :
    d.SameSections d' ↔
      Json.unsignedZerosFields d.initialState.fields
          = Json.unsignedZerosFields d'.initialState.fields ∧
      KeyMap.mapValues Action.unsignedZerosList d.actions.entries =
        KeyMap.mapValues Action.unsignedZerosList d'.actions.entries := by
  rw [SameSections, Json.sameFields_iff, sameActions_iff]

end Document

namespace Binding

variable {b : Binding} {d d' : Document}

theorem isCurrentFor_iff :
    b.isCurrentFor d = true ↔
      Json.unsignedZerosFields b.initialState.fields
          = Json.unsignedZerosFields d.initialState.fields ∧
      KeyMap.mapValues Action.unsignedZerosList b.actions.entries =
        KeyMap.mapValues Action.unsignedZerosList d.actions.entries := by
  rw [isCurrentFor, Bool.and_eq_true, Json.sameFields_iff, Document.sameActions_iff]

theorem isCurrentFor_iff_sameSections (h : b.isCurrentFor d = true) :
    b.isCurrentFor d' = true ↔ d.SameSections d' := by
  rw [isCurrentFor_iff] at h
  rw [isCurrentFor_iff, Document.sameSections_iff, h.1, h.2]

end Binding

end ScreenDoc
