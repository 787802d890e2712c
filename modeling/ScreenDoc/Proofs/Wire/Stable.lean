import Mathlib.Data.Option.Basic
import ScreenDoc.Proofs.Json.Stable
import ScreenDoc.Proofs.Wire.Action
import ScreenDoc.Proofs.Wire.Node
import ScreenDoc.Proofs.Wire.Properties

/-!
# Sorting a value changes nothing that is read

Nodes, scripts and documents look their fields up by key, and what they keep as a value they keep
sorted. So where no object repeats a key, they are read from the canonical value as from the value
itself.
-/

namespace ScreenDoc

/-! ## Modifiers -/

open Json

variable {bound : Nat}

theorem CornerRadii.stable_ofContent? : Stable bound CornerRadii.ofContent? := by
  have hrecord : Stable (bound + 1) CornerRadii.ofContent? :=
    stable_record fun fields sorted h => by
      simp only [h.optional stable_int32?]
  exact hrecord.mono (Nat.le_succ bound)

theorem Shape.stable_bare {α : Type} (value : α) :
    Stable bound fun content => Shape.bare content value := by
  intro j _ _
  cases j <;> simp [Shape.bare, isEmptyContent]

theorem Shape.stable_ofContent? (tag : String) : Stable bound (Shape.ofContent? tag) := by
  intro j hj hsize
  unfold ofContent?
  split
  · exact stable_bare _ j hj hsize
  · exact stable_bare _ j hj hsize
  · rw [CornerRadii.stable_ofContent? j hj hsize]
  · rfl

theorem Shape.stable_ofJson? : Stable bound Shape.ofJson? :=
  stable_tagged Shape.tags true Shape.stable_ofContent?

theorem Operation.ofFields?_sorts {fields sorted : KeyMap Json} (h : Sorts bound fields sorted)
    (tag : String) : ofFields? tag sorted = ofFields? tag fields := by
  unfold ofFields?
  simp only [h.required stable_int32?, h.required stable_string?, h.required stable_extended?,
    h.required Shape.stable_ofJson?]

theorem Operation.stable_ofContent? (tag : String) : Stable bound (Operation.ofContent? tag) := by
  intro j hj hsize
  unfold ofContent?
  split
  · exact Shape.stable_bare _ j hj hsize
  · exact Shape.stable_bare _ j hj hsize
  · exact Shape.stable_bare _ j hj hsize
  · exact stable_record (fun fields sorted h => ofFields?_sorts h _) j hj
      (hsize.trans (Nat.lt_succ_self bound))

theorem Operation.stable_ofJson? (buffered : Bool) : Stable bound (Operation.ofJson? buffered) :=
  stable_tagged Operation.tags buffered Operation.stable_ofContent?

theorem Modifier.stable_ofJson? (buffered : Bool) : Stable bound (Modifier.ofJson? buffered) := by
  have hrecord : Stable (bound + 1) (Modifier.ofJson? buffered) :=
    stable_record fun fields sorted h => by
      rw [h.defaulted (stable_list? (Operation.stable_ofJson? buffered))]
  exact hrecord.mono (Nat.le_succ bound)

/-! ## Scripts -/

theorem Action.ofFields?_sorts {fields sorted : KeyMap Json} (h : Sorts bound fields sorted)
    (tag : String) : ofFields? tag sorted = ofFields? tag fields := by
  unfold ofFields?
  simp only [h.required stable_string?, h.required stable_ofJson, h.defaulted stable_map?]

theorem Action.stable_ofJson? (buffered : Bool) : Stable bound (Action.ofJson? buffered) := by
  -- Induction on the bound: the actions of a sequence are smaller than what it stands in.
  induction bound generalizing buffered with
  | zero => exact fun j _ hsize => absurd hsize (Nat.not_lt_zero _)
  | succ bound ih =>
    refine stable_tagged tags buffered fun tag => ?_
    by_cases htag : tag = "Sequence"
    · subst htag
      intro j hj hsize
      rw [ofContent?_sequence, ofContent?_sequence]
      exact stable_record (fun fields sorted h => by
        rw [h.required (stable_list? (ih true))]) j hj hsize
    · intro j hj hsize
      rw [ofContent?_of_ne htag, ofContent?_of_ne htag]
      exact stable_record (fun fields sorted h => ofFields?_sorts h tag) j hj hsize

/-! ## Nodes -/

namespace Properties

private theorem childSlot_sorts {fields sorted : KeyMap Json} (h : Sorts bound fields sorted)
    (key : String) : childSlot sorted key = (childSlot fields key).map canonical := by
  unfold childSlot
  rw [h.get?]
  cases fields.get? key with
  | none => rfl
  | some value => cases value <;> simp

private theorem childItems?_sorts {fields sorted : KeyMap Json} (h : Sorts bound fields sorted)
    (key : String) :
    childItems? sorted key = (childItems? fields key).map (List.map canonical) := by
  unfold childItems?
  rw [h.get?]
  cases fields.get? key with
  | none => rfl
  | some value => cases value <;> simp

theorem ofFields?_sorts {fields sorted : KeyMap Json} (h : Sorts bound fields sorted)
    (type : NodeType) :
    ofFields? type sorted = (ofFields? type fields).map fun p => p.map canonical := by
  cases type <;>
    simp [ofFields?, toggle?, childSlot_sorts h, childItems?_sorts h, h.optional stable_string?,
      h.optional stable_bool?, h.optional stable_int32?, h.optional stable_uint32?,
      h.required stable_string?, h.defaulted stable_map?, Option.map_bind, Option.bind_map,
      map, mapIdx, mapIdx_const]

private theorem children_of_sorts {type : NodeType} {fields sorted : KeyMap Json}
    {p : Properties Json} (h : Sorts bound fields sorted) (hp : ofFields? type fields = some p) :
    ∀ c ∈ p.children, c.Distinct ∧ c.size < bound := by
  refine forall_children_of_ofFields? (fun key _ c hc => ?_)
    (fun key _ items hi c hc => ?_) hp
  · have hget := KeyMap.mem_of_get? (mem_childSlot (Option.mem_toList.mpr hc))
    exact ⟨h.distinct _ hget, h.size _ hget⟩
  · have hget := KeyMap.mem_of_get? (mem_childItems? hi hc)
    exact ⟨(h.distinct _ hget).items c hc, (size_lt_of_mem_items hc).trans (h.size _ hget)⟩

end Properties

namespace Node

private theorem stable_payload? (h : Stable bound (ofJson? true)) (tag : String) :
    Stable (bound + 1) (payload? tag) := by
  intro j hj hsize
  unfold payload? Properties.ofContent?
  cases htype : NodeType.ofPayloadTag? tag with
  | none => rfl
  | some type =>
    have hrecord : Stable (bound + 1) fun j => (j.record? type.payloadFields).bind fun fields =>
        (Properties.ofFields? type fields).bind (Properties.traverse (ofJson? true)) := by
      refine stable_record fun fields sorted hs => ?_
      rw [Properties.ofFields?_sorts hs]
      cases hp : Properties.ofFields? type fields with
      | none => rfl
      | some p =>
        refine Properties.traverse_map_congr fun c hc => ?_
        obtain ⟨hdistinct, hsize⟩ := Properties.children_of_sorts hs hp c hc
        exact h c hdistinct hsize
    simp only [Option.bind_eq_bind, Option.bind_some, Option.bind_assoc]
    exact hrecord j hj hsize

theorem stable_ofJson? (buffered : Bool) : Stable bound (Node.ofJson? buffered) := by
  -- Induction on the bound: children are smaller than their parents.
  induction bound generalizing buffered with
  | zero => exact fun j _ hsize => absurd hsize (Nat.not_lt_zero _)
  | succ bound ih =>
    have hproperties : Stable bound (propertiesOfJson? buffered) :=
      stable_tagged Properties.tags buffered fun tag =>
        (stable_payload? (ih true) tag).mono (Nat.le_succ bound)
    intro j hj hsize
    rw [ofJson?_eq, ofJson?_eq]
    exact stable_record (fun fields sorted h => by
      rw [h.required (stable_name? NodeType.named? buffered),
        h.defaulted (Modifier.stable_ofJson? buffered), h.optional hproperties]) j hj hsize

end Node

theorem Node.ofJson?_canonical {j : Json} (h : j.Distinct) (buffered : Bool) :
    Node.ofJson? buffered j.canonical = Node.ofJson? buffered j :=
  stable_ofJson? buffered j h (Nat.lt_succ_self j.size)

/-! ## Documents -/

private theorem keys_of_mapM {α : Type} {g : Json → Option α} {fields : List (String × Json)}
    {entries : List (String × α)}
    (h : (fields.mapM fun field => (g field.2).map fun value => (field.1, value)) = some entries) :
    KeyMap.keys entries = KeyMap.keys fields := by
  induction fields generalizing entries with
  | nil =>
    cases h
    rfl
  | cons field fields ih =>
    simp only [List.mapM_cons, Option.bind_eq_bind, Option.bind_eq_some_iff,
      Option.map_eq_some_iff] at h
    obtain ⟨_, ⟨value, -, rfl⟩, rest, hrest, heq⟩ := h
    cases heq
    rw [KeyMap.keys_cons, KeyMap.keys_cons, ih hrest]

private theorem Document.stable_actionsOfJson? : Stable bound actionsOfJson? := by
  intro j hj _
  cases j with
  | object fields =>
    have hread : ((KeyMap.mapValues canonical fields).mapM fun field =>
        (field.2.list? (Action.ofJson? false)).map fun script => (field.1, script))
        = fields.mapM fun field =>
            (field.2.list? (Action.ofJson? false)).map fun script => (field.1, script) := by
      refine mapM_map_congr fun field hfield => ?_
      rw [stable_list? (Action.stable_ofJson? false) field.2 (hj.fields field hfield)
        (Nat.lt_succ_self _)]
    have hperm := KeyMap.perm_ofList (m := KeyMap.mapValues canonical fields)
      (by simpa using hj.nodup)
    rw [canonical_object, actionsOfJson?_object, actionsOfJson?_object, ← hread]
    rcases mapM_perm hperm with ⟨hleft, hright⟩ | ⟨r, s, hleft, hright, hrs⟩
    · rw [hleft, hright]
    · rw [hleft, hright, Option.map_some, Option.map_some, SortedMap.ofList_perm hrs]
      rw [keys_of_mapM hleft]
      exact (KeyMap.sorted_ofList _).nodup
  | _ => simp [actionsOfJson?]

theorem Document.ofJson?_canonical {j : Json} (h : j.Distinct) :
    Document.ofJson? j.canonical = Document.ofJson? j :=
  stable_record (fun fields sorted hs => by
    rw [hs.defaulted stable_map?, hs.defaulted stable_actionsOfJson?,
      hs.required (Node.stable_ofJson? false)]) j h (Nat.lt_succ_self j.size)

end ScreenDoc
