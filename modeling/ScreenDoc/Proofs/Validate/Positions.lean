import ScreenDoc.Proofs.Validate.Walk

/-!
# Positions that checks on values visit

The search for nodes in a value goes from one position to the next through the child keys of its
payload. `Json.NodeAt` says which positions there are and what stands there, `Json.located` lists
them, each once.
-/

namespace ScreenDoc.Json

/-! ## The children of a value -/

/-- The children in a value that stands under a child key. -/
def childrenUnder (key : String) (j : Json) : List (ChildPlace × Json) :=
  match j with
  | object child => [(⟨key, none⟩, object child)]
  | array items => items.zipIdx.map fun (item, i) => (⟨key, some i⟩, item)
  | _ => []

theorem underChildKeys_eq (fields : KeyMap Json) :
    underChildKeys fields
      = Rules.childKeys.flatMap fun key => (fields.get? key).elim [] (childrenUnder key) := by
  refine List.flatMap_congr fun key _ => ?_
  cases fields.get? key with
  | none => rfl
  | some value => cases value <;> rfl

theorem mem_underChildKeys {fields : KeyMap Json} {key : String} (hkey : key ∈ Rules.childKeys)
    {value : Json} (hvalue : fields.get? key = some value) {child : ChildPlace × Json}
    (hchild : child ∈ childrenUnder key value) : child ∈ underChildKeys fields := by
  rw [underChildKeys_eq]
  exact List.mem_flatMap.mpr ⟨key, hkey, by rwa [hvalue, Option.elim_some]⟩

theorem mem_childrenUnder_item {key : String} {items : List Json} {i : Nat} {item : Json}
    (h : items[i]? = some item) : (⟨key, some i⟩, item) ∈ childrenUnder key (array items) :=
  List.mem_map.mpr ⟨(item, i), List.mem_zipIdx_iff_getElem?.mpr h, rfl⟩

theorem of_mem_underChildKeys {m : KeyMap Json} {child : ChildPlace × Json}
    (h : child ∈ underChildKeys m) :
    ∃ key ∈ Rules.childKeys,
      (∃ fields, m.get? key = some (object fields) ∧ child = (⟨key, none⟩, object fields))
      ∨ ∃ items, m.get? key = some (array items) ∧ child ∈ Properties.listed key items := by
  obtain ⟨key, hkey, h⟩ := List.mem_flatMap.mp h
  refine ⟨key, hkey, ?_⟩
  split at h
  · exact .inl ⟨_, ‹_›, List.mem_singleton.mp h⟩
  · exact .inr ⟨_, ‹_›, h⟩
  · cases h

private theorem field_of_mem_childrenUnder {key : String} {j : Json} {child : ChildPlace × Json}
    (h : child ∈ childrenUnder key j) : child.1.field = key := by
  cases j with
  | object fields => rw [List.mem_singleton.mp h]
  | array items => exact Properties.field_of_mem_listed h
  | _ => cases h

private theorem nodup_map_fst_childrenUnder (key : String) (j : Json) :
    ((childrenUnder key j).map Prod.fst).Nodup := by
  cases j with
  | object fields => exact List.nodup_singleton _
  | array items => exact Properties.nodup_map_fst_listed key items
  | _ => exact List.nodup_nil

private theorem nodup_map_fst_underChildKeys (fields : KeyMap Json) :
    ((underChildKeys fields).map Prod.fst).Nodup := by
  have hfield {key : String} {place : ChildPlace}
      (h : place ∈ ((fields.get? key).elim [] (childrenUnder key)).map Prod.fst) :
      place.field = key := by
    obtain ⟨child, hchild, rfl⟩ := List.mem_map.mp h
    cases hvalue : fields.get? key with
    | none => simp [hvalue] at hchild
    | some value => exact field_of_mem_childrenUnder (by simpa [hvalue] using hchild)
  have hkeys : Rules.childKeys.Nodup := by decide
  rw [underChildKeys_eq, List.map_flatMap, List.nodup_flatMap]
  refine ⟨fun key _ => ?_, hkeys.imp fun hne place ha hb => hne ?_⟩
  · cases fields.get? key with
    | none => exact List.nodup_nil
    | some value => exact nodup_map_fst_childrenUnder key value
  · rw [← hfield ha, hfield hb]

private theorem nodup_map_fst_childNodes (j : Json) : (j.childNodes.map Prod.fst).Nodup := by
  unfold childNodes
  split
  · exact nodup_map_fst_underChildKeys _
  · exact List.nodup_nil

theorem payload?_eq_some_iff {j : Json} {payload : KeyMap Json} :
    j.payload? = some payload ↔ j.field? "properties" = some (object payload) := by
  rw [payload?, Option.bind_eq_some_iff]
  constructor
  · rintro ⟨value, hvalue, hfields⟩
    cases value <;> cases hfields
    exact hvalue
  · exact fun h => ⟨_, h, rfl⟩

theorem mem_childNodes {j : Json} {payload : KeyMap Json}
    (hpayload : j.field? "properties" = some (object payload)) {key : String}
    (hkey : key ∈ Rules.childKeys) {value : Json} (hvalue : payload.get? key = some value)
    {child : ChildPlace × Json} (hchild : child ∈ childrenUnder key value) :
    child ∈ j.childNodes := by
  rw [childNodes, payload?_eq_some_iff.mpr hpayload]
  exact mem_underChildKeys hkey hvalue hchild

/-! ## Positions -/

/-- What stands at a position that is reached from the root through payloads that are objects. Under
a child key an object is a position, and each item of a list is one. -/
inductive NodeAt (root : Json) : List ChildPlace → Json → Prop where
  | root : NodeAt root [] root
  | slot {address : List ChildPlace} {j : Json} {payload : KeyMap Json} {key : String}
    {fields : List (String × Json)} (h : NodeAt root address j)
    (hpayload : j.field? "properties" = some (object payload)) (hkey : key ∈ Rules.childKeys)
    (hchild : payload.get? key = some (object fields)) :
    NodeAt root (address ++ [⟨key, none⟩]) (object fields)
  | item {address : List ChildPlace} {j : Json} {payload : KeyMap Json} {key : String}
    {items : List Json} {i : Nat} {item : Json} (h : NodeAt root address j)
    (hpayload : j.field? "properties" = some (object payload)) (hkey : key ∈ Rules.childKeys)
    (hlist : payload.get? key = some (array items)) (hitem : items[i]? = some item) :
    NodeAt root (address ++ [⟨key, some i⟩]) item

theorem NodeAt.child {root j : Json} {address : List ChildPlace} {child : ChildPlace × Json}
    (h : NodeAt root address j) (hchild : child ∈ j.childNodes) :
    NodeAt root (address ++ [child.1]) child.2 := by
  unfold childNodes at hchild
  split at hchild
  · rename_i payload hpayload
    have hpayload := payload?_eq_some_iff.mp hpayload
    obtain ⟨key, hkey, ⟨fields, hslot, rfl⟩ | ⟨items, hlist, hmem⟩⟩ := of_mem_underChildKeys hchild
    · exact h.slot hpayload hkey hslot
    · obtain ⟨⟨item, i⟩, hitem, rfl⟩ := List.mem_map.mp hmem
      exact h.item hpayload hkey hlist (List.mem_zipIdx_iff_getElem?.mp hitem)
  · cases hchild

/-- The positions in a value whose root has this address, each with what stands there. -/
def located (j : Json) (address : List ChildPlace) : List (List ChildPlace × Json) :=
  (address, j) :: j.childNodes.attach.flatMap fun ⟨(place, c), _⟩ =>
    c.located (address ++ [place])
termination_by j.size
decreasing_by exact size_lt_of_childNodes ‹_›

theorem located_eq (j : Json) (address : List ChildPlace) :
    j.located address =
      (address, j) :: j.childNodes.flatMap fun child =>
        child.2.located (address ++ [child.1]) := by
  rw [located, List.flatMap_subtype fun _ _ => rfl, List.unattach_attach]

theorem prefix_of_mem_located {j : Json} {address : List ChildPlace}
    {l : List ChildPlace × Json} (h : l ∈ j.located address) : address <+: l.1 := by
  induction j using childNodes_induction generalizing address with
  | node j ih =>
    rw [located_eq, List.mem_cons, List.mem_flatMap] at h
    rcases h with rfl | ⟨child, hchild, h⟩
    · exact List.prefix_rfl
    · exact (List.prefix_append _ _).trans (ih child hchild h)

theorem nodup_map_fst_located (j : Json) (address : List ChildPlace) :
    ((j.located address).map Prod.fst).Nodup := by
  induction j using childNodes_induction generalizing address with
  | node j ih =>
    rw [located_eq]
    exact nodup_map_fst_walk (nodup_map_fst_childNodes j)
      (fun child _ _ hl => prefix_of_mem_located hl) fun child hchild => ih child hchild _

theorem mem_located_self (j : Json) (address : List ChildPlace) :
    (address, j) ∈ j.located address := by
  rw [located_eq]
  exact List.mem_cons_self

theorem mem_located_child {root : Json} {start : List ChildPlace} {l : List ChildPlace × Json}
    (h : l ∈ root.located start) {child : ChildPlace × Json} (hchild : child ∈ l.2.childNodes) :
    (l.1 ++ [child.1], child.2) ∈ root.located start := by
  induction root using childNodes_induction generalizing start with
  | node root ih =>
    rw [located_eq, List.mem_cons, List.mem_flatMap] at h ⊢
    rcases h with rfl | ⟨first, hfirst, h⟩
    · exact .inr ⟨child, hchild, mem_located_self _ _⟩
    · exact .inr ⟨first, hfirst, ih first hfirst h⟩

private theorem NodeAt.of_mem_located {root j : Json} {address : List ChildPlace}
    {l : List ChildPlace × Json} (hat : NodeAt root address j) (h : l ∈ j.located address) :
    NodeAt root l.1 l.2 := by
  induction j using childNodes_induction generalizing address with
  | node j ih =>
    rw [located_eq, List.mem_cons, List.mem_flatMap] at h
    rcases h with rfl | ⟨child, hchild, h⟩
    · exact hat
    · exact ih child hchild (hat.child hchild) h

theorem mem_located_iff {root j : Json} {address : List ChildPlace} :
    (address, j) ∈ root.located [] ↔ NodeAt root address j := by
  refine ⟨NodeAt.root.of_mem_located, fun h => ?_⟩
  induction h with
  | root => exact mem_located_self _ _
  | slot h hpayload hkey hchild ih =>
    exact mem_located_child ih
      (mem_childNodes hpayload hkey hchild (List.mem_singleton_self _))
  | item h hpayload hkey hlist hitem ih =>
    exact mem_located_child ih
      (mem_childNodes hpayload hkey hlist (mem_childrenUnder_item hitem))

theorem NodeAt.field_mem_childKeys {root j : Json} {address : List ChildPlace}
    (h : NodeAt root address j) : ∀ place ∈ address, place.field ∈ Rules.childKeys := by
  induction h with
  | root => exact List.forall_mem_nil _
  | slot h hpayload hkey hchild ih =>
    exact List.forall_mem_append.mpr ⟨ih, List.forall_mem_singleton.mpr hkey⟩
  | item h hpayload hkey hlist hitem ih =>
    exact List.forall_mem_append.mpr ⟨ih, List.forall_mem_singleton.mpr hkey⟩

theorem NodeAt.unique {root a b : Json} {address : List ChildPlace} (ha : NodeAt root address a)
    (hb : NodeAt root address b) : a = b :=
  congrArg Prod.snd (List.inj_on_of_nodup_map (root.nodup_map_fst_located [])
    (mem_located_iff.mpr ha) (mem_located_iff.mpr hb) rfl)

end ScreenDoc.Json
