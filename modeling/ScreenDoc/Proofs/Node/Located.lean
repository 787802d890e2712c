import Mathlib.Data.List.Nodup
import ScreenDoc.Node.Flatten
import ScreenDoc.Validate.Typed

/-!
# Addresses in a tree

The address of a node is the list of places that lead to it from the root. A tree lists its nodes
with their addresses in the order of its rows; no address occurs twice.
-/

namespace ScreenDoc

/-- A walk that lists a position and then what is below each of its children lists no address twice,
provided that the children stand in different places. -/
theorem nodup_map_fst_walk {α : Type} {address : List ChildPlace} {a : α}
    {children : List (ChildPlace × α)} {below : ChildPlace × α → List (List ChildPlace × α)}
    (hplaces : (children.map Prod.fst).Nodup)
    (hfirst : ∀ child ∈ children, ∀ l ∈ below child, address ++ [child.1] <+: l.1)
    (hbelow : ∀ child ∈ children, ((below child).map Prod.fst).Nodup) :
    (((address, a) :: children.flatMap below).map Prod.fst).Nodup := by
  rw [List.map_cons, List.map_flatMap, List.nodup_cons, List.nodup_flatMap]
  refine ⟨?_, hbelow, ?_⟩
  · -- Every position below has a longer address.
    intro hmem
    obtain ⟨child, hchild, hbelow⟩ := List.mem_flatMap.mp hmem
    obtain ⟨l, hl, heq⟩ := List.mem_map.mp hbelow
    have hlength := (hfirst child hchild l hl).length_le
    rw [heq, List.length_append, List.length_singleton] at hlength
    exact absurd hlength (by simp)
  · -- Positions below two children differ in the first step behind the address.
    have hplaces : children.Pairwise fun a b => a.1 ≠ b.1 := List.pairwise_map.mp hplaces
    refine List.Pairwise.imp_of_mem (fun {a b} hamem hbmem hne x hxa hxb => hne ?_) hplaces
    obtain ⟨l, hl, rfl⟩ := List.mem_map.mp hxa
    obtain ⟨m, hm, heq⟩ := List.mem_map.mp hxb
    have ha := hfirst a hamem l hl
    have hb := hfirst b hbmem m hm
    rw [heq] at hb
    have hab := List.prefix_of_prefix_length_le ha hb (by simp)
    simpa using hab.eq_of_length (by simp)

namespace Node

theorem placedChildren_induction {motive : Node → Prop}
    (node : ∀ n, (∀ child ∈ n.placedChildren, motive child.2) → motive n) (n : Node) :
    motive n :=
  node n fun child _ => placedChildren_induction node child.2
termination_by sizeOf n
decreasing_by exact sizeOf_child_lt (mem_children_of_placed ‹_›)

def located (n : Node) (address : List ChildPlace) : List (List ChildPlace × Node) :=
  (address, n) :: n.placedChildren.attach.flatMap fun ⟨(place, c), _⟩ =>
    c.located (address ++ [place])
termination_by sizeOf n
decreasing_by exact sizeOf_child_lt (mem_children_of_placed ‹_›)

theorem located_eq (n : Node) (address : List ChildPlace) :
    n.located address =
      (address, n) :: n.placedChildren.flatMap fun child =>
        child.2.located (address ++ [child.1]) := by
  rw [located, List.flatMap_subtype fun _ _ => rfl, List.unattach_attach]

theorem rows_collapsed_eq (n : Node) (collapsed : List String) (depth : Nat) (id : String) :
    n.rows collapsed depth id =
      ⟨depth, n, id⟩ ::
        if collapsed.contains id then []
        else n.children.zipIdx.flatMap fun child =>
          child.1.rows collapsed (depth + 1) (child.1.type.childId id child.2) := by
  rw [rows]
  conv_rhs => rw [← List.attach_map_subtype_val n.children, List.zipIdx_map, List.flatMap_map]
  rfl

theorem rows_eq (n : Node) (depth : Nat) (id : String) :
    n.rows [] depth id =
      ⟨depth, n, id⟩ :: n.children.zipIdx.flatMap fun child =>
        child.1.rows [] (depth + 1) (child.1.type.childId id child.2) :=
  n.rows_collapsed_eq [] depth id

theorem map_node_rows (n : Node) (address : List ChildPlace) (depth : Nat) (id : String) :
    (n.rows [] depth id).map Row.node = (n.located address).map Prod.snd := by
  induction n using placedChildren_induction generalizing address depth id with
  | node n ih =>
    have hrows : ∀ child ∈ n.placedChildren, ∀ depth id,
        (child.2.rows [] depth id).map Row.node = (child.2.located []).map Prod.snd :=
      fun child hchild depth id => ih child hchild [] depth id
    rw [rows_eq, located_eq, List.map_cons, List.map_cons, List.map_flatMap, List.map_flatMap]
    congr 1
    calc
      _ = n.children.zipIdx.flatMap fun child => (child.1.located []).map Prod.snd := by
        refine List.flatMap_congr fun child hchild => ?_
        have hmem := List.fst_mem_of_mem_zipIdx hchild
        rw [← map_snd_placedChildren] at hmem
        obtain ⟨placed, hplaced, heq⟩ := List.mem_map.mp hmem
        rw [← heq]
        exact hrows placed hplaced _ _
      _ = n.children.flatMap fun child => (child.located []).map Prod.snd := by
        conv_rhs => rw [← List.zipIdx_map_fst 0 n.children, List.flatMap_map]
      _ = n.placedChildren.flatMap fun child => (child.2.located []).map Prod.snd := by
        rw [← map_snd_placedChildren, List.flatMap_map]
      _ = _ := by
        refine List.flatMap_congr fun child hchild => ?_
        rw [← hrows child hchild 0 rootId, ih child hchild (address ++ [child.1]) 0 rootId]

theorem prefix_of_mem_located {n : Node} {address : List ChildPlace}
    {l : List ChildPlace × Node} (h : l ∈ n.located address) : address <+: l.1 := by
  induction n using placedChildren_induction generalizing address with
  | node n ih =>
    rw [located_eq, List.mem_cons, List.mem_flatMap] at h
    rcases h with rfl | ⟨child, hchild, h⟩
    · exact List.prefix_rfl
    · exact (List.prefix_append _ _).trans (ih child hchild h)

end Node

namespace Properties

variable {α : Type}

def childFields : List String :=
  ["children", "child", "topBar", "bottomBar", "title", "navigationIcon", "actions", "text",
    "confirmButton", "dismissButton"]

theorem map_fst_slot_sublist (field : String) (child : Option α) :
    ((slot field child).map Prod.fst).Sublist [⟨field, none⟩] := by
  cases child with
  | none => exact List.nil_sublist _
  | some c => exact List.Sublist.refl _

theorem map_fst_listed (field : String) (children : List α) :
    (listed field children).map Prod.fst =
      (List.range' 0 children.length).map fun i => ⟨field, some i⟩ := by
  rw [listed, List.map_map, ← List.zipIdx_map_snd, List.map_map]
  rfl

theorem nodup_map_fst_listed (field : String) (children : List α) :
    ((listed field children).map Prod.fst).Nodup := by
  rw [map_fst_listed]
  refine List.Nodup.map (fun i j hij => ?_) List.nodup_range'
  simpa using hij

theorem nodup_map_fst_placedChildren (p : Properties α) :
    (p.placedChildren.map Prod.fst).Nodup := by
  cases p with
  | column p => exact nodup_map_fst_listed _ _
  | row p => exact nodup_map_fst_listed _ _
  | box p => exact nodup_map_fst_listed _ _
  | button p => exact (List.nodup_singleton _).sublist (map_fst_slot_sublist _ _)
  | card p => exact (List.nodup_singleton _).sublist (map_fst_slot_sublist _ _)
  | scaffold p =>
    have hslots := ((map_fst_slot_sublist "topBar" p.topBar).append
      (map_fst_slot_sublist "bottomBar" p.bottomBar)).append (map_fst_slot_sublist "child" p.child)
    rw [placedChildren, List.map_append, List.map_append]
    exact List.Nodup.sublist hslots (by decide)
  | topAppBar p =>
    have hslots := (map_fst_slot_sublist "title" p.title).append
      (map_fst_slot_sublist "navigationIcon" p.navigationIcon)
    rw [placedChildren, List.map_append, List.map_append]
    refine List.Nodup.append (List.Nodup.sublist hslots (by decide))
      (nodup_map_fst_listed _ _) ?_
    intro place hslot hlisted
    rw [map_fst_listed] at hlisted
    obtain ⟨i, -, rfl⟩ := List.mem_map.mp hlisted
    simpa using hslots.subset hslot
  | alertDialog p =>
    have hslots := (((map_fst_slot_sublist "title" p.title).append
      (map_fst_slot_sublist "text" p.text)).append
      (map_fst_slot_sublist "confirmButton" p.confirmButton)).append
      (map_fst_slot_sublist "dismissButton" p.dismissButton)
    rw [placedChildren, List.map_append, List.map_append, List.map_append]
    exact List.Nodup.sublist hslots (by decide)
  | text p => exact List.nodup_nil
  | image p => exact List.nodup_nil
  | textField p => exact List.nodup_nil
  | switch p => exact List.nodup_nil
  | checkbox p => exact List.nodup_nil
  | custom p => exact List.nodup_nil

theorem field_of_mem_slot {field : String} {slotted : Option α} {child : ChildPlace × α}
    (h : child ∈ slot field slotted) : child.1.field = field := by
  obtain ⟨source, -, rfl⟩ := List.mem_map.mp h
  rfl

theorem field_of_mem_listed {field : String} {children : List α} {child : ChildPlace × α}
    (h : child ∈ listed field children) : child.1.field = field := by
  obtain ⟨source, -, rfl⟩ := List.mem_map.mp h
  rfl

theorem field_mem_childFields {p : Properties α} {child : ChildPlace × α}
    (h : child ∈ p.placedChildren) : child.1.field ∈ childFields := by
  cases p <;> simp only [placedChildren, List.mem_append, List.not_mem_nil] at h
  case column p => rw [field_of_mem_listed h]; decide
  case row p => rw [field_of_mem_listed h]; decide
  case box p => rw [field_of_mem_listed h]; decide
  case button p => rw [field_of_mem_slot h]; decide
  case card p => rw [field_of_mem_slot h]; decide
  case scaffold p =>
    rcases h with (h | h) | h <;> rw [field_of_mem_slot h] <;> decide
  case topAppBar p =>
    rcases h with (h | h) | h
    · rw [field_of_mem_slot h]; decide
    · rw [field_of_mem_slot h]; decide
    · rw [field_of_mem_listed h]; decide
  case alertDialog p =>
    rcases h with ((h | h) | h) | h <;> rw [field_of_mem_slot h] <;> decide

end Properties

namespace Node

theorem nodup_map_fst_placedChildren (n : Node) : (n.placedChildren.map Prod.fst).Nodup := by
  unfold placedChildren
  split
  · exact Properties.nodup_map_fst_placedChildren _
  · exact List.nodup_nil

theorem field_mem_childFields {n : Node} {child : ChildPlace × Node}
    (h : child ∈ n.placedChildren) : child.1.field ∈ Properties.childFields := by
  unfold placedChildren at h
  split at h
  · exact Properties.field_mem_childFields h
  · cases h

theorem field_of_mem_located {n : Node} {address : List ChildPlace}
    {l : List ChildPlace × Node} (h : l ∈ n.located address)
    (haddress : ∀ place ∈ address, place.field ∈ Properties.childFields) :
    ∀ place ∈ l.1, place.field ∈ Properties.childFields := by
  induction n using placedChildren_induction generalizing address with
  | node n ih =>
    rw [located_eq, List.mem_cons, List.mem_flatMap] at h
    rcases h with rfl | ⟨child, hchild, h⟩
    · exact haddress
    · refine ih child hchild h fun place hplace => ?_
      rcases List.mem_append.mp hplace with hplace | hplace
      · exact haddress place hplace
      · rw [List.mem_singleton.mp hplace]
        exact field_mem_childFields hchild

theorem nodup_map_fst_located (n : Node) (address : List ChildPlace) :
    ((n.located address).map Prod.fst).Nodup := by
  induction n using placedChildren_induction generalizing address with
  | node n ih =>
    rw [located_eq]
    exact nodup_map_fst_walk (nodup_map_fst_placedChildren n)
      (fun child _ _ hl => prefix_of_mem_located hl) fun child hchild => ih child hchild _

end Node

end ScreenDoc
