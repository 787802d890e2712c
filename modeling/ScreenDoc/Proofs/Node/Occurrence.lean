import Mathlib.Data.List.Induction
import ScreenDoc.Proofs.Node.Address

/-!
# Occurrences

A node where it stands in a tree: under the positions that lead to it, with its derived id and the
ids of its ancestors. A tree has one occurrence for every address that leads to a node, and lists
them in the order of its rows; a row is visible if no id above its occurrence is collapsed.
-/

namespace ScreenDoc

structure Occurrence where
  /-- The positions among siblings that lead from the root. -/
  address : List Nat
  node : Node
  id : String
  /-- The ids of the ancestors, from the parent up to the root. -/
  above : List String

namespace Occurrence

/-- A tree as it stands for itself. -/
def top (n : Node) (id : String) : Occurrence :=
  ⟨[], n, id, []⟩

/-- The child `c` of a node, in this position. -/
def child (o : Occurrence) (position : Nat) (c : Node) : Occurrence :=
  ⟨o.address ++ [position], c, c.type.childId o.id position, o.id :: o.above⟩

/-- What occurs in the child in this position occurs below the parent. -/
def under (o : Occurrence) (position : Nat) (parentId : String) : Occurrence :=
  ⟨position :: o.address, o.node, o.id, o.above ++ [parentId]⟩

def row (depth : Nat) (o : Occurrence) : Row :=
  ⟨depth + o.address.length, o.node, o.id⟩

def isVisible (collapsed : List String) (o : Occurrence) : Bool :=
  o.above.all fun id => !collapsed.contains id

private theorem filter_isVisible_map_under (collapsed : List String) (os : List Occurrence)
    (position : Nat) (parentId : String) :
    (os.map (·.under position parentId)).filter (isVisible collapsed) =
      if collapsed.contains parentId then []
      else (os.filter (isVisible collapsed)).map (·.under position parentId) := by
  have hunder (o : Occurrence) : (o.under position parentId).isVisible collapsed =
      (o.isVisible collapsed && !collapsed.contains parentId) := by
    simp [isVisible, under]
  cases hcollapsed : collapsed.contains parentId <;>
    simp only [List.filter_map, Function.comp_def, hunder, hcollapsed] <;> simp

end Occurrence

namespace Node

/-- What stands at an address of a tree whose root has this id. -/
def occurrence? (n : Node) (id : String) : List Nat → Option Occurrence
  | [] => some (.top n id)
  | position :: rest => n.children[position]?.bind fun c =>
    (c.occurrence? (c.type.childId id position) rest).map (·.under position id)

def occurrences (n : Node) (id : String) : List Occurrence :=
  .top n id :: n.children.attach.zipIdx.flatMap fun (⟨c, _⟩, position) =>
    (c.occurrences (c.type.childId id position)).map (·.under position id)
termination_by sizeOf n
decreasing_by exact sizeOf_child_lt ‹_›

theorem occurrences_eq (n : Node) (id : String) :
    n.occurrences id =
      .top n id :: n.children.zipIdx.flatMap fun child =>
        (child.1.occurrences (child.1.type.childId id child.2)).map (·.under child.2 id) := by
  rw [occurrences]
  conv_rhs => rw [← List.attach_map_subtype_val n.children, List.zipIdx_map, List.flatMap_map]
  rfl

theorem occurrence?_cons_eq_some {n : Node} {id : String} {position : Nat} {rest : List Nat}
    {o : Occurrence} :
    n.occurrence? id (position :: rest) = some o ↔
      ∃ c, n.children[position]? = some c ∧
        ∃ inner, c.occurrence? (c.type.childId id position) rest = some inner ∧
          inner.under position id = o := by
  simp [occurrence?, Option.bind_eq_some_iff, Option.map_eq_some_iff]

theorem address_of_occurrence? {n : Node} {id : String} {address : List Nat} {o : Occurrence}
    (h : n.occurrence? id address = some o) : o.address = address := by
  induction address generalizing n id o with
  | nil =>
    cases h
    rfl
  | cons position rest ih =>
    obtain ⟨c, -, inner, hinner, rfl⟩ := occurrence?_cons_eq_some.mp h
    exact congrArg (position :: ·) (ih hinner)

theorem map_node_occurrence? (n : Node) (id : String) (address : List Nat) :
    (n.occurrence? id address).map Occurrence.node = n.at? address := by
  induction address generalizing n id with
  | nil => rfl
  | cons position rest ih =>
    rw [occurrence?, at?, Option.map_bind]
    refine Option.bind_congr fun c _ => ?_
    rw [← ih c (c.type.childId id position), Function.comp_apply, Option.map_map]
    rfl

theorem at?_of_occurrence? {n : Node} {id : String} {address : List Nat} {o : Occurrence}
    (h : n.occurrence? id address = some o) : n.at? address = some o.node := by
  rw [← map_node_occurrence? n id, h, Option.map_some]

theorem exists_occurrence? {n m : Node} {address : List Nat} (h : n.at? address = some m)
    (id : String) : ∃ o, n.occurrence? id address = some o ∧ o.node = m :=
  Option.map_eq_some_iff.mp ((map_node_occurrence? n id address).trans h)

private theorem occurrence?_concat (n : Node) (id : String) (address : List Nat) (position : Nat) :
    n.occurrence? id (address ++ [position]) =
      (n.occurrence? id address).bind fun o =>
        o.node.children[position]?.map (o.child position) := by
  induction address generalizing n id with
  | nil =>
    rw [List.nil_append, occurrence?, occurrence?, Option.bind_some, Option.map_eq_bind]
    rfl
  | cons first rest ih =>
    rw [List.cons_append, occurrence?, occurrence?, Option.bind_assoc]
    refine Option.bind_congr fun c _ => ?_
    rw [ih c, Option.map_bind, Option.bind_map]
    refine Option.bind_congr fun o _ => ?_
    rw [Function.comp_apply, Option.map_map]
    rfl

theorem occurrence?_concat_eq_some {n : Node} {id : String} {address : List Nat} {position : Nat}
    {o : Occurrence} :
    n.occurrence? id (address ++ [position]) = some o ↔
      ∃ parent, n.occurrence? id address = some parent ∧
        ∃ c, parent.node.children[position]? = some c ∧ parent.child position c = o := by
  rw [occurrence?_concat, Option.bind_eq_some_iff]
  simp only [Option.map_eq_some_iff]

theorem mem_occurrences {n : Node} {id : String} {o : Occurrence} :
    o ∈ n.occurrences id ↔ n.occurrence? id o.address = some o := by
  induction n using Node.induction generalizing id o with
  | node n ih =>
    rw [occurrences_eq, List.mem_cons, List.mem_flatMap]
    constructor
    · rintro (rfl | ⟨⟨c, position⟩, hchild, ho⟩)
      · rfl
      · obtain ⟨inner, hinner, rfl⟩ := List.mem_map.mp ho
        have hc := List.mem_zipIdx_iff_getElem?.mp hchild
        refine occurrence?_cons_eq_some.mpr ⟨c, hc, inner, ?_, rfl⟩
        exact (ih c (List.mem_of_getElem? hc)).mp hinner
    · intro h
      obtain ⟨address, node, oid, above⟩ := o
      cases address with
      | nil => exact .inl (Option.some.inj h).symm
      | cons position rest =>
        obtain ⟨c, hc, inner, hinner, heq⟩ := occurrence?_cons_eq_some.mp h
        refine .inr ⟨(c, position), List.mem_zipIdx_iff_getElem?.mpr hc, ?_⟩
        refine List.mem_map.mpr ⟨inner, ?_, heq⟩
        apply (ih c (List.mem_of_getElem? hc)).mpr
        rwa [address_of_occurrence? hinner]

theorem prefix_concat_ne_iff {α : Type} {a l : List α} {x : α} :
    a <+: l ++ [x] ∧ a ≠ l ++ [x] ↔ a <+: l := by
  rw [List.prefix_concat_iff]
  constructor
  · rintro ⟨heq | hprefix, hne⟩
    · exact absurd heq hne
    · exact hprefix
  · intro hprefix
    refine ⟨.inr hprefix, ?_⟩
    rintro rfl
    have hlength := hprefix.length_le
    rw [List.length_append, List.length_singleton] at hlength
    omega

theorem mem_above_iff {n : Node} {id : String} {address : List Nat} {o : Occurrence}
    (ho : n.occurrence? id address = some o) {above : String} :
    above ∈ o.above ↔
      ∃ a p, n.occurrence? id a = some p ∧ p.id = above ∧ a <+: address ∧ a ≠ address := by
  induction address using List.reverseRecOn generalizing o with
  | nil =>
    cases ho
    refine iff_of_false List.not_mem_nil ?_
    rintro ⟨a, p, -, -, hprefix, hne⟩
    exact hne (List.prefix_nil.mp hprefix)
  | append_singleton address position ih =>
    obtain ⟨parent, hparent, c, -, rfl⟩ := occurrence?_concat_eq_some.mp ho
    rw [Occurrence.child, List.mem_cons, ih hparent]
    simp only [prefix_concat_ne_iff]
    constructor
    · rintro (rfl | ⟨a, p, hp, hid, hprefix, -⟩)
      · exact ⟨address, parent, hparent, rfl, List.prefix_rfl⟩
      · exact ⟨a, p, hp, hid, hprefix⟩
    · rintro ⟨a, p, hp, hid, hprefix⟩
      by_cases ha : a = address
      · subst ha
        rw [hparent] at hp
        cases hp
        exact .inl hid.symm
      · exact .inr ⟨a, p, hp, hid, hprefix, ha⟩

/-! ## Rows -/

/-- The visible rows of a tree are its occurrences below expanded nodes. -/
theorem rows_eq_map_occurrences (n : Node) (collapsed : List String) (depth : Nat) (id : String) :
    n.rows collapsed depth id =
      ((n.occurrences id).filter (Occurrence.isVisible collapsed)).map (Occurrence.row depth) := by
  induction n using Node.induction generalizing depth id with
  | node n ih =>
    rw [rows_collapsed_eq, occurrences_eq, List.filter_cons_of_pos rfl, List.map_cons,
      List.filter_flatMap, List.map_flatMap]
    refine congrArg₂ List.cons rfl ?_
    simp only [Occurrence.filter_isVisible_map_under]
    split
    · simp
    · refine List.flatMap_congr fun child hchild => ?_
      rw [ih child.1 (List.fst_mem_of_mem_zipIdx hchild), List.map_map]
      refine List.map_congr_left fun o _ => ?_
      simp only [Function.comp_apply, Occurrence.row, Occurrence.under, List.length_cons]
      rw [Nat.add_right_comm, Nat.add_assoc]

end Node

end ScreenDoc
