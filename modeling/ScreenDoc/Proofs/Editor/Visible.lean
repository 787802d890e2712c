import ScreenDoc.Editor
import ScreenDoc.Proofs.Node.Index

/-!
# Visible rows

The walk down a tree that stops at collapsed nodes, and the question to an index whether all
ancestors of a node are expanded, choose the same nodes. A session shows the row of an id exactly if
it says that nothing above the id is collapsed.
-/

namespace ScreenDoc

open Node (rootId)

def IndexEntry.row (entry : IndexEntry) : Row :=
  ⟨entry.depth, entry.node, entry.id⟩

namespace Node

private theorem flattenVisible_eq_filter_entries (root : Node) (collapsed : List String) :
    root.flattenVisible collapsed =
      ((TreeIndex.build root).entries.zipIdx.filter fun entry =>
        (TreeIndex.build root).isAncestorExpanded collapsed entry.2).map fun entry =>
          entry.1.row := by
  have hexpanded : ∀ place ∈ (root.occurrences rootId).zipIdx,
      (TreeIndex.build root).isAncestorExpanded collapsed place.2 =
        place.1.isVisible collapsed := by
    intro place hplace
    have hlisted := getElem?_occurrences.mp (List.mem_zipIdx_iff_getElem?.mp hplace)
    rw [← hlisted.2]
    exact TreeIndex.isAncestorExpanded_rank (mem_occurrences.mp hlisted.1) collapsed
  calc
    _ = ((root.occurrences rootId).filter (Occurrence.isVisible collapsed)).map
          (Occurrence.row 0) :=
      root.rows_eq_map_occurrences collapsed 0 rootId
    _ = ((root.occurrences rootId).zipIdx.filter fun place =>
          place.1.isVisible collapsed).map fun place => place.1.row 0 := by
      conv_lhs => rw [← List.zipIdx_map_fst 0 (root.occurrences rootId), List.filter_map,
        List.map_map]
      rfl
    _ = ((root.occurrences rootId).zipIdx.filter fun place =>
          (TreeIndex.build root).isAncestorExpanded collapsed place.2).map fun place =>
            place.1.row 0 := by
      rw [List.filter_congr hexpanded]
    _ = _ := by
      rw [TreeIndex.entries_build, List.zipIdx_map, List.filter_map, List.map_map]
      rfl

theorem flatten_eq_map_entries (root : Node) :
    root.flatten = (TreeIndex.build root).entries.map IndexEntry.row := by
  have hall : (root.occurrences rootId).filter (Occurrence.isVisible []) =
      root.occurrences rootId := by
    apply List.filter_eq_self.mpr
    simp [Occurrence.isVisible]
  rw [flatten, flattenVisible, rows_eq_map_occurrences, hall, TreeIndex.entries_build,
    List.map_map]
  rfl

private theorem mem_map_id_flattenVisible {root : Node} {collapsed : List String} {id : String} :
    id ∈ (root.flattenVisible collapsed).map Row.id ↔
      ∃ o ∈ root.occurrences rootId, o.isVisible collapsed = true ∧ o.id = id := by
  rw [flattenVisible, rows_eq_map_occurrences, List.map_map, List.mem_map]
  simp only [List.mem_filter, and_assoc, Function.comp_apply, Occurrence.row]

end Node

namespace Editor

private theorem isAncestorExpanded_eq_true {e : Editor} {id : String} :
    e.isAncestorExpanded id = true ↔
      ∃ o ∈ e.root.occurrences rootId, o.isVisible e.collapsed = true ∧ o.id = id := by
  rw [isAncestorExpanded, index]
  cases hfind : (TreeIndex.build e.root).find? id with
  | none =>
    refine iff_of_false Bool.false_ne_true ?_
    rintro ⟨o, ho, -, hid⟩
    have hfound := TreeIndex.find?_eq_some_iff_rank.mpr
      ⟨o.address, o, Node.mem_occurrences.mp ho, rfl, hid⟩
    rw [hfind] at hfound
    cases hfound
  | some handle =>
    obtain ⟨address, o, ho, rfl, rfl⟩ := TreeIndex.find?_eq_some_iff_rank.mp hfind
    have hmem : o ∈ e.root.occurrences rootId := by
      rwa [Node.mem_occurrences, Node.address_of_occurrence? ho]
    simp only [TreeIndex.isAncestorExpanded_rank ho]
    constructor
    · intro hvisible
      exact ⟨o, hmem, hvisible, rfl⟩
    · rintro ⟨p, hp, hvisible, hid⟩
      rwa [← Node.occurrence_inj hp hmem hid]

/-- What is visible: a tree shows exactly the entries of its index whose ancestors are expanded, in
the order of the index and with their depths, nodes and ids; with nothing collapsed it shows all of
them; and a session shows the row of an id exactly if it says that the ancestors of the id are
expanded. -/
theorem visible_exact :
    (∀ (root : Node) (collapsed : List String),
      root.flattenVisible collapsed =
        ((TreeIndex.build root).entries.zipIdx.filter fun entry =>
          (TreeIndex.build root).isAncestorExpanded collapsed entry.2).map fun entry =>
            ⟨entry.1.depth, entry.1.node, entry.1.id⟩) ∧
      (∀ root : Node, root.flattenVisible [] = root.flatten ∧
        root.flatten =
          (TreeIndex.build root).entries.map fun entry => ⟨entry.depth, entry.node, entry.id⟩) ∧
      ∀ (e : Editor) (id : String),
        id ∈ e.visibleRows.map Row.id ↔ e.isAncestorExpanded id = true := by
  refine ⟨Node.flattenVisible_eq_filter_entries, fun root => ⟨rfl, ?_⟩, fun e id => ?_⟩
  · exact root.flatten_eq_map_entries
  · rw [visibleRows, Node.mem_map_id_flattenVisible, isAncestorExpanded_eq_true]

end Editor

end ScreenDoc
