import ScreenDoc.Proofs.Editor.Edits
import ScreenDoc.Proofs.Node.Replace

/-!
# What an edit leaves as it is

An edit at an id exchanges the rows of the tree below the id and leaves all other rows with their
depths and ids. Nodes that are neither below the id nor above it are found under their ids as
before. A node that is added to a list comes behind the rows that were there, and a node that is put
into a child slot leaves the other children of its parent under their ids.
-/

namespace ScreenDoc

open Node (rootId)

namespace Editor

theorem ancestorsOf_eq {e : Editor} {address : List Nat} {o : Occurrence}
    (ho : e.root.occurrence? rootId address = some o) : e.ancestorsOf o.id = o.above := by
  have hfind : e.index.find? o.id = some (e.root.rank address) :=
    TreeIndex.find?_eq_some_iff_rank.mpr ⟨address, o, ho, rfl, rfl⟩
  rw [ancestorsOf, hfind]
  exact TreeIndex.ancestorIds_rank ho

/-- Every node that is neither in the tree below the id `p` nor above it is found under its id
afterwards as before. -/
def KeepsRest (e e' : Editor) (p : String) : Prop :=
  ∀ q n, e.index.nodeWithId? q = some n → q ≠ p → p ∉ e.ancestorsOf q → q ∉ e.ancestorsOf p →
    e'.index.nodeWithId? q = some n

private theorem keepsRest_commit {e : Editor} {address : List Nat} {o : Occurrence} {r tree : Node}
    (ho : e.root.occurrence? rootId address = some o)
    (htree : e.root.replaceAt? address r = some tree) : e.KeepsRest (e.commit tree) o.id := by
  intro q n hq hne hbelow habove
  obtain ⟨other, s, hs, rfl, rfl⟩ := TreeIndex.nodeWithId?_eq_some_iff.mp hq
  have hother : other ≠ address := by
    rintro rfl
    rw [hs] at ho
    exact hne (congrArg Occurrence.id (Option.some.inj ho))
  rw [ancestorsOf_eq hs, Node.mem_above_iff hs] at hbelow
  rw [ancestorsOf_eq ho, Node.mem_above_iff ho] at habove
  refine TreeIndex.nodeWithId?_eq_some_iff.mpr ⟨other, s, ?_, rfl, rfl⟩
  rw [root_commit, Node.occurrence?_replaceAt?_of_not_prefix htree]
  · exact hs
  · intro hprefix
    exact hbelow ⟨address, o, ho, rfl, hprefix, hother.symm⟩
  · intro hprefix
    exact habove ⟨other, s, hs, rfl, hprefix, hother⟩

theorem frame_of_update {e : Editor} {p : String} {r tree : Node}
    (htree : e.root.update p r = .applied tree) :
    ∃ address o, e.root.occurrence? rootId address = some o ∧ o.id = p ∧
      tree.occurrence? rootId address = some { o with node := r, id := o.idAs r.type } ∧
      SwapsBlock e.root.flatten tree.flatten (o.node.rows [] address.length p)
        (r.rows [] address.length (o.idAs r.type)) ∧
      e.KeepsRest (e.commit tree) p := by
  obtain ⟨address, o, ho, rfl, hreplaced⟩ := Node.update_eq_applied_iff.mp htree
  have hrows := Node.rows_replaceAt? ho hreplaced 0
  rw [Nat.zero_add] at hrows
  exact ⟨address, o, ho, rfl, Node.occurrence?_replaceAt?_self ho hreplaced, hrows,
    keepsRest_commit ho hreplaced⟩

end Editor

namespace Node

/-- The id of a replacement is that of the root, or it differs from the old id in the type only. -/
theorem idAs_cases {root : Node} {address : List Nat} {o : Occurrence}
    (ho : root.occurrence? rootId address = some o) (type : NodeType) :
    (o.id = rootId ∧ o.idAs type = rootId) ∨
      ∃ parentId position, o.id = o.node.type.childId parentId position ∧
        o.idAs type = type.childId parentId position := by
  cases address using List.reverseRecOn with
  | nil =>
    cases ho
    exact .inl ⟨rfl, rfl⟩
  | append_singleton address position =>
    obtain ⟨parent, -, c, -, rfl⟩ := occurrence?_concat_eq_some.mp ho
    exact .inr ⟨parent.id, position, rfl, parent.idAs_child position c type⟩

theorem type_withDefaultText (n : Node) : n.withDefaultText.type = n.type := by
  rw [withDefaultText]
  split
  · split <;> rfl
  · rfl

private theorem rows_of_children_concat {n m c : Node} (h : m.children = n.children ++ [c])
    (depth : Nat) (id : String) :
    m.rows [] depth id =
      ⟨depth, m, id⟩ :: rowsOfChildren n.children 0 depth id ++
        c.rows [] (depth + 1) (c.type.childId id n.children.length) := by
  rw [rows_eq_cons, h, rowsOfChildren_append, rowsOfChildren_cons, Nat.zero_add]
  simp [rowsOfChildren]

end Node

namespace Editor

/-- The session `e'` is `e` with the node `n` in the place of the node with the id `p`: the rows
below `p` give way to those of `n`, whose id differs from `p` at most in the type. -/
structure Replaces (e e' : Editor) (p : String) (n : Node) : Prop where
  rest : e.KeepsRest e' p
  rows : ∃ (m : Node) (depth : Nat) (p' : String),
    e.index.nodeWithId? p = some m ∧
    (p = rootId ∧ p' = rootId ∨
      ∃ parentId position, p = m.type.childId parentId position ∧
        p' = n.type.childId parentId position) ∧
    SwapsBlock e.root.flatten e'.root.flatten (m.rows [] depth p) (n.rows [] depth p')

/-- The session `e'` is `e` with the node `n`, which gets the default text, behind the children of
the node with the id `p`: the rows below `p` stay, and those of the new node come right behind. -/
structure Appends (e e' : Editor) (p : String) (n : Node) : Prop where
  rest : e.KeepsRest e' p
  rows : ∃ (m m' : Node) (depth : Nat) (below : List Row) (newId : String),
    e.index.nodeWithId? p = some m ∧ e'.index.nodeWithId? p = some m' ∧
    newId = p ++ "_" ++ n.type.name ++ "_" ++ toString (m.children.length + 1) ∧
    e'.index.nodeWithId? newId = some n.withDefaultText ∧
    m.rows [] depth p = ⟨depth, m, p⟩ :: below ∧
    SwapsBlock e.root.flatten e'.root.flatten (⟨depth, m, p⟩ :: below)
      (⟨depth, m', p⟩ :: below ++ n.withDefaultText.rows [] (depth + 1) newId)

/-- The session `e'` is `e` with the node `n`, which gets the default text, in the single child slot
of the node with the id `p`: the other children of `p` stay where they are and keep their ids. -/
structure Fills (e e' : Editor) (p : String) (n : Node) : Prop where
  rest : e.KeepsRest e' p
  rows : ∃ (m m' : Node) (depth : Nat) (beside : List (ChildPlace × Node)) (old : Option Node),
    e.index.nodeWithId? p = some m ∧ e'.index.nodeWithId? p = some m' ∧
    (∀ placed ∈ beside, placed.1.field ≠ "child") ∧
    m.placedChildren = beside ++ Properties.slot "child" old ∧
    m'.placedChildren = beside ++ Properties.slot "child" (some n.withDefaultText) ∧
    (∀ (position : Nat) (placed : ChildPlace × Node), beside[position]? = some placed →
      e.index.nodeWithId? (placed.2.type.childId p position) = some placed.2 ∧
      e'.index.nodeWithId? (placed.2.type.childId p position) = some placed.2) ∧
    SwapsBlock e.root.flatten e'.root.flatten (m.rows [] depth p) (m'.rows [] depth p)

private theorem replaces_update {e : Editor} {p : String} {n : Node}
    (happlied : (e.update p n).2.isApplied = true) : e.Replaces (e.update p n).1 p n := by
  rcases e.update_cases p n with ⟨tree, htree, hedit⟩ | ⟨-, hrefused⟩
  · obtain ⟨address, o, ho, rfl, -, hrows, hrest⟩ := frame_of_update htree
    rw [hedit]
    exact ⟨hrest, o.node, address.length, o.idAs n.type, TreeIndex.nodeWithId?_of_occurrence? ho,
      Node.idAs_cases ho n.type, hrows⟩
  · rw [hrefused] at happlied
    cases happlied

theorem frame_of_parent {e : Editor} {p : String} {parent updated tree : Node}
    (hparent : e.index.nodeWithId? p = some parent) (htype : updated.type = parent.type)
    (htree : e.root.update p updated = .applied tree) :
    ∃ address o o', e.root.occurrence? rootId address = some o ∧ o.id = p ∧ o.node = parent ∧
      tree.occurrence? rootId address = some o' ∧ o'.id = p ∧ o'.node = updated ∧
      SwapsBlock e.root.flatten tree.flatten (parent.rows [] address.length p)
        (updated.rows [] address.length p) ∧
      e.KeepsRest (e.commit tree) p := by
  obtain ⟨address, o, ho, rfl, ho', hrows, hrest⟩ := frame_of_update htree
  have hnode : o.node = parent := by
    have hfound := TreeIndex.nodeWithId?_of_occurrence? ho
    rw [index, hfound] at hparent
    exact Option.some.inj hparent
  have hid : o.idAs updated.type = o.id := by
    rw [htype, ← hnode, Node.idAs_self ho]
  rw [hid] at ho' hrows
  rw [hnode] at hrows
  exact ⟨address, o, _, ho, rfl, hnode, ho', rfl, rfl, hrows, hrest⟩

private theorem appends_addAsSibling {e : Editor} {p : String} {n : Node}
    (happlied : (e.addAsSibling p n).2.isApplied = true) :
    e.Appends (e.addAsSibling p n).1 p n := by
  rw [addAsSibling] at happlied ⊢
  rcases e.editParent_cases p n Node.addAsSibling rfl with
    ⟨parent, updated, tree, hparent, hadd, htree, hedit⟩ | ⟨-, hrefused⟩
  · obtain ⟨htype, hchildren⟩ := Node.children_of_addAsSibling hadd
    obtain ⟨address, o, o', -, -, -, ho', rfl, rfl, hrows, hrest⟩ :=
      frame_of_parent hparent htype htree
    have hnew : o'.node.children[parent.children.length]? = some n.withDefaultText := by
      rw [hchildren, List.getElem?_concat_length]
    have hfound := TreeIndex.nodeWithId?_childId ho' hnew
    rw [Node.type_withDefaultText] at hfound
    rw [Node.rows_eq_cons, Node.rows_of_children_concat hchildren,
      Node.type_withDefaultText] at hrows
    rw [hedit]
    exact ⟨hrest, parent, o'.node, address.length, _, _, hparent,
      TreeIndex.nodeWithId?_of_occurrence? ho', rfl, hfound, parent.rows_eq_cons _ _, hrows⟩
  · rw [hrefused] at happlied
    cases happlied

private theorem fills_addAsChild {e : Editor} {p : String} {n : Node}
    (happlied : (e.addAsChild p n).2.isApplied = true) : e.Fills (e.addAsChild p n).1 p n := by
  rw [addAsChild] at happlied ⊢
  rcases e.editParent_cases p n Node.addAsChild rfl with
    ⟨parent, updated, tree, hparent, hadd, htree, hedit⟩ | ⟨-, hrefused⟩
  · obtain ⟨htype, beside, old, hbeside, hold, hnew⟩ := Node.placedChildren_of_addAsChild hadd
    obtain ⟨address, o, o', ho, hid, rfl, ho', rfl, rfl, hrows, hrest⟩ :=
      frame_of_parent hparent htype htree
    have hkept {m : Node} {slot : List (ChildPlace × Node)}
        (hm : m.placedChildren = beside ++ slot) {position : Nat} {placed : ChildPlace × Node}
        (hplaced : beside[position]? = some placed) :
        m.children[position]? = some placed.2 := by
      have hlt : position < beside.length := (List.getElem?_eq_some_iff.mp hplaced).1
      rw [← Node.map_snd_placedChildren, hm, List.getElem?_map,
        List.getElem?_append_left hlt, hplaced, Option.map_some]
    rw [hedit]
    refine ⟨hrest, o.node, o'.node, address.length, beside, old, hparent,
      TreeIndex.nodeWithId?_of_occurrence? ho', hbeside, hold, hnew, ?_, hrows⟩
    intro position placed hplaced
    constructor
    · rw [← hid]
      exact TreeIndex.nodeWithId?_childId ho (hkept hold hplaced)
    · exact TreeIndex.nodeWithId?_childId ho' (hkept hnew hplaced)
  · rw [hrefused] at happlied
    cases happlied

/-- Edits never renumber the rest of a tree: an applied update exchanges the block of rows below its
id, an applied addition to a child list keeps this block and adds the rows of the new node behind
it, an applied filling of a child slot keeps the ids of all other children; and after each of them
every node that is neither below the id nor above it is found under its id as before. -/
theorem edits_keep_rest (e : Editor) (p : String) (n : Node) :
    ((e.update p n).2.isApplied = true → e.Replaces (e.update p n).1 p n) ∧
      ((e.addAsSibling p n).2.isApplied = true → e.Appends (e.addAsSibling p n).1 p n) ∧
      ((e.addAsChild p n).2.isApplied = true → e.Fills (e.addAsChild p n).1 p n) :=
  ⟨replaces_update, appends_addAsSibling, fills_addAsChild⟩

/-- In a column of a text, a row and a scaffold with a bar, the row is replaced by a text, or gets a
text without text, or the scaffold gets a body. -/
theorem edits_keep_rest_sample :
    ((sample.update "root_0_Row_2" (.plainText "new")).2.isApplied = true ∧
      (sample.addAsSibling "root_0_Row_2" { type := .text }).2.isApplied = true ∧
      (sample.addAsChild "root_0_Scaffold_3" (.plainText "body")).2.isApplied = true) ∧
    sample.Replaces (sample.update "root_0_Row_2" (.plainText "new")).1 "root_0_Row_2"
      (.plainText "new") ∧
    sample.Appends (sample.addAsSibling "root_0_Row_2" { type := .text }).1 "root_0_Row_2"
      { type := .text } ∧
    sample.Fills (sample.addAsChild "root_0_Scaffold_3" (.plainText "body")).1
      "root_0_Scaffold_3" (.plainText "body") := by
  have hupdate : (sample.update "root_0_Row_2" (.plainText "new")).2.isApplied = true := by
    decide +kernel
  have hsibling : (sample.addAsSibling "root_0_Row_2" { type := .text }).2.isApplied = true := by
    decide +kernel
  have hchild :
      (sample.addAsChild "root_0_Scaffold_3" (.plainText "body")).2.isApplied = true := by
    decide +kernel
  exact ⟨⟨hupdate, hsibling, hchild⟩, (edits_keep_rest sample _ _).1 hupdate,
    (edits_keep_rest sample _ _).2.1 hsibling, (edits_keep_rest sample _ _).2.2 hchild⟩

end Editor

end ScreenDoc
