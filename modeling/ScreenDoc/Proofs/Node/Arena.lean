import ScreenDoc.Proofs.Editor.Visible

/-!
# How the entries of an index stand

An index can be grown in one list: the entry of a node is appended without children, and each child
joins the entry of its parent when all that is below it has been appended. What already stands is
never moved, so the list that has grown is the one that is laid out.

In an index every parent has a smaller number than its children and stands one level above them.
The walk from parent to parent therefore ends, at the root, and the positions that it passes lead
back down to the node.
-/

namespace ScreenDoc

open Node (rootId)

/-! ## Growing an index -/

/-- The entry with one more child. -/
def IndexEntry.adopt (entry : IndexEntry) (handle : Nat) : IndexEntry :=
  { entry with children := entry.children ++ [handle] }

namespace Node

/-- Appends the entries of a tree to those that stand. -/
def push (n : Node) (parent : Option Nat) (id : String) (depth : Nat)
    (standing : List IndexEntry) : List IndexEntry :=
  n.children.attach.zipIdx.foldl
    (fun grown (⟨c, _⟩, position) =>
      (c.push (some standing.length) (c.type.childId id position) (depth + 1) grown).modify
        standing.length (·.adopt grown.length))
    (standing ++ [⟨n, id, parent, depth, []⟩])
termination_by sizeOf n
decreasing_by exact sizeOf_child_lt ‹_›

private theorem push_eq (n : Node) (parent : Option Nat) (id : String) (depth : Nat)
    (standing : List IndexEntry) :
    n.push parent id depth standing =
      n.children.zipIdx.foldl
        (fun grown child =>
          (child.1.push (some standing.length) (child.1.type.childId id child.2) (depth + 1)
            grown).modify standing.length (·.adopt grown.length))
        (standing ++ [⟨n, id, parent, depth, []⟩]) := by
  rw [push]
  conv_rhs => rw [← List.attach_map_subtype_val n.children, List.zipIdx_map, List.foldl_map]
  rfl

end Node

namespace ChildLayout

/-- The list as it has grown when the entry `first` stands behind others, and behind it what has
been laid out of its children. -/
def grown (standing : List IndexEntry) (first : IndexEntry) (layout : ChildLayout) :
    List IndexEntry :=
  standing ++ { first with children := layout.handles } :: layout.entries

variable {standing : List IndexEntry} {first : IndexEntry} {layout : ChildLayout}

theorem length_grown (standing : List IndexEntry) (first : IndexEntry) (layout : ChildLayout) :
    (layout.grown standing first).length = standing.length + 1 + layout.entries.length := by
  simp only [grown, List.length_append, List.length_cons]
  omega

/-- A child whose entries have been appended, and that has joined its parent, has been laid out. -/
theorem grown_add (hnext : (layout.grown standing first).length = layout.next)
    (entries : List IndexEntry) :
    (layout.grown standing first ++ entries).modify standing.length
        (·.adopt (layout.grown standing first).length) =
      (layout.add entries).grown standing first := by
  rw [hnext, grown, List.append_assoc, List.cons_append]
  exact List.modifyTailIdx_add (List.modifyHead (·.adopt layout.next)) 0 standing _

private theorem length_grown_add (hnext : (layout.grown standing first).length = layout.next)
    (entries : List IndexEntry) :
    ((layout.add entries).grown standing first).length = (layout.add entries).next := by
  rw [length_grown] at hnext
  simp only [length_grown, add, List.length_append]
  omega

/-- Appending child after child is laying out child after child, when appending one child is
laying it out. -/
theorem foldl_push {children : List (Node × Nat)} {id : String} {depth : Nat}
    (hpush : ∀ child ∈ children, ∀ parent id depth standing,
      child.1.push parent id depth standing =
        standing ++ child.1.indexEntries parent id depth standing.length)
    (hnext : (layout.grown standing first).length = layout.next) :
    children.foldl
        (fun grown child =>
          (child.1.push (some standing.length) (child.1.type.childId id child.2) (depth + 1)
            grown).modify standing.length (·.adopt grown.length))
        (layout.grown standing first) =
      (children.foldl
        (fun layout child =>
          layout.add (child.1.indexEntries (some standing.length)
            (child.1.type.childId id child.2) (depth + 1) layout.next))
        layout).grown standing first := by
  induction children generalizing layout with
  | nil => rfl
  | cons child rest ih =>
    rw [List.foldl_cons, List.foldl_cons, hpush child List.mem_cons_self, grown_add hnext,
      ih (fun c hc => hpush c (List.mem_cons_of_mem child hc)) (length_grown_add hnext _), hnext]

end ChildLayout

private theorem Node.push_eq_append (n : Node) (parent : Option Nat) (id : String) (depth : Nat)
    (standing : List IndexEntry) :
    n.push parent id depth standing =
      standing ++ n.indexEntries parent id depth standing.length := by
  induction n using Node.induction generalizing parent id depth standing with
  | node n ih =>
    have hfirst : standing ++ [⟨n, id, parent, depth, []⟩] =
        (ChildLayout.mk (standing.length + 1) [] []).grown standing ⟨n, id, parent, depth, []⟩ :=
      rfl
    rw [push_eq, hfirst, ChildLayout.foldl_push, indexEntries_eq_childLayout]
    · rfl
    · intro child hchild
      exact ih child.1 (List.fst_mem_of_mem_zipIdx hchild)
    · exact ChildLayout.length_grown standing _ _

namespace TreeIndex

/-! ## Walking up -/

/-- Walking up from an entry, parent by parent until there is none, passes these entries. -/
inductive Climbs (t : TreeIndex) : Nat → List Nat → Prop
  | top {handle : Nat} : t.parent? handle = none → t.Climbs handle []
  | step {handle parent : Nat} {above : List Nat} :
    t.parent? handle = some parent → t.Climbs parent above → t.Climbs handle (parent :: above)

/-- The entries of an index stand as the nodes of the tree do: parents first, each with its subtree
right behind it. -/
structure Arranged (t : TreeIndex) (root : Node) : Prop where
  root_first : t.node? 0 = some root
  depth_first : t.depth? 0 = some 0
  /-- The root alone has no parent. -/
  orphan : ∀ i < t.size, t.parent? i = none ↔ i = 0
  parent_lt : ∀ i p, t.parent? i = some p → p < i
  depth_succ : ∀ i p, t.parent? i = some p →
    ∃ d, t.depth? p = some d ∧ t.depth? i = some (d + 1)
  /-- A node stands once among the children of its parent, and nowhere else. -/
  count_children : ∀ i p, (t.childrenOf p).count i = if t.parent? i = some p then 1 else 0
  children_nodes : ∀ i n, t.node? i = some n → (t.childrenOf i).map t.node? = n.children.map some
  /-- The entries are the rows of the tree from top to bottom. -/
  preorder : t.entries.map IndexEntry.row = root.flatten
  subtree : ∀ i j n, t.node? i = some n → j < t.size →
    (i ∈ t.ancestors j ↔ i < j ∧ j < i + n.size)

private theorem lt_size_of_parent? {t : TreeIndex} {i p : Nat} (h : t.parent? i = some p) :
    i < t.size := by
  obtain ⟨entry, hentry, -⟩ := Option.bind_eq_some_iff.mp h
  exact (List.getElem?_eq_some_iff.mp hentry).1

theorem lt_size_of_map_entries {t : TreeIndex} {i : Nat} {β : Type} {f : IndexEntry → β} {b : β}
    (h : t.entries[i]?.map f = some b) : i < t.size := by
  obtain ⟨entry, hentry, -⟩ := Option.map_eq_some_iff.mp h
  exact (List.getElem?_eq_some_iff.mp hentry).1

theorem lt_size_of_mem_childrenOf {t : TreeIndex} {i p : Nat} (h : i ∈ t.childrenOf p) :
    p < t.size := by
  by_contra hp
  rw [childrenOf, List.getElem?_eq_none (not_lt.mp hp)] at h
  exact List.not_mem_nil h

private theorem node?_isSome {t : TreeIndex} {i : Nat} (h : i < t.size) :
    ∃ n, t.node? i = some n :=
  ⟨t.entries[i].node, by rw [node?, List.getElem?_eq_getElem h, Option.map_some]⟩

namespace Arranged

variable {t : TreeIndex} {root : Node} {i p : Nat}

private theorem ancestors_eq_cons (h : t.Arranged root) (hp : t.parent? i = some p) :
    t.ancestors i = p :: t.ancestors p := by
  rw [ancestors, hp]
  exact if_pos (h.parent_lt i p hp)

/-- The ancestors of an entry are what the walk up passes, which ends because numbers get
smaller. -/
theorem climbs (h : t.Arranged root) (i : Nat) : t.Climbs i (t.ancestors i) := by
  induction i using Nat.strongRecOn with
  | ind i ih =>
    cases hp : t.parent? i with
    | none =>
      rw [ancestors, hp]
      exact .top hp
    | some p =>
      rw [h.ancestors_eq_cons hp]
      exact .step hp (ih p (h.parent_lt i p hp))

private theorem depth?_of_climbs (h : t.Arranged root) {above : List Nat}
    (hclimbs : t.Climbs i above) (hi : i < t.size) : t.depth? i = some above.length := by
  induction hclimbs with
  | top hp =>
    -- Without a parent it is the root.
    rw [(h.orphan _ hi).mp hp]
    exact h.depth_first
  | step hp _ ih =>
    obtain ⟨d, hd, hdepth⟩ := h.depth_succ _ _ hp
    rw [ih ((h.parent_lt _ _ hp).trans hi)] at hd
    rw [hdepth, ← Option.some.inj hd, List.length_cons]

private theorem getLast?_of_climbs (h : t.Arranged root) {above : List Nat}
    (hclimbs : t.Climbs i above) (hi : i < t.size) : (i :: above).getLast? = some 0 := by
  induction hclimbs with
  | top hp =>
    rw [(h.orphan _ hi).mp hp]
    rfl
  | step hp _ ih =>
    rw [List.getLast?_cons_cons]
    exact ih ((h.parent_lt _ _ hp).trans hi)

theorem exists_position (h : t.Arranged root) (hp : t.parent? i = some p) :
    ∃ position, (t.childrenOf p).findIdx? (· == i) = some position ∧
      (t.childrenOf p)[position]? = some i ∧ t.positions i = t.positions p ++ [position] := by
  have hcount := h.count_children i p
  rw [if_pos hp] at hcount
  have hmem : i ∈ t.childrenOf p := List.count_pos_iff.mp (by omega)
  have hsome : ((t.childrenOf p).findIdx? (· == i)).isSome := by
    rw [List.findIdx?_isSome]
    exact List.any_eq_true.mpr ⟨i, hmem, beq_self_eq_true i⟩
  obtain ⟨position, hposition⟩ := Option.isSome_iff_exists.mp hsome
  obtain ⟨hlt, hfound, -⟩ := List.findIdx?_eq_some_iff_getElem.mp hposition
  refine ⟨position, hposition, ?_, ?_⟩
  · rw [List.getElem?_eq_getElem hlt, eq_of_beq hfound]
  · rw [positions, hp]
    simp only [h.parent_lt i p hp, if_true, hposition, Option.getD_some]

private theorem at?_positions (h : t.Arranged root) {n : Node} (hn : t.node? i = some n) :
    root.at? (t.positions i) = some n := by
  induction i using Nat.strongRecOn generalizing n with
  | ind i ih =>
    have hi := lt_size_of_map_entries hn
    cases hp : t.parent? i with
    | none =>
      rw [positions, hp]
      rwa [(h.orphan i hi).mp hp, h.root_first] at hn
    | some p =>
      obtain ⟨position, -, hchild, hpositions⟩ := h.exists_position hp
      have hlt := h.parent_lt i p hp
      obtain ⟨m, hm⟩ := node?_isSome (hlt.trans hi)
      have hnode := congrArg (·[position]?) (h.children_nodes p m hm)
      simp only [List.getElem?_map, hchild, Option.map_some, hn] at hnode
      obtain ⟨c, hc, hcn⟩ := Option.map_eq_some_iff.mp hnode.symm
      cases hcn
      rw [hpositions, Node.at?_append, ih p hlt hm, Option.bind_some, Node.at?, hc]
      rfl

end Arranged

/-! ## The index of a tree -/

section Build

variable {root : Node} {i p : Nat} {address : List Nat} {o : Occurrence}

theorem node?_rank (ho : root.occurrence? rootId address = some o) :
    (build root).node? (root.rank address) = some o.node := by
  rw [node?, getElem?_entries_rank ho]
  rfl

theorem depth?_rank (ho : root.occurrence? rootId address = some o) :
    (build root).depth? (root.rank address) = some address.length := by
  rw [depth?, getElem?_entries_rank ho, Option.map_some]
  simp only [Node.entry, Node.address_of_occurrence? ho, Nat.zero_add]

theorem exists_address (hi : i < (build root).size) :
    ∃ address o, root.occurrence? rootId address = some o ∧ root.rank address = i := by
  obtain ⟨address, o, ho, hrank, -⟩ := getElem?_entries.mp (List.getElem?_eq_getElem hi)
  exact ⟨address, o, ho, hrank⟩

theorem parent?_eq_some_iff :
    (build root).parent? i = some p ↔
      ∃ address o, root.occurrence? rootId address = some o ∧ root.rank address = p ∧
        ∃ position c, o.node.children[position]? = some c ∧
          root.rank (address ++ [position]) = i := by
  constructor
  · intro h
    obtain ⟨address, o, ho, rfl⟩ := exists_address (lt_size_of_parent? h)
    cases address using List.reverseRecOn with
    | nil =>
      rw [parent?_rank_nil] at h
      cases h
    | append_singleton address position =>
      obtain ⟨parent, hparent, c, hc, -⟩ := Node.occurrence?_concat_eq_some.mp ho
      rw [parent?_rank_concat hparent hc] at h
      exact ⟨address, parent, hparent, Option.some.inj h, position, c, hc, rfl⟩
  · rintro ⟨address, o, ho, rfl, position, c, hc, rfl⟩
    exact parent?_rank_concat ho hc

private theorem mem_childrenOf_iff :
    i ∈ (build root).childrenOf p ↔ (build root).parent? i = some p := by
  rw [parent?_eq_some_iff]
  constructor
  · intro h
    obtain ⟨address, o, ho, rfl⟩ := exists_address (lt_size_of_mem_childrenOf h)
    rw [childrenOf_rank ho] at h
    obtain ⟨position, hposition, hrank⟩ := List.mem_map.mp h
    have hc := List.getElem?_eq_getElem (List.mem_range.mp hposition)
    exact ⟨address, o, ho, rfl, position, _, hc, hrank⟩
  · rintro ⟨address, o, ho, rfl, position, c, hc, rfl⟩
    rw [childrenOf_rank ho]
    exact List.mem_map_of_mem (List.mem_range.mpr (List.getElem?_eq_some_iff.mp hc).1)

private theorem nodup_childrenOf (root : Node) (p : Nat) : ((build root).childrenOf p).Nodup := by
  cases hchildren : (build root).childrenOf p with
  | nil => exact List.nodup_nil
  | cons i rest =>
    have hmem : i ∈ (build root).childrenOf p := hchildren ▸ List.mem_cons_self
    obtain ⟨address, o, ho, rfl⟩ := exists_address (lt_size_of_mem_childrenOf hmem)
    exact hchildren ▸ nodup_childrenOf_rank ho

private theorem map_node?_childrenOf {n : Node} (hn : (build root).node? i = some n) :
    ((build root).childrenOf i).map (build root).node? = n.children.map some := by
  obtain ⟨address, o, ho, rfl⟩ := exists_address (lt_size_of_map_entries hn)
  rw [node?_rank ho] at hn
  cases hn
  rw [childrenOf_rank ho, List.map_map]
  refine List.ext_getElem (by simp) fun position _ hposition => ?_
  rw [List.length_map] at hposition
  have hchild := Node.occurrence?_concat_eq_some.mpr
    ⟨o, ho, _, List.getElem?_eq_getElem hposition, rfl⟩
  simp [node?_rank hchild, Occurrence.child]

private theorem mem_ancestors_rank (ho : root.occurrence? rootId address = some o) :
    i ∈ (build root).ancestors (root.rank address) ↔
      ∃ a p, root.occurrence? rootId a = some p ∧ root.rank a = i ∧ a <+: address ∧
        a ≠ address := by
  induction address using List.reverseRecOn generalizing o with
  | nil =>
    rw [ancestors, parent?_rank_nil]
    refine iff_of_false List.not_mem_nil ?_
    rintro ⟨a, p, -, -, hprefix, hne⟩
    exact hne (List.prefix_nil.mp hprefix)
  | append_singleton address position ih =>
    obtain ⟨parent, hparent, c, hc, -⟩ := Node.occurrence?_concat_eq_some.mp ho
    rw [ancestors_rank_concat hparent hc, List.mem_cons, ih hparent]
    simp only [Node.prefix_concat_ne_iff]
    constructor
    · rintro (rfl | ⟨a, p, hp, hrank, hprefix, -⟩)
      · exact ⟨address, parent, hparent, rfl, List.prefix_rfl⟩
      · exact ⟨a, p, hp, hrank, hprefix⟩
    · rintro ⟨a, p, hp, hrank, hprefix⟩
      by_cases ha : a = address
      · exact .inl (ha ▸ hrank.symm)
      · exact .inr ⟨a, p, hp, hrank, hprefix, ha⟩

private theorem mem_ancestors_iff {n : Node} {j : Nat} (hn : (build root).node? i = some n)
    (hj : j < (build root).size) :
    i ∈ (build root).ancestors j ↔ i < j ∧ j < i + n.size := by
  obtain ⟨address, o, ho, rfl⟩ := exists_address (lt_size_of_map_entries hn)
  obtain ⟨other, q, hq, rfl⟩ := exists_address hj
  rw [node?_rank ho] at hn
  cases hn
  have hnode := Node.at?_of_occurrence? ho
  rw [mem_ancestors_rank hq]
  constructor
  · rintro ⟨a, p, hp, hrank, ⟨rest, rfl⟩, hne⟩
    rw [rank_inj hp ho hrank] at hne hq ⊢
    have hrest : o.node.at? rest = some q.node := by
      rw [← Node.at?_of_occurrence? hq, Node.at?_append, hnode, Option.bind_some]
    have hpos : 0 < o.node.rank rest := Node.rank_pos (by simpa using hne) o.node
    have hsize := Node.rank_lt_size hrest
    rw [Node.rank_append hnode]
    omega
  · rintro ⟨hlt, hsize⟩
    have hplace : root.rank other - root.rank address < o.node.size := by
      omega
    obtain ⟨rest, m, hm, hrank⟩ := Node.exists_rank_eq hplace
    have hat : root.at? (address ++ rest) = some m := by
      rw [Node.at?_append, hnode, Option.bind_some, hm]
    obtain ⟨r, hr, -⟩ := Node.exists_occurrence? hat rootId
    have hother : other = address ++ rest := by
      refine rank_inj hq hr ?_
      rw [Node.rank_append hnode, hrank]
      omega
    refine ⟨address, o, ho, rfl, hother ▸ List.prefix_append address rest, ?_⟩
    rintro rfl
    exact lt_irrefl _ hlt

private theorem arranged_build (root : Node) : (build root).Arranged root where
  root_first := node?_rank (rfl : root.occurrence? rootId [] = some (.top root rootId))
  depth_first := depth?_rank (rfl : root.occurrence? rootId [] = some (.top root rootId))
  orphan := by
    intro i hi
    constructor
    · intro h
      obtain ⟨address, o, ho, rfl⟩ := exists_address hi
      cases address using List.reverseRecOn with
      | nil => rfl
      | append_singleton address position =>
        obtain ⟨parent, hparent, c, hc, -⟩ := Node.occurrence?_concat_eq_some.mp ho
        rw [parent?_rank_concat hparent hc] at h
        cases h
    · rintro rfl
      exact parent?_rank_nil root
  parent_lt := by
    intro i p h
    obtain ⟨address, o, ho, rfl, position, c, hc, rfl⟩ := parent?_eq_some_iff.mp h
    exact rank_lt_rank_concat ho
  depth_succ := by
    intro i p h
    obtain ⟨address, o, ho, rfl, position, c, hc, rfl⟩ := parent?_eq_some_iff.mp h
    have hchild := Node.occurrence?_concat_eq_some.mpr ⟨o, ho, c, hc, rfl⟩
    refine ⟨address.length, depth?_rank ho, ?_⟩
    rw [depth?_rank hchild, List.length_append, List.length_singleton]
  count_children := by
    intro i p
    simp only [(nodup_childrenOf root p).count, mem_childrenOf_iff]
  children_nodes := fun _ _ => map_node?_childrenOf
  preorder := root.flatten_eq_map_entries.symm
  subtree := fun _ _ _ => mem_ancestors_iff

end Build

/-- What an index is and what it answers. The list that grows child by child is the one that is laid
out, and its entries are arranged as the nodes of the tree. From every entry the walk up ends at the
root, after as many steps as the entry is deep, and passes its ancestors. A child always has a
position under its parent, and the positions of an entry lead from the root down to its node. -/
theorem build_invariant (root : Node) :
    (build root).entries = root.push none rootId 0 [] ∧
      (build root).Arranged root ∧
      (∀ i d, (build root).depth? i = some d →
        (build root).Climbs i ((build root).ancestors i) ∧
          ((build root).ancestors i).length = d ∧
          (i :: (build root).ancestors i).getLast? = some 0) ∧
      (∀ i p, (build root).parent? i = some p →
        ∃ position, ((build root).childrenOf p).findIdx? (· == i) = some position ∧
          ((build root).childrenOf p)[position]? = some i ∧
          (build root).positions i = (build root).positions p ++ [position]) ∧
      ∀ i n, (build root).node? i = some n → root.at? ((build root).positions i) = some n := by
  have harranged := arranged_build root
  refine ⟨?_, harranged, fun i d hd => ?_, fun _ _ => harranged.exists_position,
    fun _ _ => harranged.at?_positions⟩
  · rw [Node.push_eq_append]
    rfl
  · have hi := lt_size_of_map_entries hd
    have hclimbs := harranged.climbs i
    rw [harranged.depth?_of_climbs hclimbs hi] at hd
    exact ⟨hclimbs, Option.some.inj hd, harranged.getLast?_of_climbs hclimbs hi⟩

end TreeIndex

end ScreenDoc
