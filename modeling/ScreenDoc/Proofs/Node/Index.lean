import ScreenDoc.Node.Index
import ScreenDoc.Proofs.Node.Ids

/-!
# What an index says

The entries of an index are the occurrences of its tree, in order, so that the number of a node is
the rank of its address. Parents and children of an entry are where the addresses say, and from
there every question to the index has its answer: who the ancestors are, which positions lead to a
node and which node has an id.
-/

namespace ScreenDoc

namespace Node

/-- What an index keeps of an occurrence in a tree whose root has this parent, depth and number. -/
def entry (n : Node) (parent : Option Nat) (depth handle : Nat) (o : Occurrence) : IndexEntry where
  node := o.node
  id := o.id
  parent := if o.address = [] then parent else some (handle + n.rank o.address.dropLast)
  depth := depth + o.address.length
  children :=
    (List.range o.node.children.length).map fun position =>
      handle + n.rank (o.address ++ [position])

/-! ## The layout of an index -/

/-- The children of a node with this id, depth and number, laid out behind it. -/
def childLayout (n : Node) (id : String) (depth handle : Nat) : ChildLayout :=
  n.children.zipIdx.foldl
    (fun layout child =>
      layout.add (child.1.indexEntries (some handle) (child.1.type.childId id child.2) (depth + 1)
        layout.next))
    ⟨handle + 1, [], []⟩

theorem indexEntries_eq_childLayout (n : Node) (parent : Option Nat) (id : String)
    (depth handle : Nat) :
    n.indexEntries parent id depth handle =
      ⟨n, id, parent, depth, (n.childLayout id depth handle).handles⟩ ::
        (n.childLayout id depth handle).entries := by
  rw [indexEntries, childLayout]
  conv_rhs => rw [← List.attach_map_subtype_val n.children, List.zipIdx_map, List.foldl_map]
  rfl

/-- Laying out some last children, when each takes as many numbers as its tree has nodes. -/
theorem foldl_add_layout {n : Node} {position : Nat} {rest : List Node}
    {f : Node × Nat → Nat → List IndexEntry} (handle : Nat)
    (hrest : n.children.drop position = rest)
    (hf : ∀ c ∈ rest, ∀ i next, (f (c, i) next).length = c.size) (handles : List Nat)
    (entries : List IndexEntry) :
    (rest.zipIdx position).foldl (fun layout child => ChildLayout.add layout (f child layout.next))
        (⟨handle + n.rank [position], handles, entries⟩ : ChildLayout) =
      ⟨handle + n.rank [position + rest.length],
        handles ++ (rest.zipIdx position).map fun child => handle + n.rank [child.2],
        entries ++ (rest.zipIdx position).flatMap fun child =>
          f child (handle + n.rank [child.2])⟩ := by
  induction rest generalizing position handles entries with
  | nil => simp
  | cons c rest ih =>
    obtain ⟨hc, hdrop⟩ := children_of_drop hrest
    have hnext : (ChildLayout.mk (handle + n.rank [position]) handles entries).add
          (f (c, position) (handle + n.rank [position])) =
        ⟨handle + n.rank [position + 1], handles ++ [handle + n.rank [position]],
          entries ++ f (c, position) (handle + n.rank [position])⟩ := by
      rw [ChildLayout.add, hf c List.mem_cons_self, rank_succ hc, Nat.add_assoc]
    rw [List.zipIdx_cons, List.foldl_cons, hnext,
      ih hdrop fun d hd => hf d (List.mem_cons_of_mem c hd)]
    simp [Nat.add_assoc, Nat.add_comm 1]

/-- The entry of a node comes before the entries of its children, which are numbered by rank. -/
theorem indexEntries_eq_of_length {n : Node}
    (hlength : ∀ c ∈ n.children, ∀ parent id depth handle,
      (c.indexEntries parent id depth handle).length = c.size)
    (parent : Option Nat) (id : String) (depth handle : Nat) :
    n.indexEntries parent id depth handle =
      n.entry parent depth handle (.top n id) ::
        n.children.zipIdx.flatMap fun child =>
          child.1.indexEntries (some handle) (child.1.type.childId id child.2) (depth + 1)
            (handle + n.rank [child.2]) := by
  have hfirst : handle + n.rank [0] = handle + 1 := by
    rw [rank_singleton, List.take_zero, List.map_nil, List.sum_nil, Nat.add_zero]
  have hlayout := foldl_add_layout handle (List.drop_zero (l := n.children))
    (f := fun child next => child.1.indexEntries (some handle)
      (child.1.type.childId id child.2) (depth + 1) next)
    (fun c hc i next => hlength c hc _ _ _ next) [] []
  have hhandles : (n.children.zipIdx.map fun child => handle + n.rank [child.2]) =
      (List.range n.children.length).map fun position => handle + n.rank [position] := by
    rw [List.range_eq_range', ← List.zipIdx_map_snd, List.map_map]
    rfl
  rw [hfirst, List.nil_append, List.nil_append, hhandles] at hlayout
  rw [indexEntries_eq_childLayout, childLayout, hlayout]
  rfl

private theorem length_indexEntries (n : Node) (parent : Option Nat) (id : String)
    (depth handle : Nat) : (n.indexEntries parent id depth handle).length = n.size := by
  induction n using Node.induction generalizing parent id depth handle with
  | node n ih =>
    rw [indexEntries_eq_of_length ih, List.length_cons, List.length_flatMap, size_eq,
      Nat.add_comm 1]
    congr 2
    conv_rhs => rw [← List.zipIdx_map_fst 0 n.children, List.map_map]
    refine List.map_congr_left fun child hchild => ?_
    exact ih child.1 (List.fst_mem_of_mem_zipIdx hchild) _ _ _ _

/-- An entry below a child says the same of its place in the whole tree. -/
theorem entry_under {n c : Node} {position : Nat} (hc : n.children[position]? = some c)
    (parent : Option Nat) (id : String) (depth handle : Nat) (o : Occurrence) :
    c.entry (some handle) (depth + 1) (handle + n.rank [position]) o =
      n.entry parent depth handle (o.under position id) := by
  have hrank (rest : List Nat) :
      handle + n.rank [position] + c.rank rest = handle + n.rank (position :: rest) := by
    rw [rank_cons hc rest, Nat.add_assoc]
  have hparent : (if o.address = [] then some handle
        else some (handle + n.rank (position :: o.address.dropLast))) =
      some (handle + n.rank (position :: o.address).dropLast) := by
    cases o.address with
    | nil => rfl
    | cons first rest => exact if_neg (List.cons_ne_nil first rest)
  have hdepth : depth + 1 + o.address.length = depth + (o.address.length + 1) := by
    omega
  simp only [entry, Occurrence.under, hrank, hparent, hdepth, List.length_cons, List.cons_append,
    reduceCtorEq, if_false]

private theorem indexEntries_eq_map (n : Node) (parent : Option Nat) (id : String)
    (depth handle : Nat) : n.indexEntries parent id depth handle =
      (n.occurrences id).map (n.entry parent depth handle) := by
  induction n using Node.induction generalizing parent id depth handle with
  | node n ih =>
    rw [indexEntries_eq_of_length fun c _ => c.length_indexEntries, occurrences_eq, List.map_cons,
      List.map_flatMap]
    congr 1
    refine List.flatMap_congr fun child hchild => ?_
    have hc := List.mem_zipIdx_iff_getElem?.mp hchild
    rw [ih child.1 (List.mem_of_getElem? hc), List.map_map]
    exact List.map_congr_left fun o _ => entry_under hc parent id depth handle o

end Node

namespace TreeIndex

open Node (rootId)

variable {root : Node} {handle : Nat} {o : Occurrence}

theorem entries_build (root : Node) :
    (build root).entries = (root.occurrences rootId).map (root.entry none 0 0) :=
  root.indexEntries_eq_map none rootId 0 0

theorem getElem?_entries_rank {address : List Nat}
    (h : root.occurrence? rootId address = some o) :
    (build root).entries[root.rank address]? = some (root.entry none 0 0 o) := by
  rw [entries_build, List.getElem?_map, Node.getElem?_rank h, Option.map_some]

theorem getElem?_entries {entry : IndexEntry} :
    (build root).entries[handle]? = some entry ↔
      ∃ address o, root.occurrence? rootId address = some o ∧ root.rank address = handle ∧
        root.entry none 0 0 o = entry := by
  rw [entries_build, List.getElem?_map, Option.map_eq_some_iff]
  constructor
  · rintro ⟨o, ho, rfl⟩
    obtain ⟨hmem, hrank⟩ := Node.getElem?_occurrences.mp ho
    exact ⟨o.address, o, Node.mem_occurrences.mp hmem, hrank, rfl⟩
  · rintro ⟨address, o, ho, rfl, rfl⟩
    exact ⟨o, Node.getElem?_rank ho, rfl⟩

theorem getElem?_entries_id {id : String} :
    (build root).entries[handle]?.map IndexEntry.id = some id ↔
      ∃ address o, root.occurrence? rootId address = some o ∧ root.rank address = handle ∧
        o.id = id := by
  simp only [Option.map_eq_some_iff, getElem?_entries]
  constructor
  · rintro ⟨entry, ⟨address, o, ho, hrank, rfl⟩, rfl⟩
    exact ⟨address, o, ho, hrank, rfl⟩
  · rintro ⟨address, o, ho, hrank, rfl⟩
    exact ⟨_, ⟨address, o, ho, hrank, rfl⟩, rfl⟩

/-! ## Looking for an id -/

theorem findIdx?_eq_some_iff_of_nodup {α β : Type} [BEq β] [LawfulBEq β] {l : List α} {key : α → β}
    (hl : (l.map key).Nodup) {k : β} {i : Nat} :
    l.findIdx? (fun a => key a == k) = some i ↔ l[i]?.map key = some k := by
  rw [List.findIdx?_eq_some_iff_getElem]
  constructor
  · rintro ⟨hi, hkey, -⟩
    rw [List.getElem?_eq_getElem hi, Option.map_some, eq_of_beq hkey]
  · intro h
    obtain ⟨a, ha, hkey⟩ := Option.map_eq_some_iff.mp h
    obtain ⟨hi, rfl⟩ := List.getElem?_eq_some_iff.mp ha
    refine ⟨hi, beq_iff_eq.mpr hkey, fun j hj hkeyj => ?_⟩
    have hlt : j < (l.map key).length := by
      rw [List.length_map]
      omega
    have hsame : (l.map key)[j]? = (l.map key)[i]? := by
      rw [List.getElem?_map, List.getElem?_map, List.getElem?_eq_getElem hi,
        List.getElem?_eq_getElem (hj.trans hi), Option.map_some, Option.map_some, hkey,
        eq_of_beq hkeyj]
    have hplace := (List.getElem?_inj hlt hl).mp hsame
    omega

theorem nodup_map_id_entries (root : Node) : ((build root).entries.map IndexEntry.id).Nodup := by
  rw [entries_build, List.map_map]
  exact root.nodup_map_id_occurrences

theorem find?_eq_some_iff {id : String} :
    (build root).find? id = some handle ↔
      (build root).entries[handle]?.map IndexEntry.id = some id :=
  findIdx?_eq_some_iff_of_nodup (nodup_map_id_entries root)

theorem find?_eq_some_iff_rank {id : String} :
    (build root).find? id = some handle ↔
      ∃ address o, root.occurrence? rootId address = some o ∧ root.rank address = handle ∧
        o.id = id :=
  find?_eq_some_iff.trans getElem?_entries_id

/-! ## Ancestors and positions -/

theorem parent?_rank_nil (root : Node) : (build root).parent? (root.rank []) = none := by
  rw [parent?, getElem?_entries_rank (o := .top root rootId) rfl]
  rfl

section Child

variable {address : List Nat} {position : Nat} {c : Node}

theorem parent?_rank_concat (ho : root.occurrence? rootId address = some o)
    (hc : o.node.children[position]? = some c) :
    (build root).parent? (root.rank (address ++ [position])) = some (root.rank address) := by
  have hchild := Node.occurrence?_concat_eq_some.mpr ⟨o, ho, c, hc, rfl⟩
  rw [parent?, getElem?_entries_rank hchild, Option.bind_some, Node.entry,
    Node.address_of_occurrence? hchild, if_neg (by simp), List.dropLast_concat, Nat.zero_add]

theorem rank_lt_rank_concat (ho : root.occurrence? rootId address = some o) :
    root.rank address < root.rank (address ++ [position]) := by
  have hpos : 0 < o.node.rank [position] := Node.rank_pos (List.cons_ne_nil position []) o.node
  rw [Node.rank_append (Node.at?_of_occurrence? ho)]
  omega

theorem ancestors_rank_concat (ho : root.occurrence? rootId address = some o)
    (hc : o.node.children[position]? = some c) :
    (build root).ancestors (root.rank (address ++ [position])) =
      root.rank address :: (build root).ancestors (root.rank address) := by
  rw [ancestors, parent?_rank_concat ho hc]
  exact if_pos (rank_lt_rank_concat ho)

theorem childrenOf_rank (ho : root.occurrence? rootId address = some o) :
    (build root).childrenOf (root.rank address) =
      (List.range o.node.children.length).map fun position =>
        root.rank (address ++ [position]) := by
  rw [childrenOf, getElem?_entries_rank ho, Option.map_some, Option.getD_some, Node.entry,
    Node.address_of_occurrence? ho]
  simp only [Nat.zero_add]

theorem rank_inj {other : List Nat} {p : Occurrence}
    (ho : root.occurrence? rootId address = some o) (hp : root.occurrence? rootId other = some p)
    (h : root.rank address = root.rank other) : address = other := by
  have hsame := Node.getElem?_rank ho
  rw [h, Node.getElem?_rank hp] at hsame
  rw [← Node.address_of_occurrence? ho, ← Option.some.inj hsame, Node.address_of_occurrence? hp]

theorem nodup_childrenOf_rank (ho : root.occurrence? rootId address = some o) :
    ((build root).childrenOf (root.rank address)).Nodup := by
  rw [childrenOf_rank ho]
  refine List.Nodup.map_on (fun i hi j hj h => ?_) List.nodup_range
  have hchild (k : Nat) (hk : k ∈ List.range o.node.children.length) :=
    Node.occurrence?_concat_eq_some.mpr
      ⟨o, ho, _, List.getElem?_eq_getElem (List.mem_range.mp hk), rfl⟩
  simpa using rank_inj (hchild i hi) (hchild j hj) h

private theorem findIdx?_childrenOf (ho : root.occurrence? rootId address = some o)
    (hc : o.node.children[position]? = some c) :
    ((build root).childrenOf (root.rank address)).findIdx?
        (· == root.rank (address ++ [position])) = some position := by
  have hlt : position < o.node.children.length := (List.getElem?_eq_some_iff.mp hc).1
  have hnodup : (((build root).childrenOf (root.rank address)).map id).Nodup := by
    rw [List.map_id]
    exact nodup_childrenOf_rank ho
  apply (findIdx?_eq_some_iff_of_nodup hnodup).mpr
  rw [childrenOf_rank ho]
  simp [hlt]

private theorem positions_rank_concat (ho : root.occurrence? rootId address = some o)
    (hc : o.node.children[position]? = some c) :
    (build root).positions (root.rank (address ++ [position])) =
      (build root).positions (root.rank address) ++ [position] := by
  rw [positions, parent?_rank_concat ho hc]
  simp only [rank_lt_rank_concat ho, if_true, findIdx?_childrenOf ho hc, Option.getD_some]

end Child

theorem ancestorIds_rank {address : List Nat} (ho : root.occurrence? rootId address = some o) :
    (build root).ancestorIds (root.rank address) = o.above := by
  induction address using List.reverseRecOn generalizing o with
  | nil =>
    cases ho
    rw [ancestorIds, ancestors, parent?_rank_nil]
    rfl
  | append_singleton address position ih =>
    obtain ⟨parent, hparent, c, hc, rfl⟩ := Node.occurrence?_concat_eq_some.mp ho
    have hid : (build root).entries[root.rank address]?.map IndexEntry.id = some parent.id :=
      getElem?_entries_id.mpr ⟨address, parent, hparent, rfl, rfl⟩
    have hstep : (build root).ancestorIds (root.rank (address ++ [position])) =
        parent.id :: (build root).ancestorIds (root.rank address) := by
      simp only [ancestorIds, ancestors_rank_concat hparent hc, List.filterMap_cons, hid]
    rw [hstep, ih hparent]
    rfl

theorem isAncestorExpanded_rank {address : List Nat}
    (ho : root.occurrence? rootId address = some o) (collapsed : List String) :
    (build root).isAncestorExpanded collapsed (root.rank address) = o.isVisible collapsed := by
  rw [isAncestorExpanded, ancestorIds_rank ho, Occurrence.isVisible]

theorem positions_rank {address : List Nat} (ho : root.occurrence? rootId address = some o) :
    (build root).positions (root.rank address) = address := by
  induction address using List.reverseRecOn generalizing o with
  | nil =>
    rw [positions, parent?_rank_nil]
  | append_singleton address position ih =>
    obtain ⟨parent, hparent, c, hc, rfl⟩ := Node.occurrence?_concat_eq_some.mp ho
    rw [positions_rank_concat hparent hc, ih hparent]

end TreeIndex

theorem Node.address?_eq_some_iff {root : Node} {id : String} {address : List Nat} :
    root.address? id = some address ↔
      ∃ o, root.occurrence? rootId address = some o ∧ o.id = id := by
  rw [address?, Option.map_eq_some_iff]
  simp only [TreeIndex.find?_eq_some_iff_rank]
  constructor
  · rintro ⟨handle, ⟨other, o, ho, rfl, rfl⟩, hpositions⟩
    rw [TreeIndex.positions_rank ho] at hpositions
    subst hpositions
    exact ⟨o, ho, rfl⟩
  · rintro ⟨o, ho, rfl⟩
    exact ⟨root.rank address, ⟨address, o, ho, rfl, rfl⟩, TreeIndex.positions_rank ho⟩

/-- Ids name nodes: no two entries of an index have the same id, and looking for an id answers
with the number of the entry that has it, and with no other. -/
theorem TreeIndex.id_unique (root : Node) :
    ((build root).entries.map IndexEntry.id).Nodup ∧
      ∀ (id : String) (handle : Nat),
        (build root).find? id = some handle ↔
          (build root).entries[handle]?.map IndexEntry.id = some id :=
  ⟨nodup_map_id_entries root, fun _ _ => find?_eq_some_iff⟩

end ScreenDoc
