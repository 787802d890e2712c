import ScreenDoc.Proofs.Node.Index

/-!
# Looking up ids

An id leads to the one node that has it, and to the address of that node. An update of an id is
applied just when a node has the id; it replaces what stands at the address.
-/

namespace ScreenDoc

open Node (rootId)

namespace TreeIndex

def nodeWithId? (t : TreeIndex) (id : String) : Option Node :=
  (t.find? id).bind t.node?

theorem nodeWithId?_eq_some_iff {root : Node} {id : String} {n : Node} :
    (build root).nodeWithId? id = some n ↔
      ∃ address o, root.occurrence? rootId address = some o ∧ o.id = id ∧ o.node = n := by
  rw [nodeWithId?, Option.bind_eq_some_iff]
  simp only [find?_eq_some_iff_rank]
  constructor
  · rintro ⟨handle, ⟨address, o, ho, rfl, rfl⟩, hnode⟩
    rw [node?, getElem?_entries_rank ho] at hnode
    exact ⟨address, o, ho, rfl, Option.some.inj hnode⟩
  · rintro ⟨address, o, ho, rfl, rfl⟩
    refine ⟨root.rank address, ⟨address, o, ho, rfl, rfl⟩, ?_⟩
    rw [node?, getElem?_entries_rank ho]
    rfl

theorem nodeWithId?_of_occurrence? {root : Node} {address : List Nat} {o : Occurrence}
    (ho : root.occurrence? rootId address = some o) :
    (build root).nodeWithId? o.id = some o.node :=
  nodeWithId?_eq_some_iff.mpr ⟨address, o, ho, rfl, rfl⟩

theorem nodeWithId?_childId {root c : Node} {address : List Nat} {o : Occurrence} {position : Nat}
    (ho : root.occurrence? rootId address = some o)
    (hc : o.node.children[position]? = some c) :
    (build root).nodeWithId? (c.type.childId o.id position) = some c :=
  nodeWithId?_of_occurrence? (Node.occurrence?_concat_eq_some.mpr ⟨o, ho, c, hc, rfl⟩)

end TreeIndex

namespace Node

def HasId (root : Node) (id : String) : Prop :=
  id ∈ (TreeIndex.build root).entries.map IndexEntry.id

instance (root : Node) (id : String) : Decidable (root.HasId id) :=
  inferInstanceAs (Decidable (id ∈ (TreeIndex.build root).entries.map IndexEntry.id))

theorem hasId_iff {root : Node} {id : String} :
    root.HasId id ↔ ∃ address o, root.occurrence? rootId address = some o ∧ o.id = id := by
  rw [HasId, TreeIndex.entries_build, List.map_map, List.mem_map]
  constructor
  · rintro ⟨o, ho, rfl⟩
    exact ⟨o.address, o, mem_occurrences.mp ho, rfl⟩
  · rintro ⟨address, o, ho, rfl⟩
    have haddress := address_of_occurrence? ho
    subst haddress
    exact ⟨o, mem_occurrences.mpr ho, rfl⟩

theorem isSome_find?_iff {root : Node} {id : String} :
    ((TreeIndex.build root).find? id).isSome = true ↔ root.HasId id := by
  rw [Option.isSome_iff_exists, hasId_iff]
  simp only [TreeIndex.find?_eq_some_iff_rank]
  constructor
  · rintro ⟨handle, address, o, ho, -, hid⟩
    exact ⟨address, o, ho, hid⟩
  · rintro ⟨address, o, ho, hid⟩
    exact ⟨root.rank address, address, o, ho, rfl, hid⟩

theorem nodeWithId?_eq_none_iff {root : Node} {id : String} :
    (TreeIndex.build root).nodeWithId? id = none ↔ ¬root.HasId id := by
  rw [Option.eq_none_iff_forall_ne_some, hasId_iff]
  simp only [ne_eq, TreeIndex.nodeWithId?_eq_some_iff]
  constructor
  · rintro hnone ⟨address, o, ho, hid⟩
    exact hnone o.node ⟨address, o, ho, hid, rfl⟩
  · rintro hnone n ⟨address, o, ho, hid, -⟩
    exact hnone ⟨address, o, ho, hid⟩

theorem hasId_of_nodeWithId? {root n : Node} {id : String}
    (h : (TreeIndex.build root).nodeWithId? id = some n) : root.HasId id := by
  obtain ⟨address, o, ho, hid, -⟩ := TreeIndex.nodeWithId?_eq_some_iff.mp h
  exact hasId_iff.mpr ⟨address, o, ho, hid⟩

theorem update_eq_applied_iff {root r t : Node} {id : String} :
    root.update id r = .applied t ↔
      ∃ address o, root.occurrence? rootId address = some o ∧ o.id = id ∧
        root.replaceAt? address r = some t := by
  rw [update]
  split
  · rename_i hnone
    refine iff_of_false (by simp) ?_
    rintro ⟨address, o, ho, hid, -⟩
    have hsome := address?_eq_some_iff.mpr ⟨o, ho, hid⟩
    rw [hnone] at hsome
    cases hsome
  · rename_i address haddress
    obtain ⟨o, ho, hid⟩ := address?_eq_some_iff.mp haddress
    have hunique {other : List Nat} {p : Occurrence} (hp : root.occurrence? rootId other = some p)
        (hpid : p.id = id) : other = address := by
      have hother := address?_eq_some_iff.mpr ⟨p, hp, hpid⟩
      rw [haddress] at hother
      exact (Option.some.inj hother).symm
    constructor
    · intro h
      split at h
      · rename_i tree htree
        cases h
        exact ⟨address, o, ho, hid, htree⟩
      · cases h
    · rintro ⟨other, p, hp, hpid, ht⟩
      rw [hunique hp hpid] at ht
      rw [ht]

theorem exists_update {root : Node} {id : String} (h : root.HasId id) (r : Node) :
    ∃ t, root.update id r = .applied t := by
  obtain ⟨address, o, ho, hid⟩ := hasId_iff.mp h
  obtain ⟨t, ht⟩ := exists_replaceAt? (at?_of_occurrence? ho) r
  exact ⟨t, update_eq_applied_iff.mpr ⟨address, o, ho, hid, ht⟩⟩

theorem update_of_not_hasId {root : Node} {id : String} (h : ¬root.HasId id) (r : Node) :
    root.update id r = .notFound root := by
  have hnone : root.address? id = none := by
    refine Option.eq_none_iff_forall_ne_some.mpr fun address haddress => h ?_
    obtain ⟨o, ho, hid⟩ := address?_eq_some_iff.mp haddress
    exact hasId_iff.mpr ⟨address, o, ho, hid⟩
  rw [update, hnone]

end Node

end ScreenDoc
