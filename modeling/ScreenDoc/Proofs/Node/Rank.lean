import Mathlib.Algebra.Ring.Nat
import ScreenDoc.Proofs.Node.Occurrence

/-!
# Ranks

The rank of an address is the number of nodes that a tree lists before the one it leads to. Ranks go
through `0, 1, 2, ...` along the list of occurrences, so that a place in the list and an address
determine each other; the rank below an address is counted from the rank of the address.
-/

namespace ScreenDoc

namespace Node

def size (n : Node) : Nat :=
  1 + (n.children.attach.map fun ⟨c, _⟩ => c.size).sum
termination_by sizeOf n
decreasing_by exact sizeOf_child_lt ‹_›

theorem size_eq (n : Node) : n.size = 1 + (n.children.map size).sum := by
  rw [size]
  conv_rhs => rw [← List.attach_map_subtype_val n.children, List.map_map]
  rfl

/-- The number of nodes before the one at an address; past the children of a node it counts all of
them. -/
def rank (n : Node) : List Nat → Nat
  | [] => 0
  | position :: rest =>
    1 + ((n.children.take position).map size).sum + n.children[position]?.elim 0 (·.rank rest)

theorem rank_singleton (n : Node) (position : Nat) :
    n.rank [position] = 1 + ((n.children.take position).map size).sum := by
  rw [rank]
  cases n.children[position]? <;> rfl

theorem rank_cons {n c : Node} {position : Nat} (hc : n.children[position]? = some c)
    (rest : List Nat) : n.rank (position :: rest) = n.rank [position] + c.rank rest := by
  rw [rank_singleton, rank, hc, Option.elim_some]

theorem rank_append {n m : Node} {address : List Nat} (hm : n.at? address = some m)
    (rest : List Nat) : n.rank (address ++ rest) = n.rank address + m.rank rest := by
  induction address generalizing n with
  | nil =>
    cases hm
    rw [List.nil_append, rank, Nat.zero_add]
  | cons position inner ih =>
    obtain ⟨c, hc, hm⟩ := at?_cons_eq_some.mp hm
    rw [List.cons_append, rank_cons hc (inner ++ rest), rank_cons hc inner, ih hm, Nat.add_assoc]

theorem rank_pos {address : List Nat} (h : address ≠ []) (n : Node) : 0 < n.rank address := by
  cases address with
  | nil => exact absurd rfl h
  | cons position rest =>
    rw [rank]
    omega

theorem rank_succ {n c : Node} {position : Nat} (hc : n.children[position]? = some c) :
    n.rank [position + 1] = n.rank [position] + c.size := by
  have htake : n.children.take (position + 1) = n.children.take position ++ [c] := by
    rw [List.take_add_one, hc, Option.toList_some]
  rw [rank_singleton, rank_singleton, htake, List.map_append, List.sum_append, List.map_singleton,
    List.sum_singleton, Nat.add_assoc]

theorem children_of_drop {n c : Node} {position : Nat} {rest : List Node}
    (h : n.children.drop position = c :: rest) :
    n.children[position]? = some c ∧ n.children.drop (position + 1) = rest := by
  rw [← List.head?_drop, ← List.tail_drop, h]
  exact ⟨rfl, rfl⟩

private theorem flatMap_range'_rank {n : Node} {position : Nat} {rest : List Node}
    (hrest : n.children.drop position = rest) :
    ((rest.zipIdx position).flatMap fun child => List.range' (n.rank [child.2]) child.1.size) =
      List.range' (n.rank [position]) (rest.map size).sum := by
  induction rest generalizing position with
  | nil => rfl
  | cons c rest ih =>
    obtain ⟨hc, hdrop⟩ := children_of_drop hrest
    rw [List.zipIdx_cons, List.flatMap_cons, ih hdrop, rank_succ hc, List.map_cons, List.sum_cons,
      List.range'_append_1]

/-- The ranks of all that occurs in a tree, in order, are the numbers below its size. -/
theorem map_rank_occurrences (n : Node) (id : String) :
    (n.occurrences id).map (fun o => n.rank o.address) = List.range n.size := by
  induction n using Node.induction generalizing id with
  | node n ih =>
    have hchild : ∀ child ∈ n.children.zipIdx,
        ((child.1.occurrences (child.1.type.childId id child.2)).map (·.under child.2 id)).map
            (fun o => n.rank o.address) =
          List.range' (n.rank [child.2]) child.1.size := by
      intro child hchild
      have hc := List.mem_zipIdx_iff_getElem?.mp hchild
      calc
        _ = ((child.1.occurrences (child.1.type.childId id child.2)).map
              fun o => child.1.rank o.address).map (n.rank [child.2] + ·) := by
          rw [List.map_map, List.map_map]
          exact List.map_congr_left fun o _ => rank_cons hc o.address
        _ = (List.range child.1.size).map (n.rank [child.2] + ·) := by
          rw [ih child.1 (List.mem_of_getElem? hc)]
        _ = _ := by rw [List.range'_eq_map_range]
    rw [occurrences_eq, List.map_cons, List.map_flatMap, List.flatMap_congr hchild,
      flatMap_range'_rank (List.drop_zero), size_eq, List.range_eq_range', Nat.add_comm 1,
      List.range'_succ]
    rw [rank_singleton]
    rfl

theorem rank_lt_size {n m : Node} {address : List Nat} (h : n.at? address = some m) :
    n.rank address < n.size := by
  obtain ⟨o, ho, -⟩ := exists_occurrence? h rootId
  have haddress := address_of_occurrence? ho
  subst haddress
  rw [← List.mem_range, ← n.map_rank_occurrences rootId]
  exact List.mem_map_of_mem (mem_occurrences.mpr ho)

theorem exists_rank_eq {n : Node} {place : Nat} (h : place < n.size) :
    ∃ address m, n.at? address = some m ∧ n.rank address = place := by
  rw [← List.mem_range, ← n.map_rank_occurrences rootId] at h
  obtain ⟨o, ho, hrank⟩ := List.mem_map.mp h
  exact ⟨o.address, o.node, at?_of_occurrence? (mem_occurrences.mp ho), hrank⟩

theorem getElem?_occurrences {n : Node} {id : String} {place : Nat} {o : Occurrence} :
    (n.occurrences id)[place]? = some o ↔ o ∈ n.occurrences id ∧ n.rank o.address = place := by
  have hrank {i : Nat} (hi : (n.occurrences id)[i]? = some o) : n.rank o.address = i := by
    have h := congrArg (·[i]?) (n.map_rank_occurrences id)
    simp only [List.getElem?_map, hi, Option.map_some] at h
    obtain ⟨hlt, heq⟩ := List.getElem?_eq_some_iff.mp h.symm
    rw [← heq, List.getElem_range]
  constructor
  · intro h
    exact ⟨List.mem_of_getElem? h, hrank h⟩
  · rintro ⟨hmem, rfl⟩
    obtain ⟨i, hi⟩ := List.mem_iff_getElem?.mp hmem
    rwa [hrank hi]

theorem getElem?_rank {n : Node} {id : String} {address : List Nat} {o : Occurrence}
    (h : n.occurrence? id address = some o) : (n.occurrences id)[n.rank address]? = some o := by
  have haddress := address_of_occurrence? h
  subst haddress
  exact getElem?_occurrences.mpr ⟨mem_occurrences.mpr h, rfl⟩

end Node

end ScreenDoc
