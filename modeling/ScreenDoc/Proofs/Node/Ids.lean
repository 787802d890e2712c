import Mathlib.Data.List.Nodup
import Mathlib.Data.String.Basic
import ScreenDoc.Proofs.Node.Rank

/-!
# Ids name places

The id of a child can be read back from its end: the position behind the last separator, the type
behind the one before, and the id of the parent before that. No child has the id of the root, so
the id of a node determines the address at which it stands, and no id occurs twice in a tree.
-/

namespace ScreenDoc

namespace Text

theorem append_cons_inj_of_not_mem {α : Type} {a b x y : List α} {c : α} (hx : c ∉ x) (hy : c ∉ y)
    (h : a ++ c :: x = b ++ c :: y) : a = b ∧ x = y := by
  rcases List.append_eq_append_iff.mp h with ⟨m, hb, ha⟩ | ⟨m, ha, hb⟩
  · cases m with
    | nil => exact ⟨by simpa using hb.symm, by simpa using ha⟩
    | cons d m =>
      obtain ⟨-, htail⟩ := List.cons.inj ha
      exact absurd (htail ▸ List.mem_append_right _ List.mem_cons_self) hx
  · cases m with
    | nil => exact ⟨by simpa using ha, by simpa using hb.symm⟩
    | cons d m =>
      obtain ⟨-, htail⟩ := List.cons.inj hb
      exact absurd (htail ▸ List.mem_append_right _ List.mem_cons_self) hy

theorem not_mem_toDigits {c : Char} (hc : c.isDigit = false) (n : Nat) :
    c ∉ Nat.toDigits 10 n := by
  intro hmem
  rw [Nat.isDigit_of_mem_toDigits (by decide) (by decide) hmem] at hc
  cases hc

theorem toDigits_injective {m n : Nat} (h : Nat.toDigits 10 m = Nat.toDigits 10 n) : m = n := by
  rw [← Nat.ofDigitChars_ten_toDigits (n := m), h, Nat.ofDigitChars_ten_toDigits]

end Text

namespace NodeType

private theorem name_injective {s t : NodeType} (h : s.name = t.name) : s = t := by
  cases s <;> cases t <;> first | rfl | simp [name] at h

theorem not_mem_name (t : NodeType) : '_' ∉ t.name.toList := by
  cases t <;> decide

theorem toList_childId (t : NodeType) (parentId : String) (position : Nat) :
    (t.childId parentId position).toList =
      (parentId.toList ++ '_' :: t.name.toList) ++ '_' :: Nat.toDigits 10 (position + 1) := by
  simp [childId]

private theorem childId_injective {s t : NodeType} {a b : String} {i j : Nat}
    (h : s.childId a i = t.childId b j) : a = b ∧ s = t ∧ i = j := by
  have hlist := congrArg String.toList h
  rw [toList_childId, toList_childId] at hlist
  have hdigits : ∀ n, '_' ∉ Nat.toDigits 10 n := Text.not_mem_toDigits (by decide)
  have hnumber := Text.append_cons_inj_of_not_mem (hdigits _) (hdigits _) hlist
  have hname := Text.append_cons_inj_of_not_mem s.not_mem_name t.not_mem_name hnumber.1
  have hposition := Text.toDigits_injective hnumber.2
  refine ⟨String.toList_injective hname.1, name_injective (String.toList_injective hname.2), ?_⟩
  omega

/-- Positions in ids are counted from one, and the root's id ends in a zero. -/
theorem childId_ne_rootId (t : NodeType) (parentId : String) (position : Nat) :
    t.childId parentId position ≠ Node.rootId := by
  intro h
  have hlist := congrArg String.toList h
  have hroot : Node.rootId.toList = "root".toList ++ '_' :: Nat.toDigits 10 0 := by decide
  rw [toList_childId, hroot] at hlist
  have hdigits : ∀ n, '_' ∉ Nat.toDigits 10 n := Text.not_mem_toDigits (by decide)
  have hnumber := Text.append_cons_inj_of_not_mem (hdigits _) (hdigits _) hlist
  have hposition := Text.toDigits_injective hnumber.2
  omega

end NodeType

namespace Node

private theorem address_inj {root : Node} {a b : List Nat} {o p : Occurrence}
    (ho : root.occurrence? rootId a = some o) (hp : root.occurrence? rootId b = some p)
    (h : o.id = p.id) : a = b := by
  induction a using List.reverseRecOn generalizing b o p with
  | nil =>
    cases ho
    cases b using List.reverseRecOn with
    | nil => rfl
    | append_singleton b j =>
      obtain ⟨parent, -, c, -, rfl⟩ := occurrence?_concat_eq_some.mp hp
      exact absurd h.symm (NodeType.childId_ne_rootId _ _ _)
  | append_singleton a i ih =>
    obtain ⟨parent, hparent, c, -, rfl⟩ := occurrence?_concat_eq_some.mp ho
    cases b using List.reverseRecOn with
    | nil =>
      cases hp
      exact absurd h (NodeType.childId_ne_rootId _ _ _)
    | append_singleton b j =>
      obtain ⟨parent', hparent', c', -, rfl⟩ := occurrence?_concat_eq_some.mp hp
      obtain ⟨hid, -, hposition⟩ := NodeType.childId_injective h
      rw [ih hparent hparent' hid, hposition]

theorem occurrence_inj {root : Node} {o p : Occurrence} (ho : o ∈ root.occurrences rootId)
    (hp : p ∈ root.occurrences rootId) (h : o.id = p.id) : o = p := by
  rw [mem_occurrences] at ho hp
  rw [address_inj ho hp h, hp] at ho
  exact (Option.some.inj ho).symm

private theorem nodup_occurrences (n : Node) (id : String) : (n.occurrences id).Nodup := by
  apply List.Nodup.of_map fun o => n.rank o.address
  rw [map_rank_occurrences]
  exact List.nodup_range

theorem nodup_map_id_occurrences (root : Node) :
    ((root.occurrences rootId).map Occurrence.id).Nodup :=
  List.Nodup.map_on (fun _ ho _ hp h => occurrence_inj ho hp h) (root.nodup_occurrences rootId)

end Node

end ScreenDoc
