import ScreenDoc.Proofs.Json.Canonical

/-!
# Values with their fields in another order

Two values are reorderings of each other if one becomes the other by moving fields within their
objects, at any depth. Where no object repeats a key, both have the same canonical value.
-/

namespace ScreenDoc

private theorem KeyMap.nodup_keys_perm {α : Type} {m n : KeyMap α} (h : m.Perm n) :
    m.keys.Nodup ↔ n.keys.Nodup :=
  (h.map Prod.fst).nodup_iff

private theorem KeyMap.mapValues_perm {α β : Type} (f : α → β) {m n : KeyMap α} (h : m.Perm n) :
    (mapValues f m).Perm (mapValues f n) :=
  h.map _

namespace Json

/-- The second value is the first one with the fields of some objects in another order. -/
inductive Reordered : Json → Json → Prop where
  | refl (j : Json) : Reordered j j
  | trans {a b c : Json} (hab : Reordered a b) (hbc : Reordered b c) : Reordered a c
  | fields {fs gs : List (String × Json)} (h : fs.Perm gs) : Reordered (object fs) (object gs)
  | item (before after : List Json) {a b : Json} (h : Reordered a b) :
    Reordered (array (before ++ a :: after)) (array (before ++ b :: after))
  | value (before after : List (String × Json)) (key : String) {a b : Json} (h : Reordered a b) :
    Reordered (object (before ++ (key, a) :: after)) (object (before ++ (key, b) :: after))

theorem Reordered.distinct {a b : Json} (h : a.Reordered b) (ha : a.Distinct) : b.Distinct := by
  induction h with
  | refl j => exact ha
  | trans _ _ ihab ihbc => exact ihbc (ihab ha)
  | fields hperm =>
    exact .object ((KeyMap.nodup_keys_perm hperm).mp ha.nodup) fun field hfield =>
      ha.fields field (hperm.mem_iff.mpr hfield)
  | item before after _ ih =>
    have hitems := ha.items
    simp only [List.forall_mem_append, List.forall_mem_cons] at hitems
    obtain ⟨hbefore, hitem, hafter⟩ := hitems
    refine .array ?_
    simp only [List.forall_mem_append, List.forall_mem_cons]
    exact ⟨hbefore, ih hitem, hafter⟩
  | value before after key _ ih =>
    have hfields := ha.fields
    simp only [List.forall_mem_append, List.forall_mem_cons] at hfields
    obtain ⟨hbefore, hvalue, hafter⟩ := hfields
    refine .object (by simpa using ha.nodup) ?_
    simp only [List.forall_mem_append, List.forall_mem_cons]
    exact ⟨hbefore, ih hvalue, hafter⟩

theorem Reordered.canonical_eq {a b : Json} (h : a.Reordered b) (ha : a.Distinct) :
    a.canonical = b.canonical := by
  induction h with
  | refl j => rfl
  | trans hab _ ihab ihbc => rw [ihab ha, ihbc (hab.distinct ha)]
  | fields hperm =>
    have hvalues := KeyMap.mapValues_perm canonical hperm
    rw [canonical_object, canonical_object,
      KeyMap.ofList_perm hvalues (by simpa using ha.nodup)]
  | item before after _ ih =>
    have hitem := ih (ha.items _ (by simp))
    simp [hitem]
  | value before after key _ ih =>
    have hvalue := ih (ha.fields (key, _) (by simp))
    simp [KeyMap.mapValues, hvalue]

end Json

end ScreenDoc
