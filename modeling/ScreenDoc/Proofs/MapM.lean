/-!
# Lists read item by item

A list is read if every item is. Readers that agree on the items agree on the list, two passes over
a list are one, and the order of the items is the order of the results.
-/

namespace ScreenDoc

variable {α β γ : Type}

theorem mapM_map_congr {f : β → Option γ} {g : α → β} {k : α → Option γ} {l : List α}
    (h : ∀ a ∈ l, f (g a) = k a) : (l.map g).mapM f = l.mapM k := by
  induction l with
  | nil => rfl
  | cons a l ih =>
    obtain ⟨ha, hl⟩ := List.forall_mem_cons.mp h
    rw [List.map_cons, List.mapM_cons, List.mapM_cons, ha, ih hl]

theorem mapM_map_eq_some {f : β → Option α} {g : α → β} {l : List α}
    (h : ∀ a ∈ l, f (g a) = some a) : (l.map g).mapM f = some l := by
  rw [mapM_map_congr h]
  exact List.mapM_pure.trans (congrArg some (List.map_id' l))

theorem exists_mapM_eq_some {f : α → Option β} {l : List α} (h : ∀ a ∈ l, (f a).isSome) :
    ∃ results, l.mapM f = some results := by
  induction l with
  | nil => exact ⟨[], rfl⟩
  | cons a l ih =>
    obtain ⟨ha, hl⟩ := List.forall_mem_cons.mp h
    obtain ⟨b, hb⟩ := Option.isSome_iff_exists.mp ha
    obtain ⟨results, hresults⟩ := ih hl
    exact ⟨b :: results, by simp [hb, hresults]⟩

theorem mapM_mono {f g : α → Option β} {l : List α} {results : List β}
    (h : l.mapM f = some results) (hfg : ∀ a ∈ l, ∀ b, f a = some b → g a = some b) :
    l.mapM g = some results := by
  induction l generalizing results with
  | nil => exact h
  | cons a l ih =>
    obtain ⟨ha, hl⟩ := List.forall_mem_cons.mp hfg
    simp only [List.mapM_cons, Option.bind_eq_bind, Option.bind_eq_some_iff] at h ⊢
    obtain ⟨b, hb, rest, hrest, heq⟩ := h
    exact ⟨b, ha b hb, rest, ih hrest hl, heq⟩

theorem mapM_mapM (f : α → Option β) (g : β → Option γ) (l : List α) :
    ((l.mapM f).bind fun results => results.mapM g) = l.mapM fun a => (f a).bind g := by
  induction l with
  | nil => rfl
  | cons a l ih =>
    simp only [List.mapM_cons, Option.bind_eq_bind, ← ih]
    cases f a with
    | none => rfl
    | some b => cases l.mapM f <;> cases g b <;> simp

theorem mapM_perm {f : α → Option β} {l m : List α} (h : l.Perm m) :
    (l.mapM f = none ∧ m.mapM f = none)
      ∨ ∃ r s, l.mapM f = some r ∧ m.mapM f = some s ∧ r.Perm s := by
  induction h with
  | nil => exact .inr ⟨[], [], rfl, rfl, .nil⟩
  | cons a _ ih =>
    simp only [List.mapM_cons, Option.bind_eq_bind]
    cases f a with
    | none => exact .inl ⟨rfl, rfl⟩
    | some b =>
      rcases ih with ⟨hl, hm⟩ | ⟨r, s, hl, hm, hperm⟩
      · exact .inl ⟨by simp [hl], by simp [hm]⟩
      · exact .inr ⟨b :: r, b :: s, by simp [hl], by simp [hm], hperm.cons b⟩
  | swap a b l =>
    simp only [List.mapM_cons, Option.bind_eq_bind]
    cases f a <;> cases f b <;> cases l.mapM f <;> simp [List.Perm.swap]
  | trans _ _ ih ih' =>
    rcases ih with ⟨hl, hm⟩ | ⟨r, s, hl, hm, hrs⟩
    · rcases ih' with ⟨_, hn⟩ | ⟨s, t, hm', hn, hst⟩
      · exact .inl ⟨hl, hn⟩
      · rw [hm] at hm'
        cases hm'
    · rcases ih' with ⟨hm', hn⟩ | ⟨s', t, hm', hn, hst⟩
      · rw [hm] at hm'
        cases hm'
      · rw [hm] at hm'
        cases hm'
        exact .inr ⟨r, t, hl, hn, hrs.trans hst⟩

end ScreenDoc
