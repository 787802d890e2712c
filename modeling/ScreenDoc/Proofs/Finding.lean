import Mathlib.Data.List.Induction
import Mathlib.Data.List.Nodup
import ScreenDoc.Finding

/-!
# Findings without repeats

`Finding.distinct` keeps the first finding of each path and code. The keys that occur stay the
same, none occurs twice, and a list without repeated keys is left alone. Every finding of the
library is an error or a warning about an unrecognized field, so that the severity of a finding
follows from its code.
-/

namespace ScreenDoc.Finding

/-- What two findings must share to count as one. -/
def key (f : Finding) : String × ErrorCode :=
  (f.path, f.code)

/-- All that a finding says but its message. -/
def verdict (f : Finding) : String × ErrorCode × Severity :=
  (f.path, f.code, f.severity)

/-- An error; its code is never the one of an unrecognized field. -/
def IsError (f : Finding) : Prop :=
  f.severity = .error ∧ f.code ≠ .unrecognizedProperties

def IsUnrecognized (f : Finding) : Prop :=
  f.severity = .warning ∧ f.code = .unrecognizedProperties

private theorem repeats_iff {f g : Finding} : f.repeats g = true ↔ g.key = f.key := by
  simp only [repeats, key, Bool.and_eq_true, beq_iff_eq, Prod.mk.injEq]
  exact and_congr eq_comm eq_comm

private theorem any_repeats_iff {f : Finding} {kept : List Finding} :
    kept.any f.repeats = true ↔ f.key ∈ kept.map key := by
  simp [List.any_eq_true, repeats_iff]

@[simp] theorem distinct_nil : distinct [] = [] := rfl

theorem distinct_concat (fs : List Finding) (f : Finding) :
    distinct (fs ++ [f]) =
      if f.key ∈ (distinct fs).map key then distinct fs else distinct fs ++ [f] := by
  have hstep : distinct (fs ++ [f]) =
      if (distinct fs).any f.repeats then distinct fs else distinct fs ++ [f] := by
    rw [distinct, List.foldl_append]
    rfl
  rw [hstep]
  exact if_congr any_repeats_iff rfl rfl

theorem mem_of_mem_distinct {fs : List Finding} {f : Finding} (h : f ∈ distinct fs) : f ∈ fs := by
  induction fs using List.reverseRecOn with
  | nil => exact h
  | append_singleton fs g ih =>
    rw [distinct_concat] at h
    split at h
    · exact List.mem_append_left _ (ih h)
    · rcases List.mem_append.mp h with h | h
      · exact List.mem_append_left _ (ih h)
      · exact List.mem_append_right _ h

theorem mem_map_key_distinct {fs : List Finding} {k : String × ErrorCode} :
    k ∈ (distinct fs).map key ↔ k ∈ fs.map key := by
  induction fs using List.reverseRecOn with
  | nil => rfl
  | append_singleton fs g ih =>
    rw [distinct_concat, List.map_append, List.mem_append, ← ih]
    split
    · rename_i hseen
      refine ⟨Or.inl, ?_⟩
      rintro (hk | hk)
      · exact hk
      · rwa [List.mem_singleton.mp hk]
    · rw [List.map_append, List.mem_append]

theorem nodup_map_key_distinct (fs : List Finding) : ((distinct fs).map key).Nodup := by
  induction fs using List.reverseRecOn with
  | nil => exact List.nodup_nil
  | append_singleton fs g ih =>
    rw [distinct_concat]
    split
    · exact ih
    · rename_i hnew
      rw [List.map_append]
      exact List.Nodup.append ih (List.nodup_singleton _) (by simpa using hnew)

theorem distinct_of_nodup {fs : List Finding} (h : (fs.map key).Nodup) : distinct fs = fs := by
  induction fs using List.reverseRecOn with
  | nil => rfl
  | append_singleton fs g ih =>
    rw [List.map_append, List.nodup_append'] at h
    obtain ⟨hfs, -, hdisjoint⟩ := h
    have hnew : g.key ∉ fs.map key := fun hmem => hdisjoint hmem (List.mem_singleton_self _)
    rw [distinct_concat, ih hfs, if_neg hnew]

/-- Findings that come behind others are dropped or stay in their order, and change nothing before
them. -/
theorem exists_distinct_append (fs gs : List Finding) :
    ∃ further, distinct (fs ++ gs) = distinct fs ++ further ∧ further.Sublist gs := by
  induction gs using List.reverseRecOn with
  | nil => exact ⟨[], by simp, List.Sublist.refl _⟩
  | append_singleton gs g ih =>
    obtain ⟨further, heq, hsublist⟩ := ih
    rw [← List.append_assoc, distinct_concat]
    split
    · exact ⟨further, heq, hsublist.trans (List.sublist_append_left gs [g])⟩
    · refine ⟨further ++ [g], ?_, hsublist.append (List.Sublist.refl _)⟩
      rw [heq, List.append_assoc]

/-! ## Errors and warnings -/

theorem isError_of_mem {path message : String} {code : ErrorCode} {f : Finding}
    (hf : f ∈ [error path code message]) (hcode : code ≠ .unrecognizedProperties) :
    f.IsError := by
  rw [List.mem_singleton.mp hf]
  exact ⟨rfl, hcode⟩

theorem mem_map_verdict_iff {fs : List Finding} (h : ∀ f ∈ fs, f.IsError) {path : String}
    {code : ErrorCode} {severity : Severity} :
    (path, code, severity) ∈ fs.map verdict ↔ severity = .error ∧ (path, code) ∈ fs.map key := by
  constructor
  · intro hmem
    obtain ⟨f, hf, heq⟩ := List.mem_map.mp hmem
    cases heq
    exact ⟨(h f hf).1, List.mem_map_of_mem hf⟩
  · rintro ⟨rfl, hmem⟩
    obtain ⟨f, hf, heq⟩ := List.mem_map.mp hmem
    cases heq
    exact List.mem_map.mpr ⟨f, hf, by rw [verdict, (h f hf).1]⟩

theorem isUnrecognized_warning (path message : String) :
    (warning path .unrecognizedProperties message).IsUnrecognized :=
  ⟨rfl, rfl⟩

theorem isClean_iff_verdict {fs : List Finding} :
    isClean fs = true ↔ ∀ v, v ∉ fs.map verdict := by
  rw [isClean, List.isEmpty_iff, ← List.map_eq_nil_iff, List.eq_nil_iff_forall_not_mem]

theorem isValid_iff {fs : List Finding} :
    isValid fs = true ↔ ∀ f ∈ fs, f.severity ≠ .error := by
  simp [isValid]

theorem isValid_eq_isClean {fs : List Finding} (h : ∀ f ∈ fs, f.IsError) :
    isValid fs = isClean fs := by
  cases fs with
  | nil => rfl
  | cons f fs => simp [isValid, isClean, (h f List.mem_cons_self).1]

theorem isValid_append_of_isUnrecognized {fs gs : List Finding} (h : ∀ g ∈ gs, g.IsUnrecognized) :
    isValid (fs ++ gs) = isValid fs := by
  rw [Bool.eq_iff_iff, isValid_iff, isValid_iff, List.forall_mem_append, and_iff_left_iff_imp]
  intro _ g hg
  rw [(h g hg).1]
  decide

theorem warnings_eq_nil {fs : List Finding} (h : ∀ f ∈ fs, f.IsError) : warnings fs = [] := by
  refine List.filter_eq_nil_iff.mpr fun f hf => ?_
  rw [(h f hf).1]
  decide

/-- No error hides behind a warning with its key: if the kept findings hold no error, there was
none. -/
theorem not_isError_of_isValid_distinct {fs : List Finding} {f : Finding}
    (hgraded : ∀ g ∈ fs, g.IsError ∨ g.IsUnrecognized) (hvalid : isValid (distinct fs) = true)
    (hf : f ∈ fs) : ¬ f.IsError := by
  intro herror
  have hkey : f.key ∈ (distinct fs).map key :=
    mem_map_key_distinct.mpr (List.mem_map_of_mem hf)
  obtain ⟨g, hg, hgf⟩ := List.mem_map.mp hkey
  have hcode : g.code = f.code := congrArg Prod.snd hgf
  rcases hgraded g (mem_of_mem_distinct hg) with hg' | hg'
  · exact isValid_iff.mp hvalid g hg hg'.1
  · exact herror.2 (hcode ▸ hg'.2)

end ScreenDoc.Finding
