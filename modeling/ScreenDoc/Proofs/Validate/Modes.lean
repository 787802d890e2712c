import ScreenDoc.Proofs.Validate.Soundness

/-!
# Strict and lenient validation

Strict validation runs the lenient checks first and then looks for unrecognized fields. What it
finds is therefore what lenient validation finds, in the same order, with warnings behind it, and
both give the same verdict on a text.
-/

namespace ScreenDoc

namespace Json

private theorem checkDecoded_strict (j : Json) :
    ∃ warnings, j.checkDecoded true = j.checkDecoded false ++ warnings ∧
      ∀ f ∈ warnings, f.IsUnrecognized := by
  cases hnode : Node.ofJson? false j.rootValue with
  | none =>
    exact ⟨[], by rw [checkDecoded_of_none hnode, checkDecoded_of_none hnode, List.append_nil],
      List.forall_mem_nil _⟩
  | some node =>
    refine ⟨(if j.isDocument then j.unknownInDocument else [])
      ++ j.rootValue.unknownInTree .root, ?_, ?_⟩
    · simp [checkDecoded_of_some hnode]
    · intro f hf
      rw [List.mem_append, List.mem_ite_nil_right] at hf
      rcases hf with ⟨-, hf⟩ | hf
      · exact unknownInDocument_isUnrecognized f hf
      · exact unknownInTree_isUnrecognized _ _ f hf

private theorem checkDecoded_isError (j : Json) : ∀ f ∈ j.checkDecoded false, f.IsError := by
  intro f hf
  cases hnode : Node.ofJson? false j.rootValue with
  | none =>
    rw [checkDecoded_of_none hnode] at hf
    rcases List.mem_append.mp hf with hf | hf
    · exact checkLeaves_isError _ _ f hf
    · exact Finding.isError_of_mem hf (by decide)
  | some node =>
    rw [checkDecoded_of_some hnode] at hf
    simp only [List.mem_append, List.mem_ite_nil_right] at hf
    rcases hf with hf | (⟨-, hf⟩ | hf) | ⟨hstrict, -⟩
    · exact checkLeaves_isError _ _ f hf
    · exact checkSections_isError f hf
    · exact Node.check_isError _ _ f hf
    · cases hstrict

private theorem validate_strict (j : Json) :
    ∃ further, j.validate true = j.validate false ++ further ∧
      ∀ f ∈ further, f.IsUnrecognized := by
  have hnothing (found : List Finding) : ∃ further, found = found ++ further ∧
      ∀ f ∈ further, f.IsUnrecognized := ⟨[], (List.append_nil _).symm, List.forall_mem_nil _⟩
  unfold validate
  split
  · exact hnothing _
  · dsimp only
    split
    · obtain ⟨warnings, heq, hwarnings⟩ := j.checkDecoded_strict
      obtain ⟨further, hfurther, hsublist⟩ :=
        Finding.exists_distinct_append (j.checkDecoded false) warnings
      rw [heq]
      exact ⟨further, hfurther, fun f hf => hwarnings f (hsublist.subset hf)⟩
    · exact hnothing _

private theorem validate_lenient_isError (j : Json) : ∀ f ∈ j.validate false, f.IsError := by
  intro f hf
  unfold validate at hf
  split at hf
  · exact Finding.isError_of_mem hf (by decide)
  · have hmem := Finding.mem_of_mem_distinct hf
    split at hmem
    · exact j.checkDecoded_isError f hmem
    · exact checkTags_isError _ _ f hmem

private theorem nodup_map_key_validate (j : Json) (strict : Bool) :
    ((j.validate strict).map Finding.key).Nodup := by
  unfold validate
  split
  · exact List.nodup_singleton _
  · exact Finding.nodup_map_key_distinct _

end Json

namespace Payload

/-- Strict validation of a text finds what lenient validation finds and, behind it, warnings about
unrecognized fields. Lenient validation warns of nothing, in neither list two findings share path
and code, both lists give the same verdict, and a text is valid for lenient validation if and only
if nothing is found in it. -/
theorem validate_strict_extends (text : String) :
    (∃ further, validate true text = validate false text ++ further ∧
      ∀ f ∈ further, f.severity = .warning ∧ f.code = .unrecognizedProperties) ∧
    Finding.warnings (validate false text) = [] ∧
    (∀ strict, ((validate strict text).map fun f => (f.path, f.code)).Nodup) ∧
    Finding.isValid (validate true text) = Finding.isValid (validate false text) ∧
    Finding.isValid (validate false text) = Finding.isClean (validate false text) := by
  have hextends : ∃ further, validate true text = validate false text ++ further ∧
      ∀ f ∈ further, f.IsUnrecognized := by
    unfold validate
    split
    · exact ⟨[], (List.append_nil _).symm, List.forall_mem_nil _⟩
    · exact Json.validate_strict _
  have herrors : ∀ f ∈ validate false text, f.IsError := by
    unfold validate
    split
    · exact List.forall_mem_singleton.mpr (DecodeError.isError_finding _)
    · exact Json.validate_lenient_isError _
  have hnodup (strict : Bool) : ((validate strict text).map Finding.key).Nodup := by
    unfold validate
    split
    · exact List.nodup_singleton _
    · exact Json.nodup_map_key_validate _ strict
  obtain ⟨further, heq, hfurther⟩ := hextends
  refine ⟨⟨further, heq, hfurther⟩, Finding.warnings_eq_nil herrors, hnodup, ?_,
    Finding.isValid_eq_isClean herrors⟩
  rw [heq, Finding.isValid_append_of_isUnrecognized hfurther]

end Payload

end ScreenDoc
