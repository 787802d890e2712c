import ScreenDoc.Proofs.Validate.Written
import ScreenDoc.Proofs.Wire.RoundTrip

/-!
# Texts of nodes are judged as the nodes are

Validation of the text of a node finds what validation of the node finds, strict or not. The walks
over the value of the text add at most what the rules on nodes say of leaves, so that nothing is
new once repeats are dropped.
-/

namespace ScreenDoc

namespace Node

/-- The findings of the text of a node: its leaves are checked twice, and there is nothing else. -/
theorem validate_written {n : Node} (h : n.Finite) (strict : Bool) :
    n.toJson.canonical.validate strict =
      Finding.distinct (n.toJson.canonical.checkLeaves .root ++ n.check .root) := by
  have hrootless : n.toJson.canonical.isRootlessDocument = false := by
    simp [Json.isRootlessDocument, field?_written, get?_type]
  have hroot : n.toJson.canonical.rootValue = n.toJson.canonical := by
    rw [Json.rootValue, isDocument_written, if_neg (by simp)]
  have hnode : ofJson? false n.toJson.canonical = some n := by
    rw [ofJson?_canonical n.distinct_toJson, ofJson?_toJson h]
  have hdecoded : n.toJson.canonical.checkDecoded strict =
      n.toJson.canonical.checkLeaves .root ++ n.check .root := by
    simp [Json.checkDecoded, hroot, hnode, isDocument_written, unknownInTree_written]
  rw [Json.validate, hrootless, hroot, checkTags_written, hdecoded]
  rfl

private theorem mem_map_key_validate_written {n : Node} (h : n.Finite) (strict : Bool)
    {k : String × ErrorCode} :
    k ∈ (n.toJson.canonical.validate strict).map Finding.key ↔ k ∈ n.validate.map Finding.key := by
  rw [validate_written h, validate, Finding.mem_map_key_distinct, Finding.mem_map_key_distinct,
    List.map_append, List.mem_append, or_iff_right_iff_imp]
  intro hk
  obtain ⟨f, hf, rfl⟩ := List.mem_map.mp hk
  exact n.key_checkLeaves_written .root f hf

end Node

namespace Payload

theorem validate_encode_eq {n : Node} (h : n.Encodable) (strict : Bool) :
    validate strict n.encode = n.toJson.canonical.validate strict := by
  have hvalue := Json.ofText_text h.readsBack h.depth
  have hguard : DecodeError.guard n.encode Json.ofText = .ok n.toJson.canonical := by
    rw [Node.encode]
    rw [n.toJson_eq_object] at hvalue ⊢
    exact DecodeError.guard_text (toOption_eq_some.mpr hvalue)
  rw [validate, hguard]

/-- The text of a node and the node itself have the same findings up to messages: path, code and
severity of a finding of the one are those of a finding of the other. None is a warning, and the
text is clean if and only if the node is. -/
theorem validate_encode {n : Node} (h : n.Encodable) (strict : Bool) :
    (∀ v, v ∈ (validate strict n.encode).map Finding.verdict ↔
      v ∈ n.validate.map Finding.verdict) ∧
    (∀ f ∈ validate strict n.encode, f.severity = .error) ∧
    Finding.isClean (validate strict n.encode) = Finding.isClean n.validate := by
  have htext : ∀ f ∈ validate strict n.encode, f.IsError := by
    intro f hf
    rw [validate_encode_eq h, Node.validate_written h.finite] at hf
    rcases List.mem_append.mp (Finding.mem_of_mem_distinct hf) with hf | hf
    · exact Json.checkLeaves_isError _ _ f hf
    · exact n.check_isError .root f hf
  have hnode : ∀ f ∈ n.validate, f.IsError := fun f hf =>
    n.check_isError .root f (Finding.mem_of_mem_distinct hf)
  have hverdict : ∀ v, v ∈ (validate strict n.encode).map Finding.verdict ↔
      v ∈ n.validate.map Finding.verdict := by
    rintro ⟨path, code, severity⟩
    rw [Finding.mem_map_verdict_iff htext, Finding.mem_map_verdict_iff hnode,
      validate_encode_eq h, Node.mem_map_key_validate_written h.finite]
  refine ⟨hverdict, fun f hf => (htext f hf).1, ?_⟩
  rw [Bool.eq_iff_iff, Finding.isClean_iff_verdict, Finding.isClean_iff_verdict]
  exact forall_congr' fun v => not_congr (hverdict v)

end Payload

/-- A leaf with a child, a payload of another type and a color that is none. -/
def Node.misfit : Node where
  type := .text
  properties := some (.column { children := [.plainText "a"] })
  modifier := ⟨[.backgroundColor "red"]⟩

theorem Node.numbers_misfit : misfit.toJson.numbers = [] := by
  decide +kernel

private theorem Node.encodable_misfit : misfit.Encodable where
  finite := by
    refine .node (List.forall_mem_singleton.mpr rfl) fun c hc => ?_
    obtain rfl := List.mem_singleton.mp hc
    exact .node (List.forall_mem_nil _) (List.forall_mem_nil _)
  inRange := by simp [numbers_misfit]
  floats := by simp [numbers_misfit]
  depth := by decide +kernel

/-- Three rules are broken, and the text of the node is found to break the same ones. -/
theorem Payload.validate_encode_misfit :
    Node.misfit.validate.length = 3 ∧
      ∀ v, v ∈ (validate true Node.misfit.encode).map Finding.verdict ↔
        v ∈ Node.misfit.validate.map Finding.verdict :=
  ⟨by decide +kernel, (validate_encode Node.encodable_misfit true).1⟩

end ScreenDoc
