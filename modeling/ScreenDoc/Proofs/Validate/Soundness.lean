import ScreenDoc.Proofs.Except
import ScreenDoc.Proofs.Json.Record
import ScreenDoc.Proofs.Validate.Walk
import ScreenDoc.Proofs.Wire.Action

/-!
# What validation lets through decodes

Validation judges the tags, the root and the sections of a document one after another, while
decoding takes the whole value at once. The two meet in the parts: a value without repeated keys
whose root decodes and whose sections have nothing wrong is a document.
-/

namespace ScreenDoc

/-! ## Values of texts -/

theorem Json.sorted_of_ofText {text : String} {j : Json} (h : Json.ofText text = .ok j) :
    j.Sorted := by
  unfold Json.ofText at h
  cases hread : Draft.readText (Draft.value Draft.roomAtTop) text with
  | error failure =>
    rw [hread] at h
    cases h
  | ok raw =>
    rw [hread] at h
    cases h
    exact sorted_canonical raw

theorem DecodeError.isError_finding (e : DecodeError) : e.finding.IsError := by
  cases e with
  | empty => exact ⟨rfl, by decide⟩
  | malformed failure => exact ⟨rfl, by simp [finding, Finding.error, code]⟩

/-! ## Sections of a document -/

namespace Json

private theorem initialState_of_checkSections {fields : List (String × Json)}
    (h : (object fields).checkSections = []) :
    ∃ state, KeyMap.defaulted fields "initialState" ∅ map? = some state := by
  have hstate := (List.append_eq_nil_iff.mp h).1
  unfold KeyMap.defaulted
  rw [field?] at hstate
  split at hstate
  · rename_i hget
    exact ⟨∅, by rw [hget]⟩
  · rename_i state hget
    exact ⟨.ofFields state, by rw [hget]; rfl⟩
  · cases hstate

private theorem actions_of_checkSections {fields : List (String × Json)}
    (h : (object fields).checkSections = []) :
    ∃ actions, KeyMap.defaulted fields "actions" ∅ Document.actionsOfJson? = some actions := by
  have hactions := (List.append_eq_nil_iff.mp h).2
  unfold KeyMap.defaulted
  rw [field?] at hactions
  split at hactions
  · rename_i hget
    exact ⟨∅, by rw [hget]⟩
  · rename_i scripts hget
    have hscript : ∀ script ∈ scripts,
        (script.2.list? (Action.ofJson? false)).isSome := by
      intro script hmem
      obtain ⟨name, script⟩ := script
      have hnil := List.flatMap_eq_nil_iff.mp hactions (name, script) hmem
      by_contra hnone
      simp only [if_neg hnone] at hnil
      cases hnil
    obtain ⟨entries, hentries⟩ := exists_mapM_eq_some (l := scripts)
      (f := fun script => (script.2.list? (Action.ofJson? false)).map fun actions =>
        (script.1, actions)) (by simpa using hscript)
    exact ⟨.ofList entries, by
      rw [hget]
      simp only [Document.actionsOfJson?_object, hentries, Option.map_some]⟩
  · cases hactions

private theorem document_of_checkSections {fields : List (String × Json)} {root : Json}
    {node : Node}
    (hkeys : (KeyMap.keys fields).Nodup) (hsections : (object fields).checkSections = [])
    (hroot : KeyMap.get? fields "root" = some root) (hnode : Node.ofJson? false root = some node) :
    ∃ d, Document.ofJson? (object fields) = some d ∧ d.root = node := by
  obtain ⟨state, hstate⟩ := initialState_of_checkSections hsections
  obtain ⟨actions, hactions⟩ := actions_of_checkSections hsections
  refine ⟨⟨state, actions, node⟩, ?_, rfl⟩
  unfold KeyMap.defaulted at hstate hactions
  unfold Document.ofJson? KeyMap.defaulted KeyMap.required
  rw [record?_of_nodup hkeys]
  simp only [Option.bind_eq_bind, Option.bind_some]
  rw [get?_known (by decide), get?_known (by decide), get?_known (by decide), hstate, hactions,
    hroot]
  simp [hnode]

/-! ## Values without errors -/

theorem checkDecoded_of_none {strict : Bool} {j : Json}
    (h : Node.ofJson? false j.rootValue = none) :
    j.checkDecoded strict = j.rootValue.checkLeaves .root
      ++ [.error ((j.rootValue.blame? .root).getD .root).text .malformedJson
        ("node does not decode: " ++ Failure.mismatch.reason)] := by
  simp only [checkDecoded, h]

theorem checkDecoded_of_some {strict : Bool} {j : Json} {node : Node}
    (h : Node.ofJson? false j.rootValue = some node) :
    j.checkDecoded strict = j.rootValue.checkLeaves .root
      ++ ((if j.isDocument then j.checkSections else []) ++ node.check .root
        ++ (if strict then
            (if j.isDocument then j.unknownInDocument else []) ++ j.rootValue.unknownInTree .root
          else [])) := by
  simp only [checkDecoded, h]

private theorem checkDecoded_graded {strict : Bool} {j : Json} :
    ∀ f ∈ j.checkDecoded strict, f.IsError ∨ f.IsUnrecognized := by
  intro f hf
  cases hnode : Node.ofJson? false j.rootValue with
  | none =>
    rw [checkDecoded_of_none hnode] at hf
    rcases List.mem_append.mp hf with hf | hf
    · exact .inl (checkLeaves_isError _ _ f hf)
    · exact .inl (Finding.isError_of_mem hf (by decide))
  | some node =>
    rw [checkDecoded_of_some hnode] at hf
    simp only [List.mem_append, List.mem_ite_nil_right] at hf
    rcases hf with hf | (⟨-, hf⟩ | hf) | ⟨-, ⟨-, hf⟩ | hf⟩
    · exact .inl (checkLeaves_isError _ _ f hf)
    · exact .inl (checkSections_isError f hf)
    · exact .inl (Node.check_isError _ _ f hf)
    · exact .inr (unknownInDocument_isUnrecognized f hf)
    · exact .inr (unknownInTree_isUnrecognized _ _ f hf)

/-- A value in which no check finds an error. -/
structure Passes (j : Json) : Prop where
  rooted : j.isRootlessDocument = false
  tags : j.rootValue.checkTags .root = []
  leaves : j.rootValue.checkLeaves .root = []
  root : ∃ node, Node.ofJson? false j.rootValue = some node ∧ node.check .root = []
  sections : j.isDocument = true → j.checkSections = []

/-- Where no error is found, no check has found one: the kept findings hide none. -/
theorem passes_of_isValid {strict : Bool} {j : Json}
    (h : Finding.isValid (j.validate strict) = true) : j.Passes := by
  unfold validate at h
  split at h
  · cases h
  rename_i hrooted
  have htags : j.rootValue.checkTags .root = [] := by
    -- Unknown tags end validation, and every one of them is an error.
    by_contra hne
    obtain ⟨f, hf⟩ := List.exists_mem_of_ne_nil _ hne
    have herrors := checkTags_isError j.rootValue .root
    simp only [List.isEmpty_eq_false_iff.mpr hne] at h
    exact Finding.not_isError_of_isValid_distinct (fun g hg => .inl (herrors g hg)) h hf
      (herrors f hf)
  simp only [htags, List.isEmpty_nil, if_true] at h
  have hclean : ∀ f ∈ j.checkDecoded strict, ¬ f.IsError := fun f hf =>
    Finding.not_isError_of_isValid_distinct checkDecoded_graded h hf
  have hnil {found : List Finding} (herrors : ∀ f ∈ found, f.IsError)
      (hsub : found ⊆ j.checkDecoded strict) : found = [] :=
    List.eq_nil_iff_forall_not_mem.mpr fun f hf => hclean f (hsub hf) (herrors f hf)
  cases hnode : Node.ofJson? false j.rootValue with
  | none =>
    rw [checkDecoded_of_none hnode] at hclean
    exact absurd (Finding.isError_of_mem List.mem_cons_self (by decide))
      (hclean _ (List.mem_append_right _ List.mem_cons_self))
  | some node =>
    rw [checkDecoded_of_some hnode] at hnil
    refine ⟨by simpa using hrooted, htags, hnil (checkLeaves_isError _ _) fun f hf => ?_,
      ⟨node, hnode, hnil (Node.check_isError node .root) fun f hf => ?_⟩, fun hdocument =>
      hnil (fun f hf => checkSections_isError f hf) fun f hf => ?_⟩
    · exact List.mem_append_left _ hf
    · exact List.mem_append_right _ (List.mem_append_left _ (List.mem_append_right _ hf))
    · rw [if_pos hdocument]
      exact List.mem_append_right _ (List.mem_append_left _ (List.mem_append_left _ hf))

theorem Passes.validate_eq {j : Json} (h : j.Passes) (strict : Bool) :
    j.validate strict = Finding.distinct (if strict then
      (if j.isDocument then j.unknownInDocument else []) ++ j.rootValue.unknownInTree .root
      else []) := by
  obtain ⟨node, hnode, hcheck⟩ := h.root
  have hsections : (if j.isDocument then j.checkSections else []) = [] := by
    split
    · rename_i hdocument
      exact h.sections hdocument
    · rfl
  rw [validate, h.rooted, if_neg (by simp), h.tags]
  simp only [List.isEmpty_nil, if_true]
  rw [checkDecoded_of_some hnode, h.leaves, hcheck, hsections]
  rfl

theorem payload_of_isValid {strict : Bool} {j : Json} (hsorted : j.Sorted)
    (h : Finding.isValid (j.validate strict) = true) :
    ∃ p, Payload.ofJson? j = some p ∧ p.root.validate = [] := by
  have hpasses := passes_of_isValid h
  obtain ⟨node, hnode, hcheck⟩ := hpasses.root
  have hclean : node.validate = [] := by
    rw [Node.validate, hcheck, Finding.distinct_nil]
  by_cases hdocument : j.isDocument = true
  · cases j with
    | object fields =>
      have hroot : (KeyMap.get? fields "root").isSome := (Bool.and_eq_true _ _ ▸ hdocument).1
      obtain ⟨root, hroot⟩ := Option.isSome_iff_exists.mp hroot
      have hvalue : (object fields).rootValue = root := by
        rw [rootValue, if_pos hdocument, field?, hroot]
        rfl
      rw [hvalue] at hnode
      obtain ⟨d, hd, hdroot⟩ := document_of_checkSections (sorted_object.mp hsorted).1.nodup
        (hpasses.sections hdocument) hroot hnode
      refine ⟨.document d, ?_, ?_⟩
      · rw [Payload.ofJson?, if_pos hdocument, hd]
        rfl
      · rw [Payload.root, hdroot, hclean]
    | _ => simp [isDocument, field?] at hdocument
  · have hvalue : j.rootValue = j := by
      rw [rootValue, if_neg hdocument]
    rw [hvalue] at hnode
    refine ⟨.node node, ?_, hclean⟩
    rw [Payload.ofJson?, if_neg hdocument, hnode]
    rfl

end Json

/-- A text in which validation finds no error decodes, and the root of what it decodes to keeps
every rule. -/
theorem Payload.decode_of_validate_isValid (strict : Bool) (text : String)
    (h : Finding.isValid (Payload.validate strict text) = true) :
    ∃ p, Payload.decode text = .ok p ∧ p.root.validate = [] := by
  unfold Payload.validate at h
  cases hguard : DecodeError.guard text Json.ofText with
  | error e =>
    rw [hguard] at h
    exact absurd e.isError_finding.1 (Finding.isValid_iff.mp h _ List.mem_cons_self)
  | ok j =>
    rw [hguard] at h
    obtain ⟨hblank, hread⟩ := DecodeError.guard_eq_ok hguard
    obtain ⟨p, hp, hclean⟩ := Json.payload_of_isValid (Json.sorted_of_ofText hread) h
    refine ⟨p, ?_, hclean⟩
    rw [Payload.decode, DecodeError.guard, hblank, hread]
    simp only [bind, Except.bind, hp]
    rfl

/-- A document with a script, whose root has a field that nothing reads. -/
def Payload.sampleText : String :=
  (Json.object [
    ("actions", .object [("go", .array [Json.tagged "Log" [("message", .string "m")]])]),
    ("root", .object [("type", .string "Button"), ("extra", .null),
      ("properties", Json.tagged "ButtonProps"
        [("child", .object [("type", .string "Text")])])])]).text

set_option maxRecDepth 100000 in
/-- The field is only warned of, and the document decodes. -/
theorem Payload.decode_sampleText :
    Finding.isValid (Payload.validate true sampleText) = true ∧
      ∃ p, Payload.decode sampleText = .ok p ∧ p.root.validate = [] := by
  have h : Finding.isValid (Payload.validate true sampleText) = true := by decide +kernel
  exact ⟨h, Payload.decode_of_validate_isValid true sampleText h⟩

end ScreenDoc
