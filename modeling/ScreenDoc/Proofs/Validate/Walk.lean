import ScreenDoc.Proofs.Finding
import ScreenDoc.Proofs.Node.Located
import ScreenDoc.Validate.Basic

/-!
# Walks over trees

Each walk of validation reports a node and then, child by child, what is below it. Here every walk
is an equation over the plain list of children, each kind of children has its principle of
induction, and the findings of each walk are graded: all but those of the search for unrecognized
fields are errors.
-/

namespace ScreenDoc

theorem nodup_flatMap_zipIdx {α β : Type} {l : List α} {f : α × Nat → List β}
    (hnodup : ∀ a, (f a).Nodup) (hindex : ∀ {a b : α × Nat} x, x ∈ f a → x ∈ f b → a.2 = b.2) :
    (l.zipIdx.flatMap f).Nodup := by
  have hpositions : l.zipIdx.Pairwise fun a b => a.2 ≠ b.2 := by
    apply List.pairwise_map.mp
    rw [List.zipIdx_map_snd]
    exact List.nodup_range'
  refine List.nodup_flatMap.mpr ⟨fun a _ => hnodup a, ?_⟩
  exact hpositions.imp fun hne x ha hb => hne (hindex x ha hb)

namespace Json

theorem childNodes_induction {motive : Json → Prop}
    (node : ∀ j, (∀ child ∈ j.childNodes, motive child.2) → motive j) (j : Json) : motive j :=
  node j fun child _ => childNodes_induction node child.2
termination_by j.size
decreasing_by exact size_lt_of_childNodes ‹_›

theorem decodedChildNodes_induction {motive : Json → Prop}
    (node : ∀ j, (∀ child ∈ j.decodedChildNodes, motive child.2) → motive j) (j : Json) :
    motive j :=
  node j fun child _ => decodedChildNodes_induction node child.2
termination_by j.size
decreasing_by exact size_lt_of_decodedChildNodes ‹_›

theorem nestedActions_induction {motive : Json → Prop}
    (node : ∀ j, (∀ action ∈ j.nestedActions, motive action) → motive j) (j : Json) : motive j :=
  node j fun action _ => nestedActions_induction node action
termination_by j.size
decreasing_by exact size_lt_of_nestedActions ‹_›

theorem checkTags_eq (j : Json) (path : Path) :
    j.checkTags path =
      j.checkOwnTags path ++ j.childNodes.flatMap fun child =>
        child.2.checkTags (path.properties.child child.1) := by
  rw [checkTags, List.flatMap_subtype fun _ _ => rfl, List.unattach_attach]

theorem checkLeaves_eq (j : Json) (path : Path) :
    j.checkLeaves path =
      j.checkOwnLeaf path ++ j.childNodes.flatMap fun child =>
        child.2.checkLeaves (path.properties.child child.1) := by
  rw [checkLeaves, List.flatMap_subtype fun _ _ => rfl, List.unattach_attach]

theorem unknownInTree_eq (j : Json) (path : Path) :
    j.unknownInTree path =
      j.unknownInNode path ++ j.decodedChildNodes.flatMap fun child =>
        child.2.unknownInTree (path.properties.child child.1) := by
  rw [unknownInTree, List.flatMap_subtype fun _ _ => rfl, List.unattach_attach]

theorem unknownInAction_eq (j : Json) (path : Path) :
    j.unknownInAction path =
      unknownTagged actionFields? j path ++ j.nestedActions.zipIdx.flatMap fun action =>
        action.1.unknownInAction ((path.field "actions").item action.2) := by
  rw [unknownInAction]
  conv_rhs => rw [← List.attach_map_subtype_val j.nestedActions, List.zipIdx_map,
    List.flatMap_map]
  rfl

/-! ## Errors -/

private theorem checkOperationTag_isError {operation : Json} {path : Path} :
    ∀ f ∈ operation.checkOperationTag path, f.IsError := by
  intro f hf
  unfold checkOperationTag at hf
  split at hf
  · split at hf
    · cases hf
    · exact Finding.isError_of_mem hf (by decide)
  · exact Finding.isError_of_mem hf (by decide)

private theorem checkOwnTags_isError {j : Json} {path : Path} :
    ∀ f ∈ j.checkOwnTags path, f.IsError := by
  intro f hf
  cases j with
  | object fields =>
    simp only [checkOwnTags, List.mem_append, List.mem_flatMap] at hf
    rcases hf with hf | ⟨operation, -, hf⟩
    · split at hf
      · split at hf
        · cases hf
        · exact Finding.isError_of_mem hf (by decide)
      · exact Finding.isError_of_mem hf (by decide)
    · exact checkOperationTag_isError f hf
  | _ =>
    exact Finding.isError_of_mem hf (by decide)

theorem checkTags_isError (j : Json) (path : Path) : ∀ f ∈ j.checkTags path, f.IsError := by
  induction j using childNodes_induction generalizing path with
  | node j ih =>
    intro f hf
    rw [checkTags_eq, List.mem_append, List.mem_flatMap] at hf
    rcases hf with hf | ⟨child, hchild, hf⟩
    · exact checkOwnTags_isError f hf
    · exact ih child hchild _ f hf

private theorem of_mem_checkOwnLeaf {j : Json} {path : Path} {f : Finding}
    (hf : f ∈ j.checkOwnLeaf path) : f.severity = .error ∧ f.code = .childrenOnLeafNode := by
  unfold checkOwnLeaf at hf
  split at hf
  · split at hf
    · split at hf
      · rw [List.mem_singleton.mp hf]
        exact ⟨rfl, rfl⟩
      · cases hf
    · cases hf
  · cases hf

theorem of_mem_checkLeaves {j : Json} {path : Path} {f : Finding} (hf : f ∈ j.checkLeaves path) :
    f.severity = .error ∧ f.code = .childrenOnLeafNode := by
  induction j using childNodes_induction generalizing path with
  | node j ih =>
    rw [checkLeaves_eq, List.mem_append, List.mem_flatMap] at hf
    rcases hf with hf | ⟨child, hchild, hf⟩
    · exact of_mem_checkOwnLeaf hf
    · exact ih child hchild hf

theorem checkLeaves_isError (j : Json) (path : Path) :
    ∀ f ∈ j.checkLeaves path, f.IsError := by
  intro f hf
  obtain ⟨hseverity, hcode⟩ := of_mem_checkLeaves hf
  exact ⟨hseverity, by rw [hcode]; decide⟩

theorem checkSections_isError {j : Json} : ∀ f ∈ j.checkSections, f.IsError := by
  intro f hf
  simp only [checkSections, List.mem_append] at hf
  rcases hf with hf | hf
  · split at hf
    · cases hf
    · cases hf
    · exact Finding.isError_of_mem hf (by decide)
  · split at hf
    · cases hf
    · obtain ⟨script, -, hf⟩ := List.mem_flatMap.mp hf
      split at hf
      · cases hf
      · exact Finding.isError_of_mem hf (by decide)
    · exact Finding.isError_of_mem hf (by decide)

/-! ## Warnings -/

theorem unknownKeys_isUnrecognized {fields : KeyMap Json} {known : List String}
    {place : String → Path} : ∀ f ∈ unknownKeys fields known place, f.IsUnrecognized := by
  intro f hf
  obtain ⟨key, -, rfl⟩ := List.mem_map.mp hf
  exact Finding.isUnrecognized_warning _ _

theorem unknownTagged_isUnrecognized {fieldsOf? : String → Option (List String)} {j : Json}
    {path : Path} : ∀ f ∈ unknownTagged fieldsOf? j path, f.IsUnrecognized := by
  intro f hf
  unfold unknownTagged at hf
  split at hf
  · exact unknownKeys_isUnrecognized f hf
  · cases hf

private theorem unknownInOperation_isUnrecognized {j : Json} {path : Path} :
    ∀ f ∈ j.unknownInOperation path, f.IsUnrecognized := by
  intro f hf
  unfold unknownInOperation at hf
  split at hf
  · rcases List.mem_append.mp hf with hf | hf
    · exact unknownTagged_isUnrecognized f hf
    · split at hf
      · exact unknownTagged_isUnrecognized f hf
      · cases hf
  · cases hf

private theorem unknownInModifier_isUnrecognized {j : Json} {path : Path} :
    ∀ f ∈ j.unknownInModifier path, f.IsUnrecognized := by
  intro f hf
  unfold unknownInModifier at hf
  split at hf
  · rcases List.mem_append.mp hf with hf | hf
    · exact unknownKeys_isUnrecognized f hf
    · obtain ⟨operation, -, hf⟩ := List.mem_flatMap.mp hf
      exact unknownInOperation_isUnrecognized f hf
  · cases hf

private theorem unknownInNode_isUnrecognized {j : Json} {path : Path} :
    ∀ f ∈ j.unknownInNode path, f.IsUnrecognized := by
  intro f hf
  unfold unknownInNode at hf
  split at hf
  · cases hf
  · rcases List.mem_append.mp hf with hf | hf
    · rcases List.mem_append.mp hf with hf | hf
      · exact unknownKeys_isUnrecognized f hf
      · split at hf
        · exact unknownInModifier_isUnrecognized f hf
        · cases hf
    · split at hf
      · exact unknownTagged_isUnrecognized f hf
      · cases hf

theorem unknownInTree_isUnrecognized (j : Json) (path : Path) :
    ∀ f ∈ j.unknownInTree path, f.IsUnrecognized := by
  induction j using decodedChildNodes_induction generalizing path with
  | node j ih =>
    intro f hf
    rw [unknownInTree_eq, List.mem_append, List.mem_flatMap] at hf
    rcases hf with hf | ⟨child, hchild, hf⟩
    · exact unknownInNode_isUnrecognized f hf
    · exact ih child hchild _ f hf

private theorem unknownInAction_isUnrecognized (j : Json) (path : Path) :
    ∀ f ∈ j.unknownInAction path, f.IsUnrecognized := by
  induction j using nestedActions_induction generalizing path with
  | node j ih =>
    intro f hf
    rw [unknownInAction_eq, List.mem_append, List.mem_flatMap] at hf
    rcases hf with hf | ⟨action, haction, hf⟩
    · exact unknownTagged_isUnrecognized f hf
    · exact ih action.1 (List.fst_mem_of_mem_zipIdx haction) _ f hf

theorem unknownInDocument_isUnrecognized {j : Json} :
    ∀ f ∈ j.unknownInDocument, f.IsUnrecognized := by
  intro f hf
  unfold unknownInDocument at hf
  split at hf
  · cases hf
  · rcases List.mem_append.mp hf with hf | hf
    · exact unknownKeys_isUnrecognized f hf
    · obtain ⟨script, -, hf⟩ := List.mem_flatMap.mp hf
      obtain ⟨action, -, hf⟩ := List.mem_flatMap.mp hf
      exact unknownInAction_isUnrecognized _ _ f hf

end Json

/-! ## Decoded trees -/

namespace Node

theorem check_eq (n : Node) (path : Path) :
    n.check path =
      n.checkSelf path ++ n.placedChildren.flatMap fun child =>
        child.2.check (path.properties.child child.1) := by
  rw [check, List.flatMap_subtype fun _ _ => rfl, List.unattach_attach]

end Node

theorem Properties.checkWord_isError {value : Option String} {allowed : List String}
    {code : ErrorCode} {path : Path} (hcode : code ≠ .unrecognizedProperties) :
    ∀ f ∈ checkWord value allowed code path, f.IsError := by
  intro f hf
  unfold checkWord at hf
  split at hf
  · cases hf
  · split at hf
    · cases hf
    · exact Finding.isError_of_mem hf hcode

theorem Properties.checkColor_isError {color : String} {path : Path} :
    ∀ f ∈ checkColor color path, f.IsError := by
  intro f hf
  unfold checkColor at hf
  split at hf
  · cases hf
  · exact Finding.isError_of_mem hf (by decide)

private theorem Properties.checkFields_isError {α : Type} {p : Properties α} {path : Path} :
    ∀ f ∈ p.checkFields path, f.IsError := by
  intro f hf
  unfold checkFields at hf
  split at hf
  · rcases List.mem_append.mp hf with hf | hf <;> exact checkWord_isError (by decide) f hf
  · rcases List.mem_append.mp hf with hf | hf <;> exact checkWord_isError (by decide) f hf
  · exact checkWord_isError (by decide) f hf
  · split at hf
    · cases hf
    · exact checkColor_isError f hf
  · cases hf

theorem Operation.checkMeasure_isError {what : String} {value : Int32} {path : Path} :
    ∀ f ∈ checkMeasure what value path, f.IsError := by
  intro f hf
  unfold checkMeasure at hf
  split at hf
  · exact Finding.isError_of_mem hf (by decide)
  · cases hf

theorem Operation.checkShape_isError {shape : Shape} {path : Path} :
    ∀ f ∈ checkShape shape path, f.IsError := by
  intro f hf
  unfold checkShape at hf
  split at hf
  · split at hf
    · cases hf
    · exact Finding.isError_of_mem hf (by decide)
  · cases hf

theorem Operation.check_isError {o : Operation} {path : Path} :
    ∀ f ∈ o.check path, f.IsError := by
  intro f hf
  cases o with
  | padding value => exact checkMeasure_isError f hf
  | width value => exact checkMeasure_isError f hf
  | height value => exact checkMeasure_isError f hf
  | shadow elevation => exact checkMeasure_isError f hf
  | border thickness color =>
    rcases List.mem_append.mp hf with hf | hf
    · exact checkMeasure_isError f hf
    · exact Properties.checkColor_isError f hf
  | backgroundColor color => exact Properties.checkColor_isError f hf
  | background color shape =>
    rcases List.mem_append.mp hf with hf | hf
    · exact Properties.checkColor_isError f hf
    · exact checkShape_isError f hf
  | clip shape => exact checkShape_isError f hf
  | alpha value =>
    simp only [check] at hf
    split at hf
    · cases hf
    · exact Finding.isError_of_mem hf (by decide)
  | fillMaxSize => cases hf
  | fillMaxWidth => cases hf
  | fillMaxHeight => cases hf
  | rotate degrees => cases hf

namespace Node

private theorem checkSelf_isError {n : Node} {path : Path} : ∀ f ∈ n.checkSelf path, f.IsError := by
  intro f hf
  unfold checkSelf at hf
  rcases List.mem_append.mp hf with hf | hf
  · split at hf
    · cases hf
    · rcases List.mem_append.mp hf with hf | hf
      · rcases List.mem_append.mp hf with hf | hf
        · split at hf
          · cases hf
          · exact Finding.isError_of_mem hf (by decide)
        · split at hf
          · exact Finding.isError_of_mem hf (by decide)
          · cases hf
      · exact Properties.checkFields_isError f hf
  · obtain ⟨operation, -, hf⟩ := List.mem_flatMap.mp hf
    exact Operation.check_isError f hf

theorem check_isError (n : Node) (path : Path) : ∀ f ∈ n.check path, f.IsError := by
  induction n using placedChildren_induction generalizing path with
  | node n ih =>
    intro f hf
    rw [check_eq, List.mem_append, List.mem_flatMap] at hf
    rcases hf with hf | ⟨child, hchild, hf⟩
    · exact checkSelf_isError f hf
    · exact ih child hchild _ f hf

end Node

end ScreenDoc
