import ScreenDoc.Proofs.Editor.Edits

/-!
# Outcomes of edits

Which outcome an edit has depends on two questions alone: whether a node has the id, and whether
its payload has a place for what is added. An edit takes effect as a whole, with the tree before it
kept, or leaves the session as it is and gives back what it was given.
-/

namespace ScreenDoc

namespace Properties

variable {α : Type}

def hasChildSlot : Properties α → Bool
  | button _ => true
  | card _ => true
  | scaffold _ => true
  | _ => false

private theorem isSome_withChildList? (p : Properties α) (children : List α) :
    (p.withChildList? children).isSome = p.childList?.isSome := by
  cases p <;> rfl

private theorem isSome_withChild? (p : Properties α) (child : α) :
    (p.withChild? child).isSome = p.hasChildSlot := by
  cases p <;> rfl

end Properties

namespace Node

def hasChildList (n : Node) : Bool :=
  n.properties.any fun p => p.childList?.isSome

def hasChildSlot (n : Node) : Bool :=
  n.properties.any Properties.hasChildSlot

/-- An edit that adds a node to a parent if the parent fits, and gives the node back as it is
otherwise. -/
structure Adds (fits : Node → Bool) (edit : Option Node → Node → EditOutcome) : Prop where
  detached : ∀ n, edit none n = .detached n
  unsupported : ∀ parent n, fits parent = false → edit (some parent) n = .unsupported n
  applied : ∀ parent n, fits parent = true → ∃ updated, edit (some parent) n = .applied updated

private theorem isSome_grow (parent child : Node) :
    (parent.properties.bind fun p => do
      p.withChildList? ((← p.childList?) ++ [child])).isSome = parent.hasChildList := by
  rw [hasChildList]
  cases parent.properties with
  | none => rfl
  | some p =>
    cases h : p.childList? with
    | none => simp [h]
    | some children => simp [h, p.isSome_withChildList?]

private theorem isSome_fill (parent child : Node) :
    (parent.properties.bind (Properties.withChild? child)).isSome = parent.hasChildSlot := by
  rw [hasChildSlot]
  cases parent.properties with
  | none => rfl
  | some p => exact p.isSome_withChild? child

theorem adds_of_payload {fits : Node → Bool} {edit : Option Node → Node → EditOutcome}
    {payload : Node → Node → Option (Properties Node)} (hnone : ∀ n, edit none n = .detached n)
    (hsome : ∀ parent n, edit (some parent) n =
      match payload parent n with
      | some p => .applied { parent with properties := some p }
      | none => .unsupported n)
    (hfits : ∀ parent n, (payload parent n).isSome = fits parent) : Adds fits edit where
  detached := hnone
  unsupported parent n hparent := by
    have hpayload : payload parent n = none := by
      rw [← Option.not_isSome_iff_eq_none, hfits, hparent]
      exact Bool.false_ne_true
    rw [hsome, hpayload]
  applied parent n hparent := by
    obtain ⟨p, hp⟩ : ∃ p, payload parent n = some p := by
      rw [← Option.isSome_iff_exists, hfits, hparent]
    exact ⟨{ parent with properties := some p }, by rw [hsome, hp]⟩

private theorem adds_addAsSibling : Adds hasChildList addAsSibling :=
  adds_of_payload (fun _ => rfl) (fun _ _ => rfl) fun parent n =>
    isSome_grow parent n.withDefaultText

private theorem adds_addAsChild : Adds hasChildSlot addAsChild :=
  adds_of_payload (fun _ => rfl) (fun _ _ => rfl) fun parent n =>
    isSome_fill parent n.withDefaultText

end Node

namespace Editor

/-- An edit takes effect as a whole, or not at all. -/
structure Atomic (e : Editor) (result : Editor × EditOutcome) : Prop where
  applied : result.2.isApplied = true →
    result.1.root = result.2.node ∧ result.1.history = e.root :: e.history
  refused : result.2.isApplied = false → result.1 = e

/-- The outcome of adding `n` to the node with this id, when the parents that fit are these. -/
structure Classified (e : Editor) (id : String) (n : Node) (fits : Node → Bool)
    (outcome : EditOutcome) : Prop where
  detached : (∃ m, outcome = .detached m) ↔ ¬e.root.HasId id
  unsupported : (∃ m, outcome = .unsupported m) ↔
    ∃ parent, e.index.nodeWithId? id = some parent ∧ fits parent = false
  applied : (∃ tree, outcome = .applied tree) ↔
    ∃ parent, e.index.nodeWithId? id = some parent ∧ fits parent = true
  not_notFound : ∀ m, outcome ≠ .notFound m
  /-- What is not added comes back as it was given. -/
  unchanged : outcome.isApplied = false → outcome.node = n

theorem atomic_commit (e : Editor) (tree : Node) : e.Atomic (e.commit tree, .applied tree) where
  applied _ := ⟨rfl, rfl⟩
  refused h := by cases h

theorem atomic_refused {e e' : Editor} {outcome : EditOutcome} (hsame : e' = e)
    (h : outcome.isApplied = false) : e.Atomic (e', outcome) where
  applied happlied := by
    rw [h] at happlied
    cases happlied
  refused _ := hsame

private theorem atomic_update (e : Editor) (id : String) (r : Node) : e.Atomic (e.update id r) := by
  rcases e.update_cases id r with ⟨tree, -, hupdate⟩ | ⟨hsame, hrefused⟩
  · rw [hupdate]
    exact e.atomic_commit tree
  · exact atomic_refused hsame hrefused

theorem atomic_editParent (e : Editor) (id : String) (n : Node) {fits : Node → Bool}
    {edit : Option Node → Node → EditOutcome} (hedit : Node.Adds fits edit) :
    e.Atomic (e.editParent id n edit) := by
  rcases e.editParent_cases id n edit (hedit.detached n) with
    ⟨parent, updated, tree, -, -, -, heditParent⟩ | ⟨hsame, hrefused⟩
  · rw [heditParent]
    exact e.atomic_commit tree
  · exact atomic_refused hsame hrefused

section EditParent

variable {e : Editor} {id : String} {fits : Node → Bool}
  {edit : Option Node → Node → EditOutcome}

private theorem editParent_of_not_hasId (hedit : Node.Adds fits edit) (hid : ¬e.root.HasId id)
    (n : Node) : e.editParent id n edit = (e, .detached n) := by
  have hnone : e.index.nodeWithId? id = none := Node.nodeWithId?_eq_none_iff.mpr hid
  rw [editParent, ← TreeIndex.nodeWithId?, hnone, hedit.detached]

private theorem editParent_of_not_fits (hedit : Node.Adds fits edit) {parent : Node}
    (hparent : e.index.nodeWithId? id = some parent) (hfits : fits parent = false) (n : Node) :
    e.editParent id n edit = (e, .unsupported n) := by
  rw [editParent, ← TreeIndex.nodeWithId?, hparent, hedit.unsupported parent n hfits]

/-- Once the parent is found and fits, nothing can fail: its id leads back to it. -/
theorem editParent_of_fits (hedit : Node.Adds fits edit) {parent : Node}
    (hparent : e.index.nodeWithId? id = some parent) (hfits : fits parent = true) (n : Node) :
    ∃ tree, e.editParent id n edit = (e.commit tree, .applied tree) := by
  obtain ⟨updated, hupdated⟩ := hedit.applied parent n hfits
  obtain ⟨tree, htree⟩ := Node.exists_update (Node.hasId_of_nodeWithId? hparent) updated
  refine ⟨tree, ?_⟩
  rw [editParent, ← TreeIndex.nodeWithId?, hparent, hupdated]
  simp only [update, htree]

theorem classified_editParent (hedit : Node.Adds fits edit) (n : Node) :
    e.Classified id n fits (e.editParent id n edit).2 := by
  cases hparent : e.index.nodeWithId? id with
  | none =>
    have hid : ¬e.root.HasId id := Node.nodeWithId?_eq_none_iff.mp hparent
    rw [editParent_of_not_hasId hedit hid]
    exact ⟨by simp [hid], by simp [hparent], by simp [hparent], by simp, fun _ => rfl⟩
  | some parent =>
    have hid : e.root.HasId id := Node.hasId_of_nodeWithId? hparent
    cases hfits : fits parent with
    | false =>
      rw [editParent_of_not_fits hedit hparent hfits]
      exact ⟨by simp [hid], by simp [hparent, hfits], by simp [hparent, hfits], by simp,
        fun _ => rfl⟩
    | true =>
      obtain ⟨tree, htree⟩ := editParent_of_fits hedit hparent hfits n
      rw [htree]
      exact ⟨by simp [hid], by simp [hparent, hfits], by simp [hparent, hfits], by simp,
        fun h => by cases h⟩

end EditParent

theorem update_of_not_hasId {e : Editor} {id : String} (hid : ¬e.root.HasId id) (r : Node) :
    e.update id r = (e, .notFound e.root) := by
  rw [update, Node.update_of_not_hasId hid]

theorem update_of_hasId {e : Editor} {id : String} (hid : e.root.HasId id) (r : Node) :
    ∃ tree, e.update id r = (e.commit tree, .applied tree) := by
  obtain ⟨tree, htree⟩ := Node.exists_update hid r
  exact ⟨tree, by rw [update, htree]⟩

private theorem update_notFound_iff (e : Editor) (id : String) (r : Node) :
    (∃ m, (e.update id r).2 = .notFound m) ↔ ¬e.root.HasId id := by
  constructor
  · rintro ⟨m, hm⟩ hid
    obtain ⟨tree, htree⟩ := update_of_hasId hid r
    rw [htree] at hm
    cases hm
  · intro hid
    rw [update_of_not_hasId hid]
    exact ⟨e.root, rfl⟩

private theorem update_applied_iff (e : Editor) (id : String) (r : Node) :
    (∃ tree, (e.update id r).2 = .applied tree) ↔ e.root.HasId id := by
  constructor
  · rintro ⟨tree, htree⟩
    by_contra hid
    rw [update_of_not_hasId hid] at htree
    cases htree
  · intro hid
    obtain ⟨tree, htree⟩ := update_of_hasId hid r
    exact ⟨tree, by rw [htree]⟩

/-- Edits that do not apply are atomic and say why. Adding is detached just when no node has the
id, unsupported just when the node that has it has no place for another, and applied otherwise; an
update is not found just when no node has the id. An applied edit carries the new tree and keeps
the old one, any other leaves the session as it is. -/
theorem edits_classified (e : Editor) (id : String) (n : Node) :
    (e.Classified id n Node.hasChildList (e.addAsSibling id n).2 ∧
      e.Atomic (e.addAsSibling id n)) ∧
    (e.Classified id n Node.hasChildSlot (e.addAsChild id n).2 ∧
      e.Atomic (e.addAsChild id n)) ∧
    ((∃ m, (e.update id n).2 = .notFound m) ↔ ¬e.root.HasId id) ∧
    ((∃ tree, (e.update id n).2 = .applied tree) ↔ e.root.HasId id) ∧
    e.Atomic (e.update id n) := by
  have hsibling := Node.adds_addAsSibling
  have hchild := Node.adds_addAsChild
  refine ⟨⟨classified_editParent hsibling n, e.atomic_editParent id n hsibling⟩,
    ⟨classified_editParent hchild n, e.atomic_editParent id n hchild⟩, ?_⟩
  exact ⟨e.update_notFound_iff id n, e.update_applied_iff id n, e.atomic_update id n⟩

/-- A text has no child list, the row beside it has one, and there is no fourth child. What is not
added is a text without text still. -/
theorem edits_classified_sample :
    (∃ m, (sample.addAsSibling "root_0_Text_1" { type := .text }).2 = .unsupported m) ∧
      (∃ tree, (sample.addAsSibling "root_0_Row_2" { type := .text }).2 = .applied tree) ∧
      (sample.addAsChild "root_0_Text_4" { type := .text }).2.node = { type := .text } ∧
      (sample.addAsChild "root_0_Text_4" { type := .text }).1 = sample := by
  have htext : ∃ parent, sample.index.nodeWithId? "root_0_Text_1" = some parent ∧
      parent.hasChildList = false := by
    rw [← Option.map_eq_some_iff]
    decide +kernel
  have hrow : ∃ parent, sample.index.nodeWithId? "root_0_Row_2" = some parent ∧
      parent.hasChildList = true := by
    rw [← Option.map_eq_some_iff]
    decide +kernel
  have hmissing : (sample.addAsChild "root_0_Text_4" { type := .text }).2.isApplied = false := by
    decide +kernel
  have hchild := edits_classified sample "root_0_Text_4" { type := .text }
  exact ⟨(edits_classified sample _ _).1.1.unsupported.mpr htext,
    (edits_classified sample _ _).1.1.applied.mpr hrow, hchild.2.1.1.unchanged hmissing,
    hchild.2.1.2.refused hmissing⟩

end Editor

end ScreenDoc
