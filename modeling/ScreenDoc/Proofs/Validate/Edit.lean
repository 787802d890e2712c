import ScreenDoc.Proofs.Node.Address
import ScreenDoc.Proofs.Validate.Exactness

/-!
# Clean trees and edits

A tree is clean if no node of it breaks a rule. The rules of a node look at nothing above it, and of
its children only at whether there are any, so that a clean tree stays clean when a node is
exchanged for a clean one or a clean node is added where a payload has a place for it. A text node
that gets the placeholder breaks no rule that it did not break before.
-/

namespace ScreenDoc

open Finding (key)

namespace Node

private theorem checkSelf_eq_nil_iff {n : Node} {path : Path} :
    n.checkSelf path = [] ↔ n.brokenRules = [] := by
  rw [← List.map_eq_nil_iff (f := key), map_key_checkSelf, List.map_eq_nil_iff]

private theorem check_eq_nil_iff {n : Node} {path : Path} :
    n.check path = [] ↔ n.brokenRules = [] ∧ ∀ c ∈ n.children, c.check .root = [] := by
  induction n using placedChildren_induction generalizing path with
  | node n ih =>
    rw [check_eq, List.append_eq_nil_iff, checkSelf_eq_nil_iff, List.flatMap_eq_nil_iff,
      ← map_snd_placedChildren, List.forall_mem_map]
    refine and_congr_right fun _ => forall₂_congr fun child hchild => ?_
    rw [ih child hchild, ih child hchild]

theorem validate_eq_nil_iff {n : Node} :
    n.validate = [] ↔ n.brokenRules = [] ∧ ∀ c ∈ n.children, c.validate = [] := by
  simp only [validate_eq_check]
  exact check_eq_nil_iff

theorem validate_at? {n m : Node} {address : List Nat} (hn : n.validate = [])
    (hm : n.at? address = some m) : m.validate = [] := by
  induction address generalizing n with
  | nil =>
    cases hm
    exact hn
  | cons position rest ih =>
    obtain ⟨c, hc, hm⟩ := at?_cons_eq_some.mp hm
    exact ih ((validate_eq_nil_iff.mp hn).2 c (List.mem_of_getElem? hc)) hm

/-! ## Rules that an edit leaves alone -/

/-- A node with another payload breaks the same rules, if the payload is of the same type and breaks
the same rules, and the node is no leaf that gains or loses children. -/
theorem brokenRules_of_properties {n : Node} {p p' : Properties Node} (hp : n.properties = some p)
    (htype : p'.type = p.type) (hrules : p'.brokenRules = p.brokenRules)
    (hleaf : (n.type.isLeaf && p'.hasChildren) = (n.type.isLeaf && p.hasChildren)) :
    ({ n with properties := some p' } : Node).brokenRules = n.brokenRules := by
  simp only [brokenRules, hp, htype, hrules, hleaf]

private theorem brokenRules_setChild (n : Node) (position : Nat) (child : Node) :
    (n.setChild position child).brokenRules = n.brokenRules := by
  cases hp : n.properties with
  | none => simp only [setChild, mapChildren, hp, Option.map_none, brokenRules]
  | some p =>
    rw [setChild, mapChildren, hp, Option.map_some]
    apply brokenRules_of_properties hp (Properties.type_mapIdx _ p)
    · cases p <;> rfl
    · rw [Properties.hasChildren, Properties.hasChildren, Properties.children_mapIdx]
      cases p.children <;> simp

/-- A tree stays clean if a node is exchanged for a clean one. -/
theorem validate_replaceAt? {n r t : Node} {address : List Nat} (hn : n.validate = [])
    (hr : r.validate = []) (ht : n.replaceAt? address r = some t) : t.validate = [] := by
  induction address generalizing n t with
  | nil =>
    cases ht
    exact hr
  | cons position rest ih =>
    obtain ⟨c, hc, c', hc', rfl⟩ := replaceAt?_cons_eq_some.mp ht
    obtain ⟨hrules, hchildren⟩ := validate_eq_nil_iff.mp hn
    refine validate_eq_nil_iff.mpr ⟨by rw [brokenRules_setChild, hrules], fun d hd => ?_⟩
    rw [children_setChild] at hd
    rcases List.mem_or_eq_of_mem_set hd with hold | rfl
    · exact hchildren d hold
    · exact ih (hchildren c (List.mem_of_getElem? hc)) hc'

/-! ## Adding a node -/

private theorem type_of_brokenRules {n : Node} {p : Properties Node} (hrules : n.brokenRules = [])
    (hp : n.properties = some p) : p.type = n.type := by
  by_contra htype
  have hbroken : Rule.payload ∈ n.brokenRules := by
    refine mem_brokenRules_of_breaks (.payload hp fun htag => htype ?_)
    exact NodeType.payloadTag_injective htag
  rw [hrules] at hbroken
  cases hbroken

theorem validate_of_properties {n : Node} {p p' : Properties Node} (hn : n.validate = [])
    (hp : n.properties = some p) (htype : p'.type = p.type)
    (hrules : p'.brokenRules = p.brokenRules) (hleaf : p.type.isLeaf = false)
    (hchildren : ∀ c ∈ p'.children, c ∈ n.children ∨ c.validate = []) :
    ({ n with properties := some p' } : Node).validate = [] := by
  obtain ⟨hself, hbelow⟩ := validate_eq_nil_iff.mp hn
  have hnoleaf : n.type.isLeaf = false := by
    rw [← type_of_brokenRules hself hp, hleaf]
  refine validate_eq_nil_iff.mpr ⟨?_, fun c hc => ?_⟩
  · rw [brokenRules_of_properties hp htype hrules (by simp [hnoleaf]), hself]
  · exact (hchildren c hc).elim (hbelow c) id

theorem validate_withDefaultText {n : Node} (hn : n.validate = []) :
    n.withDefaultText.validate = [] := by
  rw [withDefaultText]
  split
  · rename_i htext
    have htype : n.type = .text := by simpa [NodeType.isText] using htext
    obtain ⟨hself, hbelow⟩ := validate_eq_nil_iff.mp hn
    split
    · rename_i hp
      have hoperations :
          (n.modifier.operations.zipIdx.flatMap fun o => o.1.brokenRules o.2) = [] := by
        simpa only [brokenRules, hp, List.nil_append] using hself
      refine validate_eq_nil_iff.mpr ⟨?_, fun c hc => by cases hc⟩
      simp only [brokenRules, htype, hoperations]
      rfl
    · rename_i p hp
      refine validate_eq_nil_iff.mpr ⟨?_, fun c hc => by cases hc⟩
      exact (brokenRules_of_properties hp rfl rfl rfl).trans hself
    · exact hn
  · exact hn

end Node

namespace Properties

variable {α : Type}

private theorem isLeaf_of_withChildList? {p p' : Properties α} {children : List α}
    (h : p.withChildList? children = some p') : p.type.isLeaf = false := by
  cases p <;> cases h <;> rfl

private theorem brokenRules_of_withChildList? {p p' : Properties α} {children : List α}
    (h : p.withChildList? children = some p') : p'.brokenRules = p.brokenRules := by
  cases p <;> cases h <;> rfl

private theorem isLeaf_of_withChild? {p p' : Properties α} {child : α}
    (h : p.withChild? child = some p') : p.type.isLeaf = false := by
  cases p <;> cases h <;> rfl

private theorem brokenRules_of_withChild? {p p' : Properties α} {child : α}
    (h : p.withChild? child = some p') : p'.brokenRules = p.brokenRules := by
  cases p <;> cases h <;> rfl

end Properties

namespace Node

variable {parent n updated : Node}

theorem validate_addAsSibling (hparent : parent.validate = []) (hn : n.validate = [])
    (h : addAsSibling (some parent) n = .applied updated) : updated.validate = [] := by
  obtain ⟨p, p', hp, hp', rfl⟩ := exists_of_addAsSibling h
  apply validate_of_properties hparent hp (Properties.type_of_withChildList? hp')
    (Properties.brokenRules_of_withChildList? hp') (Properties.isLeaf_of_withChildList? hp')
  intro c hc
  rw [Properties.children_of_withChildList? hp', ← children_of_properties hp] at hc
  refine (List.mem_append.mp hc).imp_right fun hadded => ?_
  rw [List.mem_singleton.mp hadded]
  exact validate_withDefaultText hn

theorem validate_addAsChild (hparent : parent.validate = []) (hn : n.validate = [])
    (h : addAsChild (some parent) n = .applied updated) : updated.validate = [] := by
  obtain ⟨p, p', hp, hp', rfl⟩ := exists_of_addAsChild h
  obtain ⟨beside, old, -, hold, hnew⟩ := Properties.placedChildren_of_withChild? hp'
  apply validate_of_properties hparent hp (Properties.type_of_withChild? hp')
    (Properties.brokenRules_of_withChild? hp') (Properties.isLeaf_of_withChild? hp')
  intro c hc
  rw [← Properties.map_snd_placedChildren, hnew, List.map_append, Properties.map_snd_slot] at hc
  rw [children_of_properties hp, ← Properties.map_snd_placedChildren, hold, List.map_append]
  refine (List.mem_append.mp hc).imp (List.mem_append_left _) fun hadded => ?_
  rw [List.mem_singleton.mp hadded]
  exact validate_withDefaultText hn

end Node

end ScreenDoc
