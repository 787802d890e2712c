import Mathlib.Data.List.Basic
import ScreenDoc.Node.Edit
import ScreenDoc.Proofs.Node.Located

/-!
# Editing at an address

What an edit does to the children of a node, and how replacement goes down an address. A node that
is added comes behind the children that stay. Replacing at a longer address is replacing the parent
with one child exchanged, and all nodes on the way keep their types.
-/

namespace ScreenDoc

namespace Properties

variable {α β : Type}

@[simp] theorem children_mapIdx (f : Nat → α → β) (p : Properties α) :
    (p.mapIdx f).children = p.children.mapIdx f := by
  cases p with
  | button p => obtain ⟨_ | child, onClick, enabled⟩ := p <;> rfl
  | card p => obtain ⟨_ | child, elevation, onClick⟩ := p <;> rfl
  | scaffold p => obtain ⟨_ | topBar, _ | bottomBar, _ | child⟩ := p <;> rfl
  | topAppBar p =>
    obtain ⟨_ | title, _ | icon, actions⟩ := p <;>
      simp [mapIdx, children, filled, Nat.add_comm 1, Nat.add_comm 2]
  | alertDialog p =>
    obtain ⟨_ | title, _ | body, _ | confirm, _ | dismiss, onDismiss⟩ := p <;> rfl
  | _ => rfl

@[simp] theorem type_mapIdx (f : Nat → α → β) (p : Properties α) : (p.mapIdx f).type = p.type := by
  cases p <;> rfl

private theorem children_of_childList? {p : Properties α} {children : List α}
    (h : p.childList? = some children) : p.children = children := by
  cases p <;> simp_all [childList?, Properties.children]

theorem children_of_withChildList? {p p' : Properties α} {children : List α}
    (h : p.withChildList? children = some p') : p'.children = children := by
  cases p <;> cases h <;> rfl

theorem type_of_withChildList? {p p' : Properties α} {children : List α}
    (h : p.withChildList? children = some p') : p'.type = p.type := by
  cases p <;> cases h <;> rfl

/-- The single child slot comes behind all other children, which stay where they are. -/
theorem placedChildren_of_withChild? {p p' : Properties α} {child : α}
    (h : p.withChild? child = some p') :
    ∃ beside old, (∀ placed ∈ beside, placed.1.field ≠ "child") ∧
      p.placedChildren = beside ++ slot "child" old ∧
      p'.placedChildren = beside ++ slot "child" (some child) := by
  cases p with
  | button p =>
    cases h
    exact ⟨[], p.child, by simp, rfl, rfl⟩
  | card p =>
    cases h
    exact ⟨[], p.child, by simp, rfl, rfl⟩
  | scaffold p =>
    cases h
    refine ⟨slot "topBar" p.topBar ++ slot "bottomBar" p.bottomBar, p.child, ?_, rfl, rfl⟩
    intro placed hplaced
    rcases List.mem_append.mp hplaced with htop | hbottom
    · rw [field_of_mem_slot htop]
      decide
    · rw [field_of_mem_slot hbottom]
      decide
  | _ => cases h

theorem type_of_withChild? {p p' : Properties α} {child : α}
    (h : p.withChild? child = some p') : p'.type = p.type := by
  cases p <;> cases h <;> rfl

end Properties

namespace Node

theorem children_of_properties {n : Node} {p : Properties Node} (hp : n.properties = some p) :
    n.children = p.children := by
  rw [children, hp]

/-! ## Adding a node -/

theorem exists_of_addAsSibling {parent n updated : Node}
    (h : addAsSibling (some parent) n = .applied updated) :
    ∃ p p', parent.properties = some p ∧
      p.withChildList? (p.children ++ [n.withDefaultText]) = some p' ∧
        { parent with properties := some p' } = updated := by
  rw [addAsSibling] at h
  split at h
  · rename_i p' hp'
    obtain ⟨p, hp, hlist⟩ := Option.bind_eq_some_iff.mp hp'
    obtain ⟨children, hchildren, hp'⟩ := Option.bind_eq_some_iff.mp hlist
    rw [← Properties.children_of_childList? hchildren] at hp'
    exact ⟨p, p', hp, hp', EditOutcome.applied.inj h⟩
  · cases h

theorem exists_of_addAsChild {parent n updated : Node}
    (h : addAsChild (some parent) n = .applied updated) :
    ∃ p p', parent.properties = some p ∧ p.withChild? n.withDefaultText = some p' ∧
      { parent with properties := some p' } = updated := by
  rw [addAsChild] at h
  split at h
  · rename_i p' hp'
    obtain ⟨p, hp, hp'⟩ := Option.bind_eq_some_iff.mp hp'
    exact ⟨p, p', hp, hp', EditOutcome.applied.inj h⟩
  · cases h

theorem children_of_addAsSibling {parent n updated : Node}
    (h : addAsSibling (some parent) n = .applied updated) :
    updated.type = parent.type ∧ updated.children = parent.children ++ [n.withDefaultText] := by
  obtain ⟨p, p', hp, hp', rfl⟩ := exists_of_addAsSibling h
  rw [children_of_properties hp]
  exact ⟨rfl, Properties.children_of_withChildList? hp'⟩

theorem placedChildren_of_addAsChild {parent n updated : Node}
    (h : addAsChild (some parent) n = .applied updated) :
    updated.type = parent.type ∧
      ∃ beside old, (∀ placed ∈ beside, placed.1.field ≠ "child") ∧
        parent.placedChildren = beside ++ Properties.slot "child" old ∧
        updated.placedChildren =
          beside ++ Properties.slot "child" (some n.withDefaultText) := by
  obtain ⟨p, p', hp, hp', rfl⟩ := exists_of_addAsChild h
  simp only [placedChildren, hp]
  exact ⟨trivial, Properties.placedChildren_of_withChild? hp'⟩

/-! ## Exchanging children -/

theorem children_mapChildren (n : Node) (f : Nat → Node → Node) :
    (n.mapChildren f).children = n.children.mapIdx f := by
  unfold mapChildren children
  cases n.properties with
  | none => rfl
  | some p => exact p.children_mapIdx f

@[simp] theorem type_setChild (n : Node) (position : Nat) (child : Node) :
    (n.setChild position child).type = n.type := rfl

@[simp] theorem children_setChild (n : Node) (position : Nat) (child : Node) :
    (n.setChild position child).children = n.children.set position child := by
  rw [setChild, children_mapChildren]
  apply List.ext_getElem
  · rw [List.length_mapIdx, List.length_set]
  · intro i _ _
    simp [List.getElem_set, eq_comm]

theorem getElem?_children_setChild {n c : Node} {i : Nat} (hc : n.children[i]? = some c)
    (c' : Node) : (n.setChild i c').children[i]? = some c' := by
  rw [children_setChild, List.getElem?_set_self (List.getElem?_eq_some_iff.mp hc).1]

theorem getElem?_children_setChild_ne {n : Node} {i j : Nat} (hij : i ≠ j) (c : Node) :
    (n.setChild i c).children[j]? = n.children[j]? := by
  rw [children_setChild, List.getElem?_set_ne hij]

/-! ## Addresses -/

theorem at?_cons_eq_some {n m : Node} {position : Nat} {rest : List Nat} :
    n.at? (position :: rest) = some m ↔
      ∃ c, n.children[position]? = some c ∧ c.at? rest = some m :=
  Option.bind_eq_some_iff

theorem at?_append (n : Node) (a b : List Nat) : n.at? (a ++ b) = (n.at? a).bind (·.at? b) := by
  induction a generalizing n with
  | nil => rfl
  | cons position rest ih =>
    rw [List.cons_append, at?, at?, Option.bind_assoc]
    exact Option.bind_congr fun c _ => ih c

/-! ## Replacement -/

theorem replaceAt?_cons_eq_some {n r t : Node} {position : Nat} {rest : List Nat} :
    n.replaceAt? (position :: rest) r = some t ↔
      ∃ c, n.children[position]? = some c ∧
        ∃ c', c.replaceAt? rest r = some c' ∧ n.setChild position c' = t := by
  simp [replaceAt?, Option.bind_eq_some_iff]

theorem replaceAt?_cons {n c : Node} {i : Nat} (hc : n.children[i]? = some c) (rest : List Nat)
    (r : Node) : n.replaceAt? (i :: rest) r = (c.replaceAt? rest r).map (n.setChild i) := by
  rw [replaceAt?, hc]
  exact Option.map_eq_bind.symm

theorem exists_replaceAt? {n m : Node} {address : List Nat} (hm : n.at? address = some m)
    (r : Node) : ∃ t, n.replaceAt? address r = some t := by
  induction address generalizing n with
  | nil => exact ⟨r, rfl⟩
  | cons position rest ih =>
    obtain ⟨c, hc, hm⟩ := at?_cons_eq_some.mp hm
    obtain ⟨c', hc'⟩ := ih hm
    exact ⟨n.setChild position c', replaceAt?_cons_eq_some.mpr ⟨c, hc, c', hc', rfl⟩⟩

theorem replaceAt?_concat {n m c : Node} {address : List Nat} {position : Nat}
    (hm : n.at? address = some m) (hc : m.children[position]? = some c) (r : Node) :
    n.replaceAt? (address ++ [position]) r = n.replaceAt? address (m.setChild position r) := by
  induction address generalizing n with
  | nil =>
    cases hm
    simp [replaceAt?, hc]
  | cons first rest ih =>
    obtain ⟨d, hd, hm⟩ := at?_cons_eq_some.mp hm
    rw [List.cons_append, replaceAt?, replaceAt?, hd]
    simp only [Option.bind_eq_bind, Option.bind_some, ih hm]

theorem type_of_replaceAt?_cons {n r t : Node} {position : Nat} {rest : List Nat}
    (h : n.replaceAt? (position :: rest) r = some t) : t.type = n.type := by
  obtain ⟨c, -, c', -, rfl⟩ := replaceAt?_cons_eq_some.mp h
  rfl

end Node

end ScreenDoc
