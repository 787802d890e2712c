import ScreenDoc.Modifier
import ScreenDoc.Node.Properties

/-!
# Nodes

A node owns its children through its payload and knows nothing of its parent. Functions on trees
recurse over `children`; `Node.induction` is the matching principle of proof.
-/

namespace ScreenDoc

structure Node where
  type : NodeType
  properties : Option (Properties Node) := none
  modifier : Modifier := {}
  deriving Inhabited

namespace Properties

theorem sizeOf_lt_of_mem_slot {α : Type} [SizeOf α] {slot : Option α} {c : α}
    (h : c ∈ slot.toList) : sizeOf c < sizeOf slot := by
  obtain rfl := Option.mem_toList.mp h
  simp

theorem sizeOf_child_lt {α : Type} [SizeOf α] {p : Properties α} {c : α} (h : c ∈ p.children) :
    sizeOf c < sizeOf p := by
  cases p with
  | column p | row p | box p =>
    have := List.sizeOf_lt_of_mem (show c ∈ p.children from h)
    cases p
    simp at this ⊢
    omega
  | button p | card p =>
    have := sizeOf_lt_of_mem_slot (show c ∈ p.child.toList from h)
    cases p
    simp at this ⊢
    omega
  | scaffold p =>
    cases p
    simp only [children, List.mem_append] at h
    rcases h with (h | h) | h
    all_goals
      have := sizeOf_lt_of_mem_slot h
      simp
      omega
  | topAppBar p =>
    cases p
    simp only [children, List.mem_append] at h
    rcases h with (h | h) | h
    · have := sizeOf_lt_of_mem_slot h
      simp
      omega
    · have := sizeOf_lt_of_mem_slot h
      simp
      omega
    · have := List.sizeOf_lt_of_mem h
      simp
      omega
  | alertDialog p =>
    cases p
    simp only [children, List.mem_append] at h
    rcases h with ((h | h) | h) | h
    all_goals
      have := sizeOf_lt_of_mem_slot h
      simp
      omega
  | text p | image p | textField p | switch p | checkbox p | custom p => cases h

end Properties

namespace Node

def children (n : Node) : List Node :=
  match n.properties with
  | some p => p.children
  | none => []

def placedChildren (n : Node) : List (ChildPlace × Node) :=
  match n.properties with
  | some p => p.placedChildren
  | none => []

theorem map_snd_placedChildren (n : Node) : n.placedChildren.map Prod.snd = n.children := by
  unfold placedChildren children
  split
  · exact Properties.map_snd_placedChildren _
  · rfl

theorem mem_children_of_placed {n c : Node} {place : ChildPlace}
    (h : (place, c) ∈ n.placedChildren) : c ∈ n.children := by
  rw [← map_snd_placedChildren]
  exact List.mem_map_of_mem h

theorem sizeOf_child_lt {n c : Node} (h : c ∈ n.children) : sizeOf c < sizeOf n := by
  obtain ⟨type, properties, modifier⟩ := n
  cases properties with
  | none => cases h
  | some p =>
    have := Properties.sizeOf_child_lt (show c ∈ p.children from h)
    simp
    omega

/-- What holds of a node as soon as it holds of its children holds of every node. -/
theorem induction {motive : Node → Prop}
    (node : ∀ n, (∀ c ∈ n.children, motive c) → motive n) (n : Node) : motive n :=
  node n fun c _ => induction node c
termination_by sizeOf n
decreasing_by
  rename_i h
  exact sizeOf_child_lt h

def plainText (text : String) : Node :=
  { type := .text, properties := some (.text { text := some text }) }

def column (children : List Node) : Node :=
  { type := .column, properties := some (.column { children }) }

def row (children : List Node) : Node :=
  { type := .row, properties := some (.row { children }) }

def button (child : Option Node) (onClick : Option String) : Node :=
  { type := .button, properties := some (.button { child, onClick }) }

def textValue (n : Node) : Option String :=
  match n.properties with
  | some (.text p) => p.text
  | _ => none

/-- The node with other children in the places of its own. -/
def mapChildren (f : Nat → Node → Node) (n : Node) : Node :=
  { n with properties := n.properties.map (Properties.mapIdx f) }

/-- Equality of trees, in which the two zeros of a double are equal. -/
def same (a b : Node) : Bool :=
  a.type == b.type && a.modifier.same b.modifier
    && (match a.properties, b.properties with
      | some p, some q => Properties.sameShell p.shell q.shell
      | none, none => true
      | _, _ => false)
    && (a.children.attach.zip b.children).all fun (⟨x, _⟩, y) => same x y
termination_by sizeOf a
decreasing_by exact sizeOf_child_lt ‹_›

instance : BEq Node := ⟨same⟩

end Node

end ScreenDoc
