import ScreenDoc.Json.Value
import ScreenDoc.Node.Type

/-!
# Payloads

What a node carries besides its type: one payload of fourteen, each with its own fields. Payloads
are parametric in what stands in their child slots, so that one definition serves trees of nodes,
payloads whose children are not read yet and payloads whose children are already written.
`mapIdx` is the one traversal; children are numbered in id order, slots as declared and lists in
order.
-/

namespace ScreenDoc

structure TextProps where
  text : Option String := none
  fontSize : Option Int32 := none
  fontWeight : Option String := none
  color : Option String := none
  maxLines : Option UInt32 := none
  deriving DecidableEq, Inhabited

structure ImageProps where
  url : Option String := none
  contentDescription : Option String := none
  contentScale : Option String := none
  deriving DecidableEq, Inhabited

/-- A text input, bound to the state named by `stateKey`. -/
structure TextFieldProps where
  value : Option String := none
  label : Option String := none
  placeholder : Option String := none
  stateKey : Option String := none
  deriving DecidableEq, Inhabited

/-- The payload of both switches and checkboxes. -/
structure ToggleProps where
  checked : Option Bool := none
  stateKey : Option String := none
  /-- The behavior invoked after the checked state flips. -/
  onCheckedChange : Option String := none
  deriving DecidableEq, Inhabited

structure ColumnProps (α : Type) where
  children : List α := []
  verticalArrangement : Option String := none
  horizontalAlignment : Option String := none
  deriving DecidableEq, Inhabited

structure RowProps (α : Type) where
  children : List α := []
  horizontalArrangement : Option String := none
  verticalAlignment : Option String := none
  deriving DecidableEq, Inhabited

structure BoxProps (α : Type) where
  children : List α := []
  contentAlignment : Option String := none
  deriving DecidableEq, Inhabited

structure ButtonProps (α : Type) where
  child : Option α := none
  /-- The behavior invoked on a click. -/
  onClick : Option String := none
  enabled : Option Bool := none
  deriving DecidableEq, Inhabited

structure CardProps (α : Type) where
  child : Option α := none
  elevation : Option Int32 := none
  onClick : Option String := none
  deriving DecidableEq, Inhabited

/-- The frame of a screen: optional bars around the content. -/
structure ScaffoldProps (α : Type) where
  topBar : Option α := none
  bottomBar : Option α := none
  child : Option α := none
  deriving DecidableEq, Inhabited

structure TopAppBarProps (α : Type) where
  title : Option α := none
  navigationIcon : Option α := none
  actions : List α := []
  deriving DecidableEq, Inhabited

structure AlertDialogProps (α : Type) where
  title : Option α := none
  text : Option α := none
  confirmButton : Option α := none
  dismissButton : Option α := none
  onDismissRequest : Option String := none
  deriving DecidableEq, Inhabited

/-- The opaque payload of nodes that something else draws. -/
structure CustomProps where
  customType : String
  data : Json.Map := ∅
  deriving Inhabited

/-- A payload with `α` in its child slots. -/
inductive Properties (α : Type) where
  | text (props : TextProps)
  | image (props : ImageProps)
  | textField (props : TextFieldProps)
  | switch (props : ToggleProps)
  | checkbox (props : ToggleProps)
  | column (props : ColumnProps α)
  | row (props : RowProps α)
  | box (props : BoxProps α)
  | button (props : ButtonProps α)
  | card (props : CardProps α)
  | scaffold (props : ScaffoldProps α)
  | topAppBar (props : TopAppBarProps α)
  | alertDialog (props : AlertDialogProps α)
  | custom (props : CustomProps)
  deriving Inhabited

/-- Where a child stands in its payload: a field, or an item of a field that holds a list. -/
structure ChildPlace where
  field : String
  index : Option Nat
  deriving DecidableEq

namespace Properties

variable {α β : Type}

def type : Properties α → NodeType
  | text _ => .text
  | image _ => .image
  | textField _ => .textField
  | switch _ => .switch
  | checkbox _ => .checkbox
  | column _ => .column
  | row _ => .row
  | box _ => .box
  | button _ => .button
  | card _ => .card
  | scaffold _ => .scaffold
  | topAppBar _ => .topAppBar
  | alertDialog _ => .alertDialog
  | custom _ => .custom

def tag (p : Properties α) : String :=
  p.type.payloadTag

def childList? : Properties α → Option (List α)
  | column p => some p.children
  | row p => some p.children
  | box p => some p.children
  | _ => none

/-- The payload with another child list, if it has one. -/
def withChildList? (children : List α) : Properties α → Option (Properties α)
  | column p => some (column { p with children })
  | row p => some (row { p with children })
  | box p => some (box { p with children })
  | _ => none

/-- The payload with its single child slot filled, if it has one. -/
def withChild? (child : α) : Properties α → Option (Properties α)
  | button p => some (button { p with child := some child })
  | card p => some (card { p with child := some child })
  | scaffold p => some (scaffold { p with child := some child })
  | _ => none

def slot (field : String) (child : Option α) : List (ChildPlace × α) :=
  child.toList.map fun c => (⟨field, none⟩, c)

def listed (field : String) (children : List α) : List (ChildPlace × α) :=
  children.zipIdx.map fun (c, i) => (⟨field, some i⟩, c)

def placedChildren : Properties α → List (ChildPlace × α)
  | column p => listed "children" p.children
  | row p => listed "children" p.children
  | box p => listed "children" p.children
  | button p => slot "child" p.child
  | card p => slot "child" p.child
  | scaffold p => slot "topBar" p.topBar ++ slot "bottomBar" p.bottomBar ++ slot "child" p.child
  | topAppBar p =>
    slot "title" p.title ++ slot "navigationIcon" p.navigationIcon ++ listed "actions" p.actions
  | alertDialog p =>
    slot "title" p.title ++ slot "text" p.text ++ slot "confirmButton" p.confirmButton
      ++ slot "dismissButton" p.dismissButton
  | _ => []

def children : Properties α → List α
  | column p => p.children
  | row p => p.children
  | box p => p.children
  | button p => p.child.toList
  | card p => p.child.toList
  | scaffold p => p.topBar.toList ++ p.bottomBar.toList ++ p.child.toList
  | topAppBar p => p.title.toList ++ p.navigationIcon.toList ++ p.actions
  | alertDialog p =>
    p.title.toList ++ p.text.toList ++ p.confirmButton.toList ++ p.dismissButton.toList
  | _ => []

theorem map_snd_listed (field : String) (cs : List α) : (listed field cs).map Prod.snd = cs := by
  simp [listed, List.map_map, Function.comp_def, List.zipIdx_map_fst]

theorem map_snd_slot (field : String) (c : Option α) : (slot field c).map Prod.snd = c.toList := by
  cases c <;> rfl

theorem map_snd_placedChildren (p : Properties α) : p.placedChildren.map Prod.snd = p.children := by
  cases p <;> simp [placedChildren, children, map_snd_listed, map_snd_slot]

theorem forall_mem_slot {P : ChildPlace × α → Prop} {key : String} {child : Option α} :
    (∀ placed ∈ slot key child, P placed) ↔ ∀ c ∈ child, P (⟨key, none⟩, c) := by
  simp [slot]

theorem forall_mem_listed {P : ChildPlace × α → Prop} {key : String} {items : List α}
    (h : ∀ c ∈ items, ∀ i, P (⟨key, some i⟩, c)) : ∀ placed ∈ listed key items, P placed := by
  intro placed hplaced
  obtain ⟨⟨c, i⟩, hc, rfl⟩ := List.mem_map.mp hplaced
  exact h c (List.fst_mem_of_mem_zipIdx hc) i

def hasChildren (p : Properties α) : Bool :=
  !p.children.isEmpty

/-- The number of children in some slots. -/
def filled (slots : List (Option α)) : Nat :=
  (slots.filter Option.isSome).length

/-- Puts `f i c` in the place of the child `c` that has number `i`. -/
def mapIdx (f : Nat → α → β) : Properties α → Properties β
  | text p => text p
  | image p => image p
  | textField p => textField p
  | switch p => switch p
  | checkbox p => checkbox p
  | column p => column ⟨p.children.mapIdx f, p.verticalArrangement, p.horizontalAlignment⟩
  | row p => row ⟨p.children.mapIdx f, p.horizontalArrangement, p.verticalAlignment⟩
  | box p => box ⟨p.children.mapIdx f, p.contentAlignment⟩
  | button p => button ⟨p.child.map (f 0), p.onClick, p.enabled⟩
  | card p => card ⟨p.child.map (f 0), p.elevation, p.onClick⟩
  | scaffold p =>
    scaffold ⟨p.topBar.map (f 0), p.bottomBar.map (f (filled [p.topBar])),
      p.child.map (f (filled [p.topBar, p.bottomBar]))⟩
  | topAppBar p =>
    topAppBar ⟨p.title.map (f 0), p.navigationIcon.map (f (filled [p.title])),
      p.actions.mapIdx fun i => f (filled [p.title, p.navigationIcon] + i)⟩
  | alertDialog p =>
    alertDialog ⟨p.title.map (f 0), p.text.map (f (filled [p.title])),
      p.confirmButton.map (f (filled [p.title, p.text])),
      p.dismissButton.map (f (filled [p.title, p.text, p.confirmButton])), p.onDismissRequest⟩
  | custom p => custom p

def map (f : α → β) (p : Properties α) : Properties β :=
  p.mapIdx fun _ => f

/-- Every child in its place by a function that may fail; none if it fails for some child. -/
def traverse (f : α → Option β) : Properties α → Option (Properties β)
  | text p => some (text p)
  | image p => some (image p)
  | textField p => some (textField p)
  | switch p => some (switch p)
  | checkbox p => some (checkbox p)
  | column p => do
    some (column ⟨← p.children.mapM f, p.verticalArrangement, p.horizontalAlignment⟩)
  | row p => do some (row ⟨← p.children.mapM f, p.horizontalArrangement, p.verticalAlignment⟩)
  | box p => do some (box ⟨← p.children.mapM f, p.contentAlignment⟩)
  | button p => do some (button ⟨← p.child.mapM f, p.onClick, p.enabled⟩)
  | card p => do some (card ⟨← p.child.mapM f, p.elevation, p.onClick⟩)
  | scaffold p => do
    some (scaffold ⟨← p.topBar.mapM f, ← p.bottomBar.mapM f, ← p.child.mapM f⟩)
  | topAppBar p => do
    some (topAppBar ⟨← p.title.mapM f, ← p.navigationIcon.mapM f, ← p.actions.mapM f⟩)
  | alertDialog p => do
    some (alertDialog ⟨← p.title.mapM f, ← p.text.mapM f, ← p.confirmButton.mapM f,
      ← p.dismissButton.mapM f, p.onDismissRequest⟩)
  | custom p => some (custom p)

/-- The payload with its children left out. -/
def shell (p : Properties α) : Properties Unit :=
  p.map fun _ => ()

/-- Whether two payloads agree in everything but their children. -/
def sameShell : Properties Unit → Properties Unit → Bool
  | text p, text q => p == q
  | image p, image q => p == q
  | textField p, textField q => p == q
  | switch p, switch q => p == q
  | checkbox p, checkbox q => p == q
  | column p, column q => p == q
  | row p, row q => p == q
  | box p, box q => p == q
  | button p, button q => p == q
  | card p, card q => p == q
  | scaffold p, scaffold q => p == q
  | topAppBar p, topAppBar q => p == q
  | alertDialog p, alertDialog q => p == q
  | custom p, custom q =>
    p.customType == q.customType && Json.sameFields p.data.fields q.data.fields
  | _, _ => false

/-- Every child with the proof that it is one. -/
def attach (p : Properties α) : Properties { c : α // c ∈ p.children } :=
  match p with
  | text p => text p
  | image p => image p
  | textField p => textField p
  | switch p => switch p
  | checkbox p => checkbox p
  | column p => column ⟨p.children.attach, p.verticalArrangement, p.horizontalAlignment⟩
  | row p => row ⟨p.children.attach, p.horizontalArrangement, p.verticalAlignment⟩
  | box p => box ⟨p.children.attach, p.contentAlignment⟩
  | button ⟨child, onClick, enabled⟩ =>
    button ⟨child.attach.map fun c => ⟨c.1, by simp [children, c.2]⟩, onClick, enabled⟩
  | card ⟨child, elevation, onClick⟩ =>
    card ⟨child.attach.map fun c => ⟨c.1, by simp [children, c.2]⟩, elevation, onClick⟩
  | scaffold ⟨topBar, bottomBar, child⟩ =>
    scaffold ⟨topBar.attach.map fun c => ⟨c.1, by simp [children, c.2]⟩,
      bottomBar.attach.map fun c => ⟨c.1, by simp [children, c.2]⟩,
      child.attach.map fun c => ⟨c.1, by simp [children, c.2]⟩⟩
  | topAppBar ⟨title, icon, actions⟩ =>
    topAppBar ⟨title.attach.map fun c => ⟨c.1, by simp [children, c.2]⟩,
      icon.attach.map fun c => ⟨c.1, by simp [children, c.2]⟩,
      actions.attach.map fun c => ⟨c.1, by simp [children, c.2]⟩⟩
  | alertDialog ⟨title, body, confirm, dismiss, onDismiss⟩ =>
    alertDialog ⟨title.attach.map fun c => ⟨c.1, by simp [children, c.2]⟩,
      body.attach.map fun c => ⟨c.1, by simp [children, c.2]⟩,
      confirm.attach.map fun c => ⟨c.1, by simp [children, c.2]⟩,
      dismiss.attach.map fun c => ⟨c.1, by simp [children, c.2]⟩, onDismiss⟩
  | custom p => custom p

end Properties

end ScreenDoc
