/-!
# Node types

The closed set of node types and their written names. Each type has one payload that belongs to
it, whose tag is the type's name with `Props` behind it.
-/

namespace ScreenDoc

inductive NodeType where
  | column
  | row
  | box
  | text
  | image
  | textField
  | switch
  | checkbox
  | button
  | card
  | scaffold
  | topAppBar
  | alertDialog
  | custom
  deriving DecidableEq, Inhabited

namespace NodeType

def all : List NodeType :=
  [column, row, box, text, image, textField, switch, checkbox, button, card, scaffold, topAppBar,
    alertDialog, custom]

/-- All node types, in the order in which their payloads are listed. -/
def payloadOrder : List NodeType :=
  [text, image, textField, switch, checkbox, column, row, box, button, card, scaffold, topAppBar,
    alertDialog, custom]

def name : NodeType → String
  | column => "Column"
  | row => "Row"
  | box => "Box"
  | text => "Text"
  | image => "Image"
  | textField => "TextField"
  | switch => "Switch"
  | checkbox => "Checkbox"
  | button => "Button"
  | card => "Card"
  | scaffold => "Scaffold"
  | topAppBar => "TopAppBar"
  | alertDialog => "AlertDialog"
  | custom => "Custom"

def payloadTag : NodeType → String
  | column => "ColumnProps"
  | row => "RowProps"
  | box => "BoxProps"
  | text => "TextProps"
  | image => "ImageProps"
  | textField => "TextFieldProps"
  | switch => "SwitchProps"
  | checkbox => "CheckboxProps"
  | button => "ButtonProps"
  | card => "CardProps"
  | scaffold => "ScaffoldProps"
  | topAppBar => "TopAppBarProps"
  | alertDialog => "AlertDialogProps"
  | custom => "CustomProps"

def named? (s : String) : Option NodeType :=
  all.find? fun t => t.name == s

def ofPayloadTag? (s : String) : Option NodeType :=
  payloadOrder.find? fun t => t.payloadTag == s

/-- Leaf types never hold children. -/
def isLeaf : NodeType → Bool
  | text | image | textField | switch | checkbox => true
  | _ => false

def isText (t : NodeType) : Bool :=
  t == text

def payloadFields : NodeType → List String
  | text => ["text", "fontSize", "fontWeight", "color", "maxLines"]
  | image => ["url", "contentDescription", "contentScale"]
  | textField => ["value", "label", "placeholder", "stateKey"]
  | switch => ["checked", "stateKey", "onCheckedChange"]
  | checkbox => ["checked", "stateKey", "onCheckedChange"]
  | column => ["children", "verticalArrangement", "horizontalAlignment"]
  | row => ["children", "horizontalArrangement", "verticalAlignment"]
  | box => ["children", "contentAlignment"]
  | button => ["child", "onClick", "enabled"]
  | card => ["child", "elevation", "onClick"]
  | scaffold => ["topBar", "bottomBar", "child"]
  | topAppBar => ["title", "navigationIcon", "actions"]
  | alertDialog => ["title", "text", "confirmButton", "dismissButton", "onDismissRequest"]
  | custom => ["customType", "data"]

end NodeType

end ScreenDoc
