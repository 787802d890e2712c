/-!
# Fixed rules

The words allowed for arrangements and alignments, the form of colors, and the keys under which a
payload may hold children whatever its tag.
-/

namespace ScreenDoc.Rules

/-- Keys whose values may hold child nodes, in any payload. -/
def childKeys : List String :=
  ["child", "children", "actions", "topBar", "bottomBar", "title", "text", "navigationIcon",
    "confirmButton", "dismissButton", "label", "icon"]

def columnVerticalArrangements : List String :=
  ["Top", "Bottom", "Center", "SpaceBetween", "SpaceAround", "SpaceEvenly"]

def columnHorizontalAlignments : List String :=
  ["Start", "CenterHorizontally", "End"]

def rowHorizontalArrangements : List String :=
  ["Start", "End", "Center", "SpaceBetween", "SpaceAround", "SpaceEvenly"]

def rowVerticalAlignments : List String :=
  ["Top", "CenterVertically", "Bottom"]

def boxContentAlignments : List String :=
  ["TopStart", "TopCenter", "TopEnd", "CenterStart", "Center", "CenterEnd", "BottomStart",
    "BottomCenter", "BottomEnd"]

def isHexDigit (c : Char) : Bool :=
  ('0' ≤ c && c ≤ '9') || ('a' ≤ c && c ≤ 'f') || ('A' ≤ c && c ≤ 'F')

/-- A hash and eight hexadecimal digits: alpha, red, green and blue. -/
def isHexColor (s : String) : Bool :=
  match s.toList with
  | '#' :: digits => digits.length == 8 && digits.all isHexDigit
  | _ => false

end ScreenDoc.Rules
