import Mathlib.Algebra.Order.Field.Basic
import Mathlib.Algebra.Order.Ring.Rat
import Mathlib.Data.Rat.Cast.Order
import ScreenDoc.Proofs.Binary64.Rounding
import ScreenDoc.Proofs.Node.Located
import ScreenDoc.Proofs.Finding
import ScreenDoc.Proofs.Validate.Paths

/-!
# The rules on nodes

What a node has to keep, said without the checks: `Node.Breaks` relates a node to the rules that it
breaks, and a rule says where and with which code its breach is reported. The checks on a node
report the broken rules one by one, and the place and code of a finding determine node and rule.
-/

namespace ScreenDoc

def Binary64.toRat (x : Binary64) : ℚ :=
  (if x.negative then -(x.units : ℚ) else x.units) / (twoPow 1074 : ℕ)

private theorem Binary64.units_eq_zero_iff {x : Binary64} : x.units = 0 ↔ x.mantissa = 0 := by
  have hpow : twoPow x.scale ≠ 0 := (twoPow_pos x.scale).ne'
  simp [units, hpow]

theorem Binary64.inUnitInterval_iff {x : Binary64} :
    x.inUnitInterval = true ↔ 0 ≤ x.toRat ∧ x.toRat ≤ 1 := by
  have hone : (0 : ℚ) < (twoPow 1074 : ℕ) := Nat.cast_pos.mpr (twoPow_pos 1074)
  have hzero : x.isZero = true ↔ x.units = 0 := by
    rw [units_eq_zero_iff, isZero, beq_iff_eq]
  rw [inUnitInterval, toRat, Bool.or_eq_true, hzero, div_le_one hone,
    le_div_iff₀ hone, zero_mul]
  cases x.negative with
  | false =>
    simp only [Bool.not_false, Bool.true_and, decide_eq_true_eq, Bool.false_eq_true, if_false,
      Nat.cast_nonneg, true_and, Nat.cast_le]
    constructor
    · rintro (h | h)
      · omega
      · exact h
    · exact Or.inr
  | true =>
    simp only [Bool.not_true, Bool.false_and, Bool.false_eq_true, or_false, if_true,
      neg_nonneg, Nat.cast_nonpos]
    refine ⟨fun h => ⟨h, ?_⟩, And.left⟩
    rw [h, Nat.cast_zero, neg_zero]
    exact hone.le

/-- What is no number and what is infinite lies outside. -/
theorem Binary64.Extended.inUnitInterval_iff {x : Extended} :
    x.inUnitInterval = true ↔ ∃ value, x = .finite value ∧ 0 ≤ value.toRat ∧ value.toRat ≤ 1 := by
  cases x with
  | finite x => simp [inUnitInterval, Binary64.inUnitInterval_iff]
  | infinite negative => simp [inUnitInterval]
  | nan => simp [inUnitInterval]

def IsColor (s : String) : Prop :=
  ∃ digits : List Char, s.toList = '#' :: digits ∧ digits.length = 8 ∧
    ∀ c ∈ digits, Rules.isHexDigit c = true

theorem isHexColor_iff {s : String} : Rules.isHexColor s = true ↔ IsColor s := by
  unfold Rules.isHexColor IsColor
  split
  · rename_i digits hs
    simp [hs]
  · rename_i hs
    simp only [Bool.false_eq_true, false_iff, not_exists, not_and]
    intro digits hdigits
    exact absurd hdigits (hs digits)

def Shape.HasNegativeCorner (s : Shape) : Prop :=
  ∃ radii, s = roundedCorner radii ∧ ∃ r ∈ radii.resolved, r.toInt < 0

namespace Operation

/-- A measure of the operation lies outside its range. An alpha that is infinite or no number lies
outside as well. -/
def OutOfRange : Operation → Prop
  | padding value => value.toInt < 0
  | width value => value.toInt < 0
  | height value => value.toInt < 0
  | border thickness _ => thickness.toInt < 0
  | shadow elevation => elevation.toInt < 0
  | clip shape => shape.HasNegativeCorner
  | background _ shape => shape.HasNegativeCorner
  | alpha value => ¬∃ x, value = .finite x ∧ 0 ≤ x.toRat ∧ x.toRat ≤ 1
  | _ => False

/-- The color that the operation paints with. -/
def color? : Operation → Option String
  | backgroundColor color => some color
  | border _ color => some color
  | background color _ => some color
  | _ => none

end Operation

/-- What a node can break; rules on an operation name its position in the modifier. -/
inductive Rule where
  | payload
  | leaf
  | verticalArrangement
  | horizontalArrangement
  | verticalAlignment
  | horizontalAlignment
  | contentAlignment
  | color
  | measure (operation : Nat)
  | operationColor (operation : Nat)
  deriving DecidableEq

namespace Rule

def path (node : Path) : Rule → Path
  | payload => node.properties
  | leaf => node
  | verticalArrangement => node.properties.field "verticalArrangement"
  | horizontalArrangement => node.properties.field "horizontalArrangement"
  | verticalAlignment => node.properties.field "verticalAlignment"
  | horizontalAlignment => node.properties.field "horizontalAlignment"
  | contentAlignment => node.properties.field "contentAlignment"
  | color => node.properties.field "color"
  | measure operation => node.operation operation
  | operationColor operation => node.operation operation

def code : Rule → ErrorCode
  | payload => .propertiesTypeMismatch
  | leaf => .childrenOnLeafNode
  | verticalArrangement => .invalidArrangement
  | horizontalArrangement => .invalidArrangement
  | verticalAlignment => .invalidAlignment
  | horizontalAlignment => .invalidAlignment
  | contentAlignment => .invalidAlignment
  | color => .invalidHexColor
  | measure _ => .modifierValueOutOfRange
  | operationColor _ => .invalidHexColor

/-- The path and code of a finding about a breach by the node at this path. -/
def key (node : Path) (rule : Rule) : String × ErrorCode :=
  ((rule.path node).text, rule.code)

theorem isPlain_path {node : Path} (h : node.IsPlain) (rule : Rule) : (rule.path node).IsPlain := by
  cases rule <;>
    simp only [path, Path.operation, Path.modifier, Path.properties, Path.IsPlain, h, true_and] <;>
    decide

theorem key_injective {p q : Path} {a b : Rule} (hp : p.IsPlain) (hq : q.IsPlain)
    (h : a.key p = b.key q) : p = q ∧ a = b := by
  obtain ⟨htext, hcode⟩ := Prod.mk.inj h
  have hpath := Path.text_injective (isPlain_path hp a) (isPlain_path hq b) htext
  cases a <;> cases b <;>
    simp_all [path, code, Path.operation, Path.modifier, Path.properties]

end Rule

/-- The node breaks the rule. -/
inductive Node.Breaks (n : Node) : Rule → Prop where
  | payload {p : Properties Node} (hp : n.properties = some p) (htag : p.tag ≠ n.type.payloadTag) :
    n.Breaks .payload
  | leaf (hleaf : n.type.isLeaf = true) (hchildren : n.children ≠ []) : n.Breaks .leaf
  | verticalArrangement {p : ColumnProps Node} {word : String}
    (hp : n.properties = some (.column p)) (hword : p.verticalArrangement = some word)
    (hnot : word ∉ Rules.columnVerticalArrangements) : n.Breaks .verticalArrangement
  | horizontalAlignment {p : ColumnProps Node} {word : String}
    (hp : n.properties = some (.column p)) (hword : p.horizontalAlignment = some word)
    (hnot : word ∉ Rules.columnHorizontalAlignments) : n.Breaks .horizontalAlignment
  | horizontalArrangement {p : RowProps Node} {word : String}
    (hp : n.properties = some (.row p)) (hword : p.horizontalArrangement = some word)
    (hnot : word ∉ Rules.rowHorizontalArrangements) : n.Breaks .horizontalArrangement
  | verticalAlignment {p : RowProps Node} {word : String}
    (hp : n.properties = some (.row p)) (hword : p.verticalAlignment = some word)
    (hnot : word ∉ Rules.rowVerticalAlignments) : n.Breaks .verticalAlignment
  | contentAlignment {p : BoxProps Node} {word : String}
    (hp : n.properties = some (.box p)) (hword : p.contentAlignment = some word)
    (hnot : word ∉ Rules.boxContentAlignments) : n.Breaks .contentAlignment
  | color {p : TextProps} {color : String} (hp : n.properties = some (.text p))
    (hcolor : p.color = some color) (hnot : ¬IsColor color) : n.Breaks .color
  | measure {i : Nat} {o : Operation} (ho : n.modifier.operations[i]? = some o)
    (hrange : o.OutOfRange) : n.Breaks (.measure i)
  | operationColor {i : Nat} {o : Operation} {color : String}
    (ho : n.modifier.operations[i]? = some o) (hcolor : o.color? = some color)
    (hnot : ¬IsColor color) : n.Breaks (.operationColor i)

end ScreenDoc
