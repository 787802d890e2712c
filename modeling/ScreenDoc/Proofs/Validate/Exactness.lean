import ScreenDoc.Proofs.Validate.Rule
import ScreenDoc.Proofs.Validate.Walk

/-!
# Exactly the broken rules

The findings of a tree are the breaches of its nodes, each of them once. The walk meets every row
of the tree at an address of its own, reports the rules broken there, and no two reports share
path and code, so that dropping repeats drops nothing.
-/

namespace ScreenDoc

open Finding (key)

/-! ## Broken rules, in the order of the checks -/

def Rule.when (rule : Rule) : Bool → List Rule
  | true => [rule]
  | false => []

theorem Rule.when_sublist (rule : Rule) (broken : Bool) : (rule.when broken).Sublist [rule] := by
  cases broken with
  | true => exact List.Sublist.refl _
  | false => exact List.nil_sublist _

theorem Rule.mem_when {rule other : Rule} {broken : Bool} :
    other ∈ rule.when broken ↔ other = rule ∧ broken = true := by
  cases broken <;> simp [Rule.when]

/-- The rule, if the word is not an allowed one. -/
def Rule.forWord (rule : Rule) (value : Option String) (allowed : List String) : List Rule :=
  rule.when (value.any fun word => !allowed.contains word)

/-- The rule, if the color is not written as one. -/
def Rule.forColor (rule : Rule) (color : Option String) : List Rule :=
  rule.when (color.any fun color => !Rules.isHexColor color)

/-- The broken rules on words and color of a payload. -/
def Properties.brokenRules {α : Type} : Properties α → List Rule
  | column p =>
    Rule.verticalArrangement.forWord p.verticalArrangement Rules.columnVerticalArrangements
      ++ Rule.horizontalAlignment.forWord p.horizontalAlignment Rules.columnHorizontalAlignments
  | row p =>
    Rule.horizontalArrangement.forWord p.horizontalArrangement Rules.rowHorizontalArrangements
      ++ Rule.verticalAlignment.forWord p.verticalAlignment Rules.rowVerticalAlignments
  | box p => Rule.contentAlignment.forWord p.contentAlignment Rules.boxContentAlignments
  | text p => Rule.color.forColor p.color
  | _ => []

def Shape.hasNegativeCorner : Shape → Bool
  | roundedCorner radii => (radii.resolved.find? fun r => decide (r < 0)).isSome
  | _ => false

def Operation.isOutOfRange : Operation → Bool
  | padding value => value < 0
  | width value => value < 0
  | height value => value < 0
  | border thickness _ => thickness < 0
  | shadow elevation => elevation < 0
  | clip shape => shape.hasNegativeCorner
  | background _ shape => shape.hasNegativeCorner
  | alpha value => !value.inUnitInterval
  | _ => false

/-- The broken rules on the operation at this position; a background is asked for its color first,
all others for their measure. -/
def Operation.brokenRules (o : Operation) (i : Nat) : List Rule :=
  match o with
  | background _ _ =>
    (Rule.operationColor i).forColor o.color? ++ (Rule.measure i).when o.isOutOfRange
  | _ => (Rule.measure i).when o.isOutOfRange ++ (Rule.operationColor i).forColor o.color?

def Node.brokenRules (n : Node) : List Rule :=
  (match n.properties with
    | none => []
    | some p =>
      Rule.payload.when (p.type != n.type) ++ Rule.leaf.when (n.type.isLeaf && p.hasChildren)
        ++ p.brokenRules)
  ++ n.modifier.operations.zipIdx.flatMap fun o => o.1.brokenRules o.2

/-! ## The checks report the broken rules -/

theorem Properties.map_key_checkWord {rule : Rule} {value : Option String} {allowed : List String}
    {code : ErrorCode} {path node : Path} (hpath : rule.path node = path)
    (hcode : rule.code = code) :
    (checkWord value allowed code path).map key =
      (rule.forWord value allowed).map (Rule.key node) := by
  subst hpath hcode
  cases value with
  | none => rfl
  | some word =>
    rw [checkWord, Rule.forWord, Option.any_some]
    cases allowed.contains word <;> rfl

theorem Properties.map_key_checkColor {rule : Rule} {color : String} {path node : Path}
    (hpath : rule.path node = path) (hcode : rule.code = .invalidHexColor) :
    (checkColor color path).map key = (rule.forColor (some color)).map (Rule.key node) := by
  subst hpath
  rw [checkColor, Rule.forColor, Option.any_some]
  cases Rules.isHexColor color with
  | true => rfl
  | false => simp [Rule.when, key, Rule.key, hcode, Finding.error]

private theorem Properties.map_key_checkFields {α : Type} (p : Properties α) (node : Path) :
    (p.checkFields node.properties).map key = p.brokenRules.map (Rule.key node) := by
  cases p with
  | column p =>
    rw [checkFields, brokenRules, List.map_append, List.map_append]
    exact congrArg₂ _ (map_key_checkWord rfl rfl) (map_key_checkWord rfl rfl)
  | row p =>
    rw [checkFields, brokenRules, List.map_append, List.map_append]
    exact congrArg₂ _ (map_key_checkWord rfl rfl) (map_key_checkWord rfl rfl)
  | box p => exact map_key_checkWord rfl rfl
  | text p =>
    rw [checkFields, brokenRules]
    cases p.color with
    | none => rfl
    | some color => exact @map_key_checkColor .color _ _ _ rfl rfl
  | _ => rfl

theorem Operation.map_key_checkMeasure {what : String} {value : Int32} {node : Path} {i : Nat} :
    (checkMeasure what value (node.operation i)).map key =
      ((Rule.measure i).when (value < 0)).map (Rule.key node) := by
  unfold checkMeasure
  by_cases hvalue : value < 0
  · rw [if_pos hvalue, decide_eq_true hvalue]
    rfl
  · rw [if_neg hvalue, decide_eq_false hvalue]
    rfl

theorem Operation.map_key_checkShape {shape : Shape} {node : Path} {i : Nat} :
    (checkShape shape (node.operation i)).map key =
      ((Rule.measure i).when shape.hasNegativeCorner).map (Rule.key node) := by
  cases shape with
  | roundedCorner radii =>
    rw [checkShape, Shape.hasNegativeCorner]
    cases radii.resolved.find? fun r => decide (r < 0) <;> rfl
  | rectangle => rfl
  | circle => rfl

theorem Operation.brokenRules_of_color?_eq_none {o : Operation} (h : o.color? = none) (i : Nat) :
    o.brokenRules i = (Rule.measure i).when o.isOutOfRange := by
  cases o <;> simp_all [brokenRules, color?, Rule.forColor, Rule.when]

theorem Operation.map_key_check (o : Operation) (node : Path) (i : Nat) :
    (o.check (node.operation i)).map key = (o.brokenRules i).map (Rule.key node) := by
  cases o with
  | padding value =>
    rw [brokenRules_of_color?_eq_none rfl]
    exact map_key_checkMeasure
  | width value =>
    rw [brokenRules_of_color?_eq_none rfl]
    exact map_key_checkMeasure
  | height value =>
    rw [brokenRules_of_color?_eq_none rfl]
    exact map_key_checkMeasure
  | shadow elevation =>
    rw [brokenRules_of_color?_eq_none rfl]
    exact map_key_checkMeasure
  | border thickness color =>
    simp only [check, brokenRules, List.map_append]
    exact congrArg₂ _ map_key_checkMeasure (Properties.map_key_checkColor rfl rfl)
  | backgroundColor color => exact @Properties.map_key_checkColor (.operationColor i) _ _ _ rfl rfl
  | background color shape =>
    simp only [check, brokenRules, List.map_append]
    exact congrArg₂ _ (Properties.map_key_checkColor rfl rfl) map_key_checkShape
  | clip shape =>
    rw [brokenRules_of_color?_eq_none rfl]
    exact map_key_checkShape
  | alpha value =>
    rw [brokenRules_of_color?_eq_none rfl, check, isOutOfRange]
    cases value.inUnitInterval <;> rfl
  | _ => rfl

theorem Node.map_key_checkSelf (n : Node) (path : Path) :
    (n.checkSelf path).map key = n.brokenRules.map (Rule.key path) := by
  have hoperations :
      (n.modifier.operations.zipIdx.flatMap fun o => o.1.check (path.operation o.2)).map key =
        (n.modifier.operations.zipIdx.flatMap fun o => o.1.brokenRules o.2).map
          (Rule.key path) := by
    rw [List.map_flatMap, List.map_flatMap]
    exact List.flatMap_congr fun o _ => o.1.map_key_check path o.2
  rw [checkSelf, brokenRules, List.map_append, List.map_append]
  refine congrArg₂ _ ?_ hoperations
  cases n.properties with
  | none => rfl
  | some p =>
    simp only [List.map_append, Properties.map_key_checkFields]
    congr 2
    · by_cases htype : p.type = n.type
      · simp [htype, Rule.when]
      · rw [if_neg htype, bne_iff_ne.mpr htype]
        rfl
    · cases n.type.isLeaf && p.hasChildren <;> rfl

theorem Node.map_key_check (n : Node) (address : List ChildPlace) :
    (n.check (Path.ofAddress address)).map key =
      (n.located address).flatMap fun l =>
        l.2.brokenRules.map (Rule.key (Path.ofAddress l.1)) := by
  induction n using placedChildren_induction generalizing address with
  | node n ih =>
    rw [check_eq, located_eq, List.map_append, List.flatMap_cons, map_key_checkSelf,
      List.map_flatMap, List.flatMap_assoc]
    congr 1
    refine List.flatMap_congr fun child hchild => ?_
    rw [← Path.ofAddress_concat, ih child hchild]

/-! ## The broken rules are the rules that the node breaks -/

theorem Rule.mem_forWord {rule other : Rule} {value : Option String} {allowed : List String} :
    other ∈ rule.forWord value allowed ↔
      other = rule ∧ ∃ word, value = some word ∧ word ∉ allowed := by
  cases value <;> simp [Rule.forWord, Rule.mem_when]

theorem Rule.mem_forColor {rule other : Rule} {color : Option String} :
    other ∈ rule.forColor color ↔ other = rule ∧ ∃ c, color = some c ∧ ¬IsColor c := by
  cases color <;> simp [Rule.forColor, Rule.mem_when, ← isHexColor_iff]

private theorem Shape.hasNegativeCorner_iff {s : Shape} :
    s.hasNegativeCorner = true ↔ s.HasNegativeCorner := by
  cases s <;> simp [hasNegativeCorner, HasNegativeCorner, Int32.lt_iff_toInt_lt]

private theorem Operation.isOutOfRange_iff {o : Operation} :
    o.isOutOfRange = true ↔ o.OutOfRange := by
  cases o <;> simp [isOutOfRange, OutOfRange, Int32.lt_iff_toInt_lt, Shape.hasNegativeCorner_iff,
    ← Binary64.Extended.inUnitInterval_iff]

theorem Operation.mem_brokenRules {o : Operation} {i : Nat} {rule : Rule} :
    rule ∈ o.brokenRules i ↔
      rule = .measure i ∧ o.OutOfRange ∨
        rule = .operationColor i ∧ ∃ c, o.color? = some c ∧ ¬IsColor c := by
  rw [← isOutOfRange_iff, ← Rule.mem_when, ← Rule.mem_forColor]
  unfold brokenRules
  split
  · rw [List.mem_append, or_comm]
  · rw [List.mem_append]

theorem NodeType.payloadTag_injective {s t : NodeType} (h : s.payloadTag = t.payloadTag) :
    s = t := by
  cases s <;> cases t <;> first | rfl | simp [payloadTag] at h

theorem Node.mem_payload_rules {n : Node} {p : Properties Node} {rule : Rule}
    (hp : n.properties = some p) :
    rule ∈ n.brokenRules ↔
      rule = .payload ∧ p.tag ≠ n.type.payloadTag ∨
        rule = .leaf ∧ n.type.isLeaf = true ∧ n.children ≠ [] ∨
        rule ∈ p.brokenRules ∨
        ∃ (o : Operation) (i : Nat),
          n.modifier.operations[i]? = some o ∧ rule ∈ o.brokenRules i := by
  have htype : (p.type != n.type) = true ↔ p.tag ≠ n.type.payloadTag := by
    rw [bne_iff_ne, Properties.tag]
    exact not_congr ⟨congrArg _, NodeType.payloadTag_injective⟩
  have hchildren : n.children = p.children := by
    rw [children, hp]
  have hleaf : (n.type.isLeaf && p.hasChildren) = true ↔
      n.type.isLeaf = true ∧ n.children ≠ [] := by
    rw [hchildren, Properties.hasChildren]
    simp
  simp only [brokenRules, hp, List.mem_append, Rule.mem_when, htype, hleaf, List.mem_flatMap,
    Prod.exists, List.mem_zipIdx_iff_getElem?, or_assoc]

private theorem Node.mem_operation_rules {n : Node} {rule : Rule} (hp : n.properties = none) :
    rule ∈ n.brokenRules ↔
      ∃ (o : Operation) (i : Nat), n.modifier.operations[i]? = some o ∧ rule ∈ o.brokenRules i := by
  simp only [brokenRules, hp, List.nil_append, List.mem_flatMap, Prod.exists,
    List.mem_zipIdx_iff_getElem?]

theorem Node.breaks_of_mem_operation {n : Node} {o : Operation} {i : Nat} {rule : Rule}
    (ho : n.modifier.operations[i]? = some o) (h : rule ∈ o.brokenRules i) : n.Breaks rule := by
  rcases Operation.mem_brokenRules.mp h with ⟨rfl, hrange⟩ | ⟨rfl, color, hcolor, hnot⟩
  · exact .measure ho hrange
  · exact .operationColor ho hcolor hnot

private theorem Node.breaks_of_mem_payload {n : Node} {p : Properties Node} {rule : Rule}
    (hp : n.properties = some p) (h : rule ∈ p.brokenRules) : n.Breaks rule := by
  cases p <;> simp only [Properties.brokenRules, List.mem_append, List.not_mem_nil] at h
  case column p =>
    rcases h with h | h <;> obtain ⟨rfl, word, hword, hnot⟩ := Rule.mem_forWord.mp h
    · exact .verticalArrangement hp hword hnot
    · exact .horizontalAlignment hp hword hnot
  case row p =>
    rcases h with h | h <;> obtain ⟨rfl, word, hword, hnot⟩ := Rule.mem_forWord.mp h
    · exact .horizontalArrangement hp hword hnot
    · exact .verticalAlignment hp hword hnot
  case box p =>
    obtain ⟨rfl, word, hword, hnot⟩ := Rule.mem_forWord.mp h
    exact .contentAlignment hp hword hnot
  case text p =>
    obtain ⟨rfl, color, hcolor, hnot⟩ := Rule.mem_forColor.mp h
    exact .color hp hcolor hnot

private theorem Node.breaks_of_mem_brokenRules {n : Node} {rule : Rule} (h : rule ∈ n.brokenRules) :
    n.Breaks rule := by
  cases hp : n.properties with
  | none =>
    obtain ⟨o, i, ho, h⟩ := (mem_operation_rules hp).mp h
    exact breaks_of_mem_operation ho h
  | some p =>
    rcases (mem_payload_rules hp).mp h with
      ⟨rfl, htag⟩ | ⟨rfl, hleaf, hchildren⟩ | h | ⟨o, i, ho, h⟩
    · exact .payload hp htag
    · exact .leaf hleaf hchildren
    · exact breaks_of_mem_payload hp h
    · exact breaks_of_mem_operation ho h

theorem Node.mem_brokenRules_of_operation {n : Node} {o : Operation} {i : Nat} {rule : Rule}
    (ho : n.modifier.operations[i]? = some o) (h : rule ∈ o.brokenRules i) :
    rule ∈ n.brokenRules :=
  List.mem_append_right _
    (List.mem_flatMap.mpr ⟨(o, i), List.mem_zipIdx_iff_getElem?.mpr ho, h⟩)

theorem Node.mem_brokenRules_of_payload {n : Node} {p : Properties Node} {rule : Rule}
    (hp : n.properties = some p) (h : rule ∈ p.brokenRules) : rule ∈ n.brokenRules :=
  (mem_payload_rules hp).mpr (.inr (.inr (.inl h)))

theorem Node.mem_brokenRules_of_breaks {n : Node} {rule : Rule} (h : n.Breaks rule) :
    rule ∈ n.brokenRules := by
  cases h with
  | payload hp htag => exact (mem_payload_rules hp).mpr (.inl ⟨rfl, htag⟩)
  | leaf hleaf hchildren =>
    cases hp : n.properties with
    | none => exact absurd (by rw [children, hp]) hchildren
    | some p => exact (mem_payload_rules hp).mpr (.inr (.inl ⟨rfl, hleaf, hchildren⟩))
  | verticalArrangement hp hword hnot =>
    exact mem_brokenRules_of_payload hp
      (List.mem_append_left _ (Rule.mem_forWord.mpr ⟨rfl, _, hword, hnot⟩))
  | horizontalAlignment hp hword hnot =>
    exact mem_brokenRules_of_payload hp
      (List.mem_append_right _ (Rule.mem_forWord.mpr ⟨rfl, _, hword, hnot⟩))
  | horizontalArrangement hp hword hnot =>
    exact mem_brokenRules_of_payload hp
      (List.mem_append_left _ (Rule.mem_forWord.mpr ⟨rfl, _, hword, hnot⟩))
  | verticalAlignment hp hword hnot =>
    exact mem_brokenRules_of_payload hp
      (List.mem_append_right _ (Rule.mem_forWord.mpr ⟨rfl, _, hword, hnot⟩))
  | contentAlignment hp hword hnot =>
    exact mem_brokenRules_of_payload hp (Rule.mem_forWord.mpr ⟨rfl, _, hword, hnot⟩)
  | color hp hcolor hnot =>
    exact mem_brokenRules_of_payload hp (Rule.mem_forColor.mpr ⟨rfl, _, hcolor, hnot⟩)
  | measure ho hrange =>
    exact mem_brokenRules_of_operation ho (Operation.mem_brokenRules.mpr (.inl ⟨rfl, hrange⟩))
  | operationColor ho hcolor hnot =>
    exact mem_brokenRules_of_operation ho
      (Operation.mem_brokenRules.mpr (.inr ⟨rfl, _, hcolor, hnot⟩))

private theorem Node.mem_brokenRules_iff {n : Node} {rule : Rule} :
    rule ∈ n.brokenRules ↔ n.Breaks rule :=
  ⟨breaks_of_mem_brokenRules, mem_brokenRules_of_breaks⟩

/-! ## No rule is listed twice -/

theorem Properties.nodup_brokenRules {α : Type} (p : Properties α) : p.brokenRules.Nodup := by
  cases p with
  | column p =>
    exact List.Nodup.sublist ((Rule.when_sublist _ _).append (Rule.when_sublist _ _)) (by decide)
  | row p =>
    exact List.Nodup.sublist ((Rule.when_sublist _ _).append (Rule.when_sublist _ _)) (by decide)
  | box p => exact (List.nodup_singleton _).sublist (Rule.when_sublist _ _)
  | text p => exact (List.nodup_singleton _).sublist (Rule.when_sublist _ _)
  | _ => exact List.nodup_nil

theorem Operation.nodup_brokenRules (o : Operation) (i : Nat) : (o.brokenRules i).Nodup := by
  have hpair : [Rule.operationColor i, Rule.measure i].Nodup ∧
      [Rule.measure i, Rule.operationColor i].Nodup := by simp
  unfold brokenRules
  split
  · exact hpair.1.sublist ((Rule.when_sublist _ _).append (Rule.when_sublist _ _))
  · exact hpair.2.sublist ((Rule.when_sublist _ _).append (Rule.when_sublist _ _))

theorem Modifier.nodup_brokenRules (operations : List Operation) :
    (operations.zipIdx.flatMap fun o => o.1.brokenRules o.2).Nodup := by
  refine nodup_flatMap_zipIdx (fun o => o.1.nodup_brokenRules o.2) fun {a b} rule ha hb => ?_
  rcases Operation.mem_brokenRules.mp ha with ⟨rfl, -⟩ | ⟨rfl, -⟩ <;>
    rcases Operation.mem_brokenRules.mp hb with ⟨heq, -⟩ | ⟨heq, -⟩ <;>
    simp_all

/-- A rule of a payload is none on its node as such. -/
theorem Properties.mem_brokenRules_code {α : Type} {p : Properties α} {rule : Rule}
    (h : rule ∈ p.brokenRules) :
    rule ∈ [Rule.verticalArrangement, .horizontalArrangement, .verticalAlignment,
      .horizontalAlignment, .contentAlignment, .color] := by
  cases p <;> simp only [brokenRules, List.mem_append, List.not_mem_nil] at h
  case column p =>
    rcases h with h | h <;> rw [(Rule.mem_forWord.mp h).1] <;> decide
  case row p =>
    rcases h with h | h <;> rw [(Rule.mem_forWord.mp h).1] <;> decide
  case box p => rw [(Rule.mem_forWord.mp h).1]; decide
  case text p => rw [(Rule.mem_forColor.mp h).1]; decide

theorem Node.nodup_brokenRules (n : Node) : n.brokenRules.Nodup := by
  have hoperations := Modifier.nodup_brokenRules n.modifier.operations
  unfold brokenRules
  cases n.properties with
  | none => simpa using hoperations
  | some p =>
    have hself : (Rule.payload.when (p.type != n.type)
        ++ Rule.leaf.when (n.type.isLeaf && p.hasChildren)).Nodup :=
      List.Nodup.sublist ((Rule.when_sublist _ _).append (Rule.when_sublist _ _)) (by decide)
    refine List.Nodup.append (List.Nodup.append hself p.nodup_brokenRules ?_) hoperations ?_
    · intro rule hself hpayload
      have hmem := Properties.mem_brokenRules_code hpayload
      simp only [List.mem_append, Rule.mem_when] at hself
      rcases hself with ⟨rfl, -⟩ | ⟨rfl, -⟩ <;> revert hmem <;> decide
    · intro rule hnode hoperation
      obtain ⟨o, -, ho⟩ := List.mem_flatMap.mp hoperation
      simp only [List.mem_append, Rule.mem_when] at hnode
      rcases Operation.mem_brokenRules.mp ho with ⟨rfl, -⟩ | ⟨rfl, -⟩
      · rcases hnode with (⟨h, -⟩ | ⟨h, -⟩) | hpayload
        · cases h
        · cases h
        · simpa using Properties.mem_brokenRules_code hpayload
      · rcases hnode with (⟨h, -⟩ | ⟨h, -⟩) | hpayload
        · cases h
        · cases h
        · simpa using Properties.mem_brokenRules_code hpayload

/-! ## Exactness -/

namespace Node

theorem isPlain_of_mem_located {root : Node} {l : List ChildPlace × Node}
    (h : l ∈ root.located []) : (Path.ofAddress l.1).IsPlain := by
  have hplain : ∀ field ∈ Properties.childFields, Path.IsPlainKey field := by decide
  exact Path.isPlain_ofAddress fun place hplace =>
    hplain _ (field_of_mem_located h (by simp) place hplace)

/-- Two breaches in a tree that are reported with one path and code are the same breach. -/
theorem breach_injective {root : Node} {l m : List ChildPlace × Node} {a b : Rule}
    (hl : l ∈ root.located []) (hm : m ∈ root.located [])
    (h : a.key (Path.ofAddress l.1) = b.key (Path.ofAddress m.1)) : l = m ∧ a = b := by
  obtain ⟨hpath, hrule⟩ :=
    Rule.key_injective (isPlain_of_mem_located hl) (isPlain_of_mem_located hm) h
  exact ⟨List.inj_on_of_nodup_map (root.nodup_map_fst_located []) hl hm
    (Path.ofAddress_injective hpath), hrule⟩

private theorem nodup_map_key_check (root : Node) : ((root.check .root).map key).Nodup := by
  have hkeys := root.map_key_check []
  rw [Path.ofAddress, List.foldl_nil] at hkeys
  rw [hkeys, List.nodup_flatMap]
  constructor
  · intro l hl
    refine List.Nodup.map_on (fun a _ b _ h => ?_) l.2.nodup_brokenRules
    exact (breach_injective hl hl h).2
  · have hlocated : (root.located []).Nodup :=
      List.Nodup.of_map _ (root.nodup_map_fst_located [])
    refine List.Pairwise.imp_of_mem (fun {l m} hl hm hne k hkl hkm => hne ?_) hlocated
    obtain ⟨a, -, rfl⟩ := List.mem_map.mp hkl
    obtain ⟨b, -, heq⟩ := List.mem_map.mp hkm
    exact (breach_injective hl hm heq.symm).1

theorem validate_eq_check (root : Node) : root.validate = root.check .root :=
  Finding.distinct_of_nodup root.nodup_map_key_check

theorem mem_map_key_validate {root : Node} {k : String × ErrorCode} :
    k ∈ root.validate.map key ↔
      ∃ l ∈ root.located [], ∃ rule, l.2.Breaks rule ∧ rule.key (Path.ofAddress l.1) = k := by
  have hkeys := root.map_key_check []
  rw [Path.ofAddress, List.foldl_nil] at hkeys
  rw [validate_eq_check, hkeys]
  simp only [List.mem_flatMap, List.mem_map, mem_brokenRules_iff]

/-- The findings of a tree are its breaches. The located nodes are the rows of the flattened tree,
each at an address of its own; every rule that a located node breaks has exactly one finding, with
the path and the code of the rule; every finding is an error about such a breach; two breaches
never share path and code; and no finding of the walk is dropped. -/
theorem validate_exact (root : Node) :
    ((root.located []).map Prod.snd = root.flatten.map Row.node ∧
      ((root.located []).map Prod.fst).Nodup) ∧
    (∀ l ∈ root.located [], ∀ rule, l.2.Breaks rule →
      (root.validate.map key).count (rule.key (Path.ofAddress l.1)) = 1) ∧
    (∀ f ∈ root.validate, f.severity = .error ∧
      ∃ l ∈ root.located [], ∃ rule, l.2.Breaks rule ∧ rule.key (Path.ofAddress l.1) = f.key) ∧
    (∀ l ∈ root.located [], ∀ m ∈ root.located [], ∀ a b : Rule,
      a.key (Path.ofAddress l.1) = b.key (Path.ofAddress m.1) → l = m ∧ a = b) ∧
    root.validate = root.check .root := by
  refine ⟨⟨(root.map_node_rows [] 0 rootId).symm, root.nodup_map_fst_located []⟩, ?_, ?_, ?_,
    root.validate_eq_check⟩
  · intro l hl rule hrule
    apply List.count_eq_one_of_mem (Finding.nodup_map_key_distinct _)
    exact mem_map_key_validate.mpr ⟨l, hl, rule, hrule, rfl⟩
  · intro f hf
    refine ⟨(check_isError root .root f (Finding.mem_of_mem_distinct hf)).1, ?_⟩
    exact mem_map_key_validate.mp (List.mem_map_of_mem hf)
  · intro l hl m hm a b h
    exact breach_injective hl hm h

-- What is no number lies in no range.
example : ({ type := .text, modifier := ⟨[.alpha .nan]⟩ } : Node).validate
    = [.error "root.composeModifier.operations[0]" .modifierValueOutOfRange
      "Alpha must be within [0, 1], got NaN"] := by
  decide +kernel

end Node

end ScreenDoc
