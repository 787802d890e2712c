import ScreenDoc.Proofs.Validate.Exactness
import ScreenDoc.Proofs.Validate.Unrecognized
import ScreenDoc.Proofs.Wire.Encoding

/-!
# Following the path of a finding

A written path spells steps into a value: a point with a key leads to a field, an index in brackets
to an item. In the value that is written for a tree, the path of a finding leads to what the finding
is about: a node, its payload, one of its operations or a string.
-/

namespace ScreenDoc

/-! ## Reading a path -/

namespace Step

/-- The step as it stands in a written path. -/
def chars : Step → List Char
  | field key => '.' :: key.toList
  | item i => '[' :: (Nat.toDigits 10 i ++ [']'])

/-- A step whose key is told apart from what follows it. -/
def IsPlain : Step → Prop
  | field key => '.' ∉ key.toList ∧ '[' ∉ key.toList
  | item _ => True

instance : DecidablePred IsPlain
  | field key => inferInstanceAs (Decidable ('.' ∉ key.toList ∧ '[' ∉ key.toList))
  | item _ => inferInstanceAs (Decidable True)

end Step

namespace Path

def inKey (c : Char) : Bool :=
  c != '.' && c != '['

def stepsOf? : List Char → Option Address
  | [] => some []
  | '.' :: cs =>
    (stepsOf? (cs.dropWhile inKey)).map fun steps =>
      .field (String.ofList (cs.takeWhile inKey)) :: steps
  | '[' :: cs =>
    if (cs.dropWhile Char.isDigit).head? = some ']' then
      (stepsOf? (cs.dropWhile Char.isDigit).tail).map fun steps =>
        .item (Nat.ofDigitChars 10 (cs.takeWhile Char.isDigit) 0) :: steps
    else none
  | _ => none
termination_by cs => cs.length
decreasing_by
  · have hle := (List.dropWhile_sublist inKey : (cs.dropWhile inKey).Sublist cs).length_le
    simp
    omega
  · have hle := (List.dropWhile_sublist Char.isDigit :
      (cs.dropWhile Char.isDigit).Sublist cs).length_le
    simp
    omega

private theorem toList_text_follow (p : Path) (steps : Address) :
    (p.follow steps).text.toList = p.text.toList ++ steps.flatMap Step.chars := by
  induction steps generalizing p with
  | nil => simp [follow]
  | cons step steps ih =>
    cases step with
    | field key =>
      rw [follow, ih, toList_text_field, List.flatMap_cons, Step.chars, List.append_assoc]
    | item i =>
      rw [follow, ih, toList_text_item, List.flatMap_cons, Step.chars, List.append_assoc]

private theorem head_flatMap_chars {steps : Address} {c : Char}
    (h : (steps.flatMap Step.chars).head? = some c) : inKey c = false := by
  cases steps with
  | nil => cases h
  | cons step steps =>
    cases step <;> cases h <;> rfl

theorem takeWhile_append_of_head {α : Type} {p : α → Bool} {l rest : List α}
    (hl : ∀ a ∈ l, p a = true) (hrest : ∀ a, rest.head? = some a → p a = false) :
    (l ++ rest).takeWhile p = l ∧ (l ++ rest).dropWhile p = rest := by
  rw [List.takeWhile_append_of_pos hl, List.dropWhile_append_of_pos hl]
  cases rest with
  | nil => simp
  | cons a rest => simp [hrest a rfl]

private theorem stepsOf?_flatMap_chars {steps : Address} (h : ∀ step ∈ steps, step.IsPlain) :
    stepsOf? (steps.flatMap Step.chars) = some steps := by
  induction steps with
  | nil => simp [stepsOf?]
  | cons step steps ih =>
    obtain ⟨hstep, hsteps⟩ := List.forall_mem_cons.mp h
    rw [List.flatMap_cons]
    cases step with
    | field key =>
      have hkey : ∀ c ∈ key.toList, inKey c = true := by
        intro c hc
        have hdot : c ≠ '.' := fun heq => hstep.1 (heq ▸ hc)
        have hbracket : c ≠ '[' := fun heq => hstep.2 (heq ▸ hc)
        simp [inKey, hdot, hbracket]
      obtain ⟨htake, hdrop⟩ :=
        takeWhile_append_of_head hkey fun c => @head_flatMap_chars steps c
      rw [Step.chars, List.cons_append, stepsOf?, htake, hdrop, ih hsteps, String.ofList_toList]
      rfl
    | item i =>
      have hdigits : ∀ c ∈ Nat.toDigits 10 i, c.isDigit = true := fun c hc =>
        Nat.isDigit_of_mem_toDigits (by decide) (by decide) hc
      have hbracket : ∀ c, (']' :: steps.flatMap Step.chars).head? = some c →
          c.isDigit = false := by
        simp
      obtain ⟨htake, hdrop⟩ := takeWhile_append_of_head hdigits hbracket
      rw [Step.chars, List.cons_append, List.append_assoc, List.singleton_append, stepsOf?, hdrop,
        htake, List.head?_cons, if_pos rfl, List.tail_cons, ih hsteps,
        Nat.ofDigitChars_ten_toDigits]
      rfl

end Path

/-- What a written path leads to. -/
def Json.follow? (path : String) (j : Json) : Option Json :=
  match path.toList with
  | 'r' :: 'o' :: 'o' :: 't' :: cs => (Path.stepsOf? cs).bind j.at?
  | _ => none

theorem Json.follow?_text {steps : Address} (h : ∀ step ∈ steps, step.IsPlain) (j : Json) :
    j.follow? (Path.root.follow steps).text = j.at? steps := by
  have htext : (Path.root.follow steps).text.toList
      = 'r' :: 'o' :: 'o' :: 't' :: steps.flatMap Step.chars :=
    Path.toList_text_follow .root steps
  rw [follow?, htext]
  exact congrArg (Option.bind · j.at?) (Path.stepsOf?_flatMap_chars h)

/-! ## Steps to what is checked -/

def ChildPlace.steps : ChildPlace → Address
  | ⟨field, none⟩ => [.field field]
  | ⟨field, some i⟩ => [.field field, .item i]

def nodeSteps (address : List ChildPlace) : Address :=
  address.flatMap fun place => .field "properties" :: place.steps

theorem nodeSteps_concat (address : List ChildPlace) (place : ChildPlace) :
    nodeSteps (address ++ [place]) = nodeSteps address ++ .field "properties" :: place.steps := by
  simp [nodeSteps]

theorem Path.follow_nodeSteps (address : List ChildPlace) :
    Path.root.follow (nodeSteps address) = Path.ofAddress address := by
  induction address using List.reverseRecOn with
  | nil => rfl
  | append_singleton address place ih =>
    rw [nodeSteps_concat, follow_append, ih, ofAddress_concat]
    obtain ⟨field, _ | i⟩ := place <;> rfl

def Rule.steps : Rule → Address
  | payload => [.field "properties"]
  | leaf => []
  | verticalArrangement => [.field "properties", .field "verticalArrangement"]
  | horizontalArrangement => [.field "properties", .field "horizontalArrangement"]
  | verticalAlignment => [.field "properties", .field "verticalAlignment"]
  | horizontalAlignment => [.field "properties", .field "horizontalAlignment"]
  | contentAlignment => [.field "properties", .field "contentAlignment"]
  | color => [.field "properties", .field "color"]
  | measure i => [.field "composeModifier", .field "operations", .item i]
  | operationColor i => [.field "composeModifier", .field "operations", .item i]

private theorem Rule.path_eq_follow (rule : Rule) (node : Path) :
    rule.path node = node.follow rule.steps := by
  cases rule <;> rfl

private theorem Rule.isPlain_steps (rule : Rule) : ∀ step ∈ rule.steps, step.IsPlain := by
  have hitem (i : Nat) : ∀ step ∈ [Step.field "composeModifier", .field "operations", .item i],
      step.IsPlain := by
    have hkeys : (Step.field "composeModifier").IsPlain ∧ (Step.field "operations").IsPlain := by
      decide
    exact List.forall_mem_cons.mpr ⟨hkeys.1, List.forall_mem_cons.mpr
      ⟨hkeys.2, List.forall_mem_singleton.mpr trivial⟩⟩
  cases rule with
  | measure i => exact hitem i
  | operationColor i => exact hitem i
  | _ => decide

theorem isPlain_nodeSteps {address : List ChildPlace}
    (h : ∀ place ∈ address, (Step.field place.field).IsPlain) :
    ∀ step ∈ nodeSteps address, step.IsPlain := by
  have hproperties : (Step.field "properties").IsPlain := by decide
  intro step hstep
  obtain ⟨place, hplace, hstep⟩ := List.mem_flatMap.mp hstep
  have hfield := h place hplace
  obtain ⟨field, _ | i⟩ := place
  · simp only [ChildPlace.steps, List.mem_cons, List.not_mem_nil, or_false] at hstep
    rcases hstep with rfl | rfl
    · exact hproperties
    · exact hfield
  · simp only [ChildPlace.steps, List.mem_cons, List.not_mem_nil, or_false] at hstep
    rcases hstep with rfl | rfl | rfl
    · exact hproperties
    · exact hfield
    · trivial

/-! ## What is written at an address -/

namespace Properties

theorem field?_toJson (p : Properties Json) {key : String} (hkey : key ≠ "type") :
    p.toJson.field? key = KeyMap.get? p.fields key := by
  rw [toJson, Json.tagged, Json.field?, KeyMap.get?_cons, if_neg hkey]

theorem at?_slot {p : Properties Json} {key : String} {child : Option Json} (hkey : key ≠ "type")
    (h : KeyMap.get? p.fields key = child) :
    ∀ placed ∈ slot key child, p.toJson.at? placed.1.steps = some placed.2 := by
  refine forall_mem_slot.mpr fun c hc => ?_
  rw [ChildPlace.steps, Json.at?, p.field?_toJson hkey, h, hc]
  rfl

theorem at?_listed {p : Properties Json} {key : String} {items : List Json} (hkey : key ≠ "type")
    (h : items ≠ [] → KeyMap.get? p.fields key = some (.array items)) :
    ∀ placed ∈ listed key items, p.toJson.at? placed.1.steps = some placed.2 := by
  intro placed hplaced
  obtain ⟨⟨item, i⟩, hitem, rfl⟩ := List.mem_map.mp hplaced
  rw [ChildPlace.steps, Json.at?, p.field?_toJson hkey,
    h (List.ne_nil_of_mem (List.fst_mem_of_mem_zipIdx hitem))]
  simp [Json.at?, Json.item?, List.mem_zipIdx_iff_getElem?.mp hitem]

private theorem at?_place {p : Properties Json} :
    ∀ placed ∈ p.placedChildren, p.toJson.at? placed.1.steps = some placed.2 := by
  cases p with
  | column p => exact at?_listed (by decide) fun _ => by simp [fields, KeyMap.get?_cons]
  | row p => exact at?_listed (by decide) fun _ => by simp [fields, KeyMap.get?_cons]
  | box p => exact at?_listed (by decide) fun _ => by simp [fields, KeyMap.get?_cons]
  | button p => exact at?_slot (by decide) (by simp [fields, KeyMap.get?_append])
  | card p => exact at?_slot (by decide) (by simp [fields, KeyMap.get?_append])
  | scaffold p =>
    simp only [placedChildren, List.forall_mem_append]
    refine ⟨⟨?_, ?_⟩, ?_⟩ <;>
      exact at?_slot (by decide) (by simp [fields, KeyMap.get?_append])
  | topAppBar p =>
    simp only [placedChildren, List.forall_mem_append]
    refine ⟨⟨?_, ?_⟩, ?_⟩
    · refine at?_slot (by decide) ?_
      cases hactions : p.actions <;> simp [fields, hactions, KeyMap.get?_append, KeyMap.get?_cons]
    · refine at?_slot (by decide) ?_
      cases hactions : p.actions <;> simp [fields, hactions, KeyMap.get?_append, KeyMap.get?_cons]
    · refine at?_listed (by decide) fun hne => ?_
      simp [fields, hne, KeyMap.get?_append, KeyMap.get?_cons]
  | alertDialog p =>
    simp only [placedChildren, List.forall_mem_append]
    refine ⟨⟨⟨?_, ?_⟩, ?_⟩, ?_⟩ <;>
      exact at?_slot (by decide) (by simp [fields, KeyMap.get?_append])
  | _ => exact List.forall_mem_nil _

/-- The word that a rule is about. -/
def word? {α : Type} (p : Properties α) (rule : Rule) : Option String :=
  match p, rule with
  | column p, .verticalArrangement => p.verticalArrangement
  | column p, .horizontalAlignment => p.horizontalAlignment
  | row p, .horizontalArrangement => p.horizontalArrangement
  | row p, .verticalAlignment => p.verticalAlignment
  | box p, .contentAlignment => p.contentAlignment
  | text p, .color => p.color
  | _, _ => none

private theorem word?_map {α β : Type} (f : α → β) (p : Properties α) (rule : Rule) :
    (p.map f).word? rule = p.word? rule := by
  cases p <;> cases rule <;> rfl

private theorem get?_of_word? {p : Properties Json} {rule : Rule} {word : String}
    (h : p.word? rule = some word) :
    ∃ key, key ≠ "type" ∧ rule.steps = [.field "properties", .field key] ∧
      KeyMap.get? p.fields key = some (.string word) := by
  unfold word? at h
  split at h
  · exact ⟨_, by decide, rfl, by simp [fields, KeyMap.get?_append, KeyMap.get?_cons, h]⟩
  · exact ⟨_, by decide, rfl, by simp [fields, KeyMap.get?_append, KeyMap.get?_cons, h]⟩
  · exact ⟨_, by decide, rfl, by simp [fields, KeyMap.get?_append, KeyMap.get?_cons, h]⟩
  · exact ⟨_, by decide, rfl, by simp [fields, KeyMap.get?_append, KeyMap.get?_cons, h]⟩
  · exact ⟨_, by decide, rfl, by simp [fields, KeyMap.get?_cons, h]⟩
  · exact ⟨_, by decide, rfl, by simp [fields, KeyMap.get?_append, h]⟩
  · cases h

end Properties

namespace Node

/-- What a breach of the rule is about, as it is written. -/
def subject? (n : Node) : Rule → Option Json
  | .payload => n.properties.map fun p => (p.map toJson).toJson
  | .leaf => some n.toJson
  | .measure i => n.modifier.operations[i]?.map Operation.toJson
  | .operationColor i => n.modifier.operations[i]?.map Operation.toJson
  | rule => (n.properties.bind fun p => p.word? rule).map .string

theorem subject?_of_word? {n : Node} {p : Properties Node} {rule : Rule} {word : String}
    (hp : n.properties = some p) (hword : p.word? rule = some word) :
    n.subject? rule = some (.string word) := by
  cases rule with
  | payload => simp [Properties.word?] at hword
  | leaf => simp [Properties.word?] at hword
  | measure i => simp [Properties.word?] at hword
  | operationColor i => simp [Properties.word?] at hword
  | _ => simp [subject?, hp, hword]

private theorem Breaks.exists_subject {n : Node} {rule : Rule} (h : n.Breaks rule) :
    ∃ subject, n.subject? rule = some subject := by
  cases h with
  | payload hp htag => exact ⟨_, by rw [subject?, hp]; rfl⟩
  | leaf hleaf hchildren => exact ⟨_, rfl⟩
  | measure ho hrange => exact ⟨_, by rw [subject?, ho]; rfl⟩
  | operationColor ho hcolor hnot => exact ⟨_, by rw [subject?, ho]; rfl⟩
  | verticalArrangement hp hword hnot => exact ⟨_, subject?_of_word? hp hword⟩
  | horizontalAlignment hp hword hnot => exact ⟨_, subject?_of_word? hp hword⟩
  | horizontalArrangement hp hword hnot => exact ⟨_, subject?_of_word? hp hword⟩
  | verticalAlignment hp hword hnot => exact ⟨_, subject?_of_word? hp hword⟩
  | contentAlignment hp hword hnot => exact ⟨_, subject?_of_word? hp hword⟩
  | color hp hcolor hnot => exact ⟨_, subject?_of_word? hp hcolor⟩

theorem field?_properties {n : Node} {p : Properties Node} (hp : n.properties = some p) :
    n.toJson.field? "properties" = some (p.map toJson).toJson := by
  rw [toJson_eq_object, Json.field?, get?_properties, hp]
  rfl

theorem at?_operation {n : Node} {i : Nat} {o : Operation}
    (ho : n.modifier.operations[i]? = some o) :
    n.toJson.at? [.field "composeModifier", .field "operations", .item i] = some o.toJson := by
  have hmodifier : n.toJson.field? "composeModifier" = some n.modifier.toJson := by
    have hne : ¬n.modifier.isEmpty = true := fun hempty => by
      simp [List.isEmpty_iff.mp hempty] at ho
    rw [toJson_eq_object, Json.field?, get?_modifier, if_neg hne]
  rw [Json.at?, hmodifier, Option.bind_some, Modifier.toJson]
  simp [Json.at?, Json.field?, KeyMap.get?_cons, Json.item?, ho]

private theorem at?_word {n : Node} {p : Properties Node} {rule : Rule} {word : String}
    (hp : n.properties = some p) (hword : p.word? rule = some word) :
    n.toJson.at? rule.steps = some (.string word) := by
  rw [← p.word?_map toJson] at hword
  obtain ⟨key, hkey, hsteps, hget⟩ := Properties.get?_of_word? hword
  rw [hsteps, Json.at?, field?_properties hp, Option.bind_some, Json.at?,
    Properties.field?_toJson _ hkey, hget]
  rfl

/-- The steps of a rule lead to what its breach is about. -/
theorem at?_subject {n : Node} {rule : Rule} {subject : Json} (h : n.subject? rule = some subject) :
    n.toJson.at? rule.steps = some subject := by
  have hpayload {p : Properties Node} (hp : n.properties = some p) :
      n.toJson.at? [.field "properties"] = some (p.map toJson).toJson := by
    rw [Json.at?, field?_properties hp]
    rfl
  cases rule with
  | payload =>
    obtain ⟨p, hp, rfl⟩ := Option.map_eq_some_iff.mp h
    exact hpayload hp
  | leaf => exact h
  | measure i =>
    obtain ⟨o, ho, rfl⟩ := Option.map_eq_some_iff.mp h
    exact at?_operation ho
  | operationColor i =>
    obtain ⟨o, ho, rfl⟩ := Option.map_eq_some_iff.mp h
    exact at?_operation ho
  | _ =>
    obtain ⟨word, hword, rfl⟩ := Option.map_eq_some_iff.mp h
    obtain ⟨p, hp, hword⟩ := Option.bind_eq_some_iff.mp hword
    exact at?_word hp hword

private theorem at?_child {n : Node} {child : ChildPlace × Node} (h : child ∈ n.placedChildren) :
    n.toJson.at? (.field "properties" :: child.1.steps) = some child.2.toJson := by
  unfold placedChildren at h
  split at h
  · rename_i p hp
    have hplaced : (child.1, child.2.toJson) ∈ (p.map toJson).placedChildren := by
      rw [Properties.placedChildren_map]
      exact List.mem_map_of_mem h
    rw [Json.at?, field?_properties hp, Option.bind_some]
    exact Properties.at?_place _ hplaced
  · cases h

theorem at?_nodeSteps {root n : Node} {address start : List ChildPlace} {j : Json}
    (h : (address, n) ∈ root.located start) (hstart : j.at? (nodeSteps start) = some root.toJson) :
    j.at? (nodeSteps address) = some n.toJson := by
  induction root using placedChildren_induction generalizing start with
  | node root ih =>
    rw [located_eq, List.mem_cons, List.mem_flatMap] at h
    rcases h with h | ⟨child, hchild, h⟩
    · cases h
      exact hstart
    · refine ih child hchild h ?_
      rw [nodeSteps_concat, Json.at?_append, hstart]
      exact at?_child hchild

end Node

theorem Rule.path_ofAddress (rule : Rule) (address : List ChildPlace) :
    rule.path (Path.ofAddress address) = Path.root.follow (nodeSteps address ++ rule.steps) := by
  rw [path_eq_follow, Path.follow_append, Path.follow_nodeSteps]

theorem Node.follow?_path {root : Node} {l : List ChildPlace × Node} (hl : l ∈ root.located [])
    (rule : Rule) :
    root.toJson.follow? (rule.path (Path.ofAddress l.1)).text = l.2.toJson.at? rule.steps := by
  have hfields : ∀ field ∈ Properties.childFields, (Step.field field).IsPlain := by decide
  have haddress := field_of_mem_located hl (List.forall_mem_nil _)
  have hplain : ∀ step ∈ nodeSteps l.1 ++ rule.steps, step.IsPlain :=
    List.forall_mem_append.mpr
      ⟨isPlain_nodeSteps fun place hplace => hfields _ (haddress place hplace), rule.isPlain_steps⟩
  rw [rule.path_ofAddress, Json.follow?_text hplain, Json.at?_append, at?_nodeSteps hl rfl,
    Option.bind_some]

/-! ## Positions and their steps -/

private theorem Path.follow_root_injective {a b : Address}
    (h : Path.root.follow a = Path.root.follow b) : a = b := by
  induction a using List.reverseRecOn generalizing b with
  | nil =>
    cases b using List.reverseRecOn with
    | nil => rfl
    | append_singleton b step =>
      rw [follow_append] at h
      cases step <;> cases h
  | append_singleton a step ih =>
    cases b using List.reverseRecOn with
    | nil =>
      rw [follow_append] at h
      cases step <;> cases h
    | append_singleton b other =>
      rw [follow_append, follow_append] at h
      cases step <;> cases other <;>
        simp only [follow, reduceCtorEq, field.injEq, item.injEq] at h <;>
        rw [ih h.1, h.2]

theorem head?_nodeSteps_ne_item (address : List ChildPlace) (rule : Rule) (i : Nat) :
    (nodeSteps address ++ rule.steps).head? ≠ some (.item i) := by
  cases address with
  | nil => cases rule <;> simp [nodeSteps, Rule.steps]
  | cons place address => simp [nodeSteps]

theorem Rule.not_mem_childFields {rule : Rule} {key : String} {rest : Address}
    (h : rule.steps = .field "properties" :: .field key :: rest) :
    key ∉ Properties.childFields := by
  cases rule <;> simp only [steps, List.cons.injEq, List.nil_eq, reduceCtorEq, and_false,
    Step.field.injEq, true_and] at h
  all_goals
    first
    | rw [← h.1]; decide
    | exact absurd h.1 (by decide)

/-- The steps to what a rule is about determine the node and the place in it. -/
theorem nodeSteps_append_inj {a b : List ChildPlace} {r s : Rule}
    (ha : ∀ place ∈ a, place.field ∈ Properties.childFields)
    (hb : ∀ place ∈ b, place.field ∈ Properties.childFields)
    (h : nodeSteps a ++ r.steps = nodeSteps b ++ s.steps) : a = b ∧ r.steps = s.steps := by
  have hnot {r s : Rule} {place : ChildPlace} {rest : List ChildPlace}
      (hplace : place.field ∈ Properties.childFields)
      (h : r.steps = nodeSteps (place :: rest) ++ s.steps) : False := by
    obtain ⟨field, _ | i⟩ := place
    · exact Rule.not_mem_childFields h hplace
    · exact Rule.not_mem_childFields h hplace
  induction a generalizing b with
  | nil =>
    cases b with
    | nil => exact ⟨rfl, h⟩
    | cons place b => exact (hnot (hb place List.mem_cons_self) h).elim
  | cons place a ih =>
    obtain ⟨hplace, hbelow⟩ := List.forall_mem_cons.mp ha
    cases b with
    | nil => exact (hnot hplace h.symm).elim
    | cons other b =>
      obtain ⟨-, hother⟩ := List.forall_mem_cons.mp hb
      obtain ⟨field, index⟩ := place
      obtain ⟨field', index'⟩ := other
      -- Behind the field both go to an item or neither does.
      cases index <;> cases index' <;>
        simp only [nodeSteps, List.flatMap_cons, ChildPlace.steps, List.cons_append,
          List.nil_append, List.cons.injEq, Step.field.injEq, Step.item.injEq, true_and] at h
      case none.none =>
        obtain ⟨rfl, h⟩ := h
        obtain ⟨rfl, hrule⟩ := ih hbelow hother h
        exact ⟨rfl, hrule⟩
      case some.some =>
        obtain ⟨rfl, rfl, h⟩ := h
        obtain ⟨rfl, hrule⟩ := ih hbelow hother h
        exact ⟨rfl, hrule⟩
      case none.some =>
        exact absurd (congrArg List.head? h.2) (head?_nodeSteps_ne_item a r _)
      case some.none =>
        exact absurd (congrArg List.head? h.2.symm) (head?_nodeSteps_ne_item b s _)

/-! ## Findings -/

namespace Node

private theorem path_injective {root : Node} {l m : List ChildPlace × Node} {a b : Rule}
    (hl : l ∈ root.located []) (hm : m ∈ root.located [])
    (h : (a.path (Path.ofAddress l.1)).text = (b.path (Path.ofAddress m.1)).text) :
    l = m ∧ a.steps = b.steps := by
  have hpath := Path.text_injective (Rule.isPlain_path (isPlain_of_mem_located hl) a)
    (Rule.isPlain_path (isPlain_of_mem_located hm) b) h
  rw [a.path_ofAddress, b.path_ofAddress] at hpath
  obtain ⟨haddress, hsteps⟩ := nodeSteps_append_inj
    (field_of_mem_located hl (List.forall_mem_nil _))
    (field_of_mem_located hm (List.forall_mem_nil _)) (Path.follow_root_injective hpath)
  exact ⟨List.inj_on_of_nodup_map (root.nodup_map_fst_located []) hl hm haddress, hsteps⟩

/-- The path of every finding in a tree leads through what is written for the tree to the thing at
fault: the node, its payload, the operation or the string that the broken rule is about. The path
of every node leads to what is written for the node, and different places in the tree, in one node
or in two, have different paths. -/
theorem validate_paths_lead (root : Node) :
    (∀ f ∈ root.validate, ∃ l ∈ root.located [], ∃ rule subject,
      l.2.Breaks rule ∧ rule.key (Path.ofAddress l.1) = f.key ∧
        l.2.subject? rule = some subject ∧ root.toJson.follow? f.path = some subject) ∧
    (∀ l ∈ root.located [],
      root.toJson.follow? (Path.ofAddress l.1).text = some l.2.toJson) ∧
    (∀ l ∈ root.located [], ∀ m ∈ root.located [], ∀ a b : Rule,
      (a.path (Path.ofAddress l.1)).text = (b.path (Path.ofAddress m.1)).text →
        l = m ∧ a.steps = b.steps) := by
  refine ⟨fun f hf => ?_, fun l hl => follow?_path hl .leaf,
    fun l hl m hm a b h => path_injective hl hm h⟩
  obtain ⟨l, hl, rule, hbreaks, hkey⟩ := mem_map_key_validate.mp (List.mem_map_of_mem hf)
  obtain ⟨subject, hsubject⟩ := hbreaks.exists_subject
  have hpath : (rule.path (Path.ofAddress l.1)).text = f.path := congrArg Prod.fst hkey
  refine ⟨l, hl, rule, subject, hbreaks, hkey, hsubject, ?_⟩
  rw [← hpath, follow?_path hl]
  exact at?_subject hsubject

end Node

end ScreenDoc
