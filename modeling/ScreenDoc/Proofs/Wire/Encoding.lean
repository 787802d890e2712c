import ScreenDoc.Proofs.Wire.Action
import ScreenDoc.Proofs.Wire.Node
import ScreenDoc.Proofs.Wire.Properties

/-!
# Written values are read back

What is written for a modifier, node, script or document is read back as the same one, whether it
is buffered or not.
-/

namespace ScreenDoc

/-! ## Modifiers -/

theorem CornerRadii.keys_fields_sublist (r : CornerRadii) :
    (KeyMap.keys r.fields).Sublist (Shape.fieldsOf "RoundedCorner") := by
  simp only [fields, List.append_assoc, Shape.fieldsOf]
  repeat' first
    | exact KeyMap.keys_optionalField_sublist _ _ _
    | apply KeyMap.keys_optionalField_append

theorem CornerRadii.ofContent?_fields (r : CornerRadii) :
    CornerRadii.ofContent? (.object r.fields) = some r := by
  simp only [ofContent?, Json.record?_of_sublist r.keys_fields_sublist (by decide),
    Option.bind_eq_bind, Option.bind_some]
  simp [fields, KeyMap.optional_eq, KeyMap.get?_append]

theorem Shape.ofJson?_toJson (s : Shape) : Shape.ofJson? s.toJson = some s := by
  cases s with
  | rectangle => rfl
  | circle => rfl
  | roundedCorner radii =>
    have hkeys : "type" ∉ KeyMap.keys radii.fields := fun h =>
      absurd (radii.keys_fields_sublist.subset h) (by decide)
    rw [ofJson?, toJson, Json.tagged?_tagged (by decide) hkeys]
    simp [ofContent?, CornerRadii.ofContent?_fields]

theorem Operation.keys_fields (o : Operation) : KeyMap.keys o.fields = fieldsOf o.tag := by
  cases o <;> rfl

theorem Operation.nodup_keys (o : Operation) : ("type" :: KeyMap.keys o.fields).Nodup := by
  cases o <;> simp [fields]

theorem Operation.tag_mem_tags (o : Operation) : o.tag ∈ Operation.tags := by
  cases o <;> simp [tag, tags]

theorem Operation.ofContent?_of_not_bare {tag : String}
    (h : tag ∉ ["FillMaxSize", "FillMaxWidth", "FillMaxHeight"]) (content : Json) :
    ofContent? tag content = (content.record? (fieldsOf tag)).bind (ofFields? tag) := by
  unfold ofContent?
  split
  · simp at h
  · simp at h
  · simp at h
  · rfl

def Operation.isFinite : Operation → Bool
  | alpha value => value.isFinite
  | rotate degrees => degrees.isFinite
  | _ => true

theorem Json.extended?_ofExtended {x : Binary64.Extended} (h : x.isFinite) :
    (ofExtended x).extended? = some x := by
  cases x with
  | finite x => rfl
  | _ => cases h

theorem Operation.ofContent?_fields {o : Operation} (h : o.isFinite) :
    ofContent? o.tag (.object o.fields) = some o := by
  have hrecord : (Json.object o.fields).record? (fieldsOf o.tag) = some o.fields :=
    Json.record?_of_sublist (o.keys_fields ▸ List.Sublist.refl _)
      (o.keys_fields ▸ (List.nodup_cons.mp o.nodup_keys).2)
  cases o with
  | fillMaxSize => rfl
  | fillMaxWidth => rfl
  | fillMaxHeight => rfl
  | alpha value =>
    rw [ofContent?_of_not_bare (by simp [tag]), hrecord]
    simp [ofFields?, fields, tag, KeyMap.required, KeyMap.get?_cons, Json.extended?_ofExtended h]
  | rotate degrees =>
    rw [ofContent?_of_not_bare (by simp [tag]), hrecord]
    simp [ofFields?, fields, tag, KeyMap.required, KeyMap.get?_cons, Json.extended?_ofExtended h]
  | _ =>
    rw [ofContent?_of_not_bare (by simp [tag]), hrecord]
    simp [ofFields?, fields, tag, KeyMap.required, KeyMap.get?_cons, Json.int32?_ofInt32,
      Json.string?, Shape.ofJson?_toJson]

theorem Operation.ofJson?_toJson (buffered : Bool) {o : Operation} (h : o.isFinite) :
    Operation.ofJson? buffered o.toJson = some o := by
  rw [ofJson?, toJson, Json.tagged?_tagged o.tag_mem_tags (List.nodup_cons.mp o.nodup_keys).1]
  exact ofContent?_fields h

theorem Modifier.ofJson?_toJson (buffered : Bool) {m : Modifier}
    (h : ∀ o ∈ m.operations, o.isFinite) : Modifier.ofJson? buffered m.toJson = some m := by
  have hlist : (Json.array (m.operations.map Operation.toJson)).list?
      (Operation.ofJson? buffered) = some m.operations :=
    mapM_map_eq_some fun o ho => Operation.ofJson?_toJson buffered (h o ho)
  rw [ofJson?, toJson, Json.record?_of_sublist (by simp [fieldNames]) (by decide)]
  simp [KeyMap.defaulted, KeyMap.get?_cons, hlist]

/-! ## Nodes -/

/-- Every double in the modifiers of the tree is finite. -/
inductive Node.Finite : Node → Prop where
  | node {n : Node} (hoperations : ∀ o ∈ n.modifier.operations, o.isFinite)
    (hchildren : ∀ c ∈ n.children, Finite c) : Finite n

theorem Node.Finite.operations {n : Node} (h : n.Finite) :
    ∀ o ∈ n.modifier.operations, o.isFinite := by
  cases h
  assumption

theorem Node.Finite.children {n : Node} (h : n.Finite) : ∀ c ∈ n.children, c.Finite := by
  cases h
  assumption

theorem NodeType.named?_name (t : NodeType) : NodeType.named? t.name = some t := by
  cases t <;> decide

namespace Node

def fields (n : Node) : List (String × Json) :=
  ("type", .string n.type.name)
    :: Json.optionalField "properties" (fun p => (p.map toJson).toJson) n.properties
    ++ (if n.modifier.isEmpty then [] else [("composeModifier", n.modifier.toJson)])

theorem toJson_eq_object (n : Node) : n.toJson = .object n.fields :=
  n.toJson_eq

private theorem toJson_ne_null (n : Node) : n.toJson ≠ .null := by
  simp [toJson_eq_object]

theorem keys_fields_sublist (n : Node) : (KeyMap.keys n.fields).Sublist fieldNames := by
  simp only [fields, fieldNames, List.cons_append, KeyMap.keys_cons]
  refine List.Sublist.cons_cons _ (KeyMap.keys_optionalField_append _ _ ?_)
  split <;> simp

theorem nodup_keys (n : Node) : (KeyMap.keys n.fields).Nodup :=
  List.Nodup.sublist n.keys_fields_sublist (by decide)

theorem field?_written (n : Node) (key : String) :
    n.toJson.canonical.field? key = (KeyMap.get? n.fields key).map Json.canonical := by
  rw [toJson_eq_object, Json.field?_canonical n.nodup_keys]

theorem get?_type (n : Node) : KeyMap.get? n.fields "type" = some (.string n.type.name) := by
  simp [fields, KeyMap.get?_cons]

theorem get?_properties (n : Node) :
    KeyMap.get? n.fields "properties" = n.properties.map fun p => (p.map toJson).toJson := by
  have hmodifier : KeyMap.get? (if n.modifier.isEmpty then []
      else [("composeModifier", n.modifier.toJson)]) "properties" = none := by
    split <;> simp [KeyMap.get?_cons]
  rw [fields, List.cons_append, KeyMap.get?_cons, KeyMap.get?_append, hmodifier]
  simp

theorem get?_modifier (n : Node) :
    KeyMap.get? n.fields "composeModifier"
      = if n.modifier.isEmpty then none else some n.modifier.toJson := by
  rw [fields, List.cons_append, KeyMap.get?_cons, KeyMap.get?_append]
  by_cases hempty : n.modifier.isEmpty <;> simp [hempty, KeyMap.get?_cons]

private theorem propertiesOfJson?_toJson {p : Properties Node} (buffered : Bool)
    (hchildren : ∀ c ∈ p.children, ofJson? true c.toJson = some c) :
    propertiesOfJson? buffered (p.map toJson).toJson = some p := by
  have htag : (p.map toJson).tag ∈ Properties.tags := by
    rw [Properties.tag]
    cases (p.map toJson).type <;> decide
  have htype := (List.nodup_cons.mp (p.map toJson).nodup_keys).1
  have hnull : ∀ c ∈ (p.map toJson).children, c ≠ .null := by
    rw [Properties.children_map]
    intro c hc
    obtain ⟨source, -, rfl⟩ := List.mem_map.mp hc
    exact toJson_ne_null source
  rw [propertiesOfJson?, Properties.toJson, Json.tagged?_tagged htag htype]
  simp only [Option.bind_some, payload?, Option.bind_eq_bind, Properties.ofContent?_fields hnull]
  exact Properties.traverse_map_eq_some hchildren

theorem ofJson?_toJson {n : Node} (h : n.Finite) (buffered : Bool) :
    ofJson? buffered n.toJson = some n := by
  -- Induction on the tree: what is written for the children is read back before the payload is.
  induction n using Node.induction generalizing buffered with
  | node n ih =>
    have htype : KeyMap.required n.fields "type" (Json.name? NodeType.named? buffered)
        = some n.type := by
      simp [KeyMap.required, get?_type, Json.name?, NodeType.named?_name]
    have hmodifier : KeyMap.defaulted n.fields "composeModifier" {} (Modifier.ofJson? buffered)
        = some n.modifier := by
      rw [KeyMap.defaulted, get?_modifier]
      by_cases hempty : n.modifier.isEmpty
      · have hoperations : n.modifier.operations = [] := List.isEmpty_iff.mp hempty
        rw [if_pos hempty, ← hoperations]
      · rw [if_neg hempty]
        exact Modifier.ofJson?_toJson buffered h.operations
    have hproperties : KeyMap.optional n.fields "properties" (propertiesOfJson? buffered)
        = some n.properties := by
      rw [KeyMap.optional_eq, get?_properties]
      cases hp : n.properties with
      | none => rfl
      | some p =>
        have hchildren : ∀ c ∈ p.children, ofJson? true c.toJson = some c := by
          intro c hc
          have hmem : c ∈ n.children := by simpa [children, hp] using hc
          exact ih c hmem (h.children c hmem) true
        exact congrArg (Option.map some) (propertiesOfJson?_toJson buffered hchildren)
    rw [toJson_eq_object, ofJson?_eq, Json.record?_of_sublist n.keys_fields_sublist (by decide)]
    simp only [Option.bind_eq_bind, Option.bind_some, htype, hmodifier, hproperties]
    cases n
    rfl

end Node

/-! ## Scripts and documents -/

namespace Action

theorem toJsonList_eq (actions : List Action) : toJsonList actions = actions.map toJson := by
  induction actions with
  | nil => rfl
  | cons action actions ih => rw [toJsonList, ih, List.map_cons]

private theorem fieldsOf_nodup (tag : String) : (fieldsOf tag).Nodup ∧ "type" ∉ fieldsOf tag := by
  unfold fieldsOf
  split <;> decide

theorem ofJson?_tagged {tag : String} {fields : List (String × Json)} (htag : tag ∈ tags)
    (hne : tag ≠ "Sequence") (hkeys : KeyMap.keys fields = fieldsOf tag) (buffered : Bool) :
    ofJson? buffered (Json.tagged tag fields) = ofFields? tag fields := by
  obtain ⟨hnodup, htype⟩ := fieldsOf_nodup tag
  have hrecord : (Json.object fields).record? (fieldsOf tag) = some fields :=
    Json.record?_of_sublist (hkeys ▸ List.Sublist.refl _) hnodup
  rw [ofJson?, Json.tagged?_tagged htag (hkeys ▸ htype)]
  simp only [Option.bind_eq_bind, Option.bind_some]
  rw [ofContent?_of_ne hne, hrecord]
  rfl

theorem ofJson?_toJson (a : Action) (buffered : Bool) : ofJson? buffered a.toJson = some a := by
  induction a using Action.induction generalizing buffered with
  | leaf a hleaf =>
    cases a with
    | sequence actions => exact absurd rfl (hleaf actions)
    | toggleState key =>
      rw [toJson, ofJson?_tagged (by decide) (by decide) rfl]
      rfl
    | log message =>
      rw [toJson, ofJson?_tagged (by decide) (by decide) rfl]
      rfl
    | setState key value =>
      rw [toJson, ofJson?_tagged (by decide) (by decide) rfl]
      simp [ofFields?, KeyMap.required, KeyMap.get?_cons, Json.string?]
    | custom customType params =>
      rw [toJson, ofJson?_tagged (by decide) (by decide) rfl]
      simp [ofFields?, KeyMap.required, KeyMap.defaulted, KeyMap.get?_cons, Json.string?,
        Json.map?_fields]
  | sequence actions ih =>
    have hlist : (Json.array (toJsonList actions)).list? (ofJson? true) = some actions := by
      rw [toJsonList_eq]
      exact mapM_map_eq_some fun a ha => ih a ha true
    rw [toJson, ofJson?, Json.tagged?_tagged (by decide) (by simp)]
    simp only [Option.bind_eq_bind, Option.bind_some]
    rw [ofContent?_sequence, Json.record?_of_sublist (by simp [fieldsOf]) (by decide)]
    simp [KeyMap.required, KeyMap.get?_cons, hlist]

end Action

namespace Document

def fields (d : Document) : List (String × Json) :=
  (if d.initialState.isEmpty then [] else [("initialState", .object d.initialState.fields)])
    ++ (if d.actions.isEmpty then [] else
      [("actions", .object (d.actions.entries.map fun (name, script) =>
        (name, .array (Action.toJsonList script))))])
    ++ [("root", d.root.toJson)]

theorem keys_fields_sublist (d : Document) : (KeyMap.keys d.fields).Sublist fieldNames := by
  simp only [fields, fieldNames]
  split <;> split <;> simp

theorem nodup_keys (d : Document) : (KeyMap.keys d.fields).Nodup :=
  List.Nodup.sublist d.keys_fields_sublist (by decide)

theorem field?_written (d : Document) (key : String) :
    d.toJson.canonical.field? key = (KeyMap.get? d.fields key).map Json.canonical :=
  Json.field?_canonical d.nodup_keys key

private theorem get?_initialState (d : Document) :
    KeyMap.get? d.fields "initialState"
      = if d.initialState.isEmpty then none else some (.object d.initialState.fields) := by
  by_cases hstate : d.initialState.isEmpty <;> by_cases hactions : d.actions.isEmpty <;>
    simp [fields, hstate, hactions, KeyMap.get?_cons]

private theorem get?_actions (d : Document) :
    KeyMap.get? d.fields "actions"
      = if d.actions.isEmpty then none
        else some (.object (d.actions.entries.map fun (name, script) =>
          (name, .array (Action.toJsonList script)))) := by
  by_cases hstate : d.initialState.isEmpty <;> by_cases hactions : d.actions.isEmpty <;>
    simp [fields, hstate, hactions, KeyMap.get?_cons]

theorem get?_root (d : Document) : KeyMap.get? d.fields "root" = some d.root.toJson := by
  by_cases hstate : d.initialState.isEmpty <;> by_cases hactions : d.actions.isEmpty <;>
    simp [fields, hstate, hactions, KeyMap.get?_cons]

private theorem actionsOfJson?_toJson (actions : SortedMap (List Action)) :
    actionsOfJson? (.object (actions.entries.map fun (name, script) =>
      (name, .array (Action.toJsonList script)))) = some actions := by
  have hscript (script : List Action) :
      (Json.array (Action.toJsonList script)).list? (Action.ofJson? false) = some script := by
    rw [Action.toJsonList_eq]
    exact mapM_map_eq_some fun a _ => Action.ofJson?_toJson a false
  rw [actionsOfJson?, mapM_map_eq_some]
  · simp
  · rintro ⟨name, script⟩ -
    simp [hscript script]

theorem ofJson?_toJson {d : Document} (h : d.root.Finite) : ofJson? d.toJson = some d := by
  have hstate : KeyMap.defaulted d.fields "initialState" ∅ Json.map? = some d.initialState := by
    rw [KeyMap.defaulted, get?_initialState]
    by_cases hempty : d.initialState.isEmpty
    · rw [if_pos hempty, Json.Map.eq_empty hempty]
    · rw [if_neg hempty]
      exact Json.map?_fields d.initialState
  have hactions : KeyMap.defaulted d.fields "actions" ∅ actionsOfJson? = some d.actions := by
    rw [KeyMap.defaulted, get?_actions]
    by_cases hempty : d.actions.isEmpty
    · rw [if_pos hempty, SortedMap.eq_empty hempty]
    · rw [if_neg hempty]
      exact actionsOfJson?_toJson d.actions
  have hroot : KeyMap.required d.fields "root" (Node.ofJson? false) = some d.root := by
    simp [KeyMap.required, get?_root, Node.ofJson?_toJson h]
  have hrecord : d.toJson.record? fieldNames = some d.fields :=
    Json.record?_of_sublist d.keys_fields_sublist (by decide)
  simp only [ofJson?, hrecord, Option.bind_eq_bind, Option.bind_some, hstate, hactions, hroot]

end Document

end ScreenDoc
