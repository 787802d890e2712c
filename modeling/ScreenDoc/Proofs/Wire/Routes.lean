import ScreenDoc.Proofs.Json.Draft
import ScreenDoc.Proofs.Wire.Action
import ScreenDoc.Proofs.Wire.Node

/-!
# Two routes to one value

A text can be read as it goes, or first as a JSON value that is then taken apart. On a whole value
both accept the same and give the same result; repeated fields, unknown fields and fields in any
order included.
-/

namespace ScreenDoc

@[simp] theorem Draft.toOption_fit {α : Type} (o : Option α) : (Draft.fit o).toOption = o := by
  cases o <;> rfl

theorem Draft.fit_tagged {α : Type} {tags : List String} {content? : String → Json → Option α}
    {j : Json} {room : Nat} (h : j.depth ≤ room) :
    (do
      let (tag, content) ← j.toDraft.tagged (tags.contains ·) room
      Draft.fit (content? tag content) : Except Failure α).toOption
      = (j.tagged? tags false).bind fun tagged => content? tagged.1 tagged.2 := by
  rw [toOption_bind, Draft.tagged_toDraft tags h]
  cases j.tagged? tags false with
  | none => rfl
  | some tagged => exact Draft.toOption_fit _

theorem Operation.read_toDraft {j : Json} {room : Nat} (h : j.depth ≤ room) :
    (Operation.read room j.toDraft).toOption = Operation.ofJson? false j :=
  Draft.fit_tagged h

theorem Action.read_toDraft {j : Json} {room : Nat} (h : j.depth ≤ room) :
    (Action.read room j.toDraft).toOption = Action.ofJson? false j :=
  Draft.fit_tagged h

theorem Modifier.read_toDraft {j : Json} {room : Nat} (h : j.depth ≤ room) :
    (Modifier.read room j.toDraft).toOption = Modifier.ofJson? false j := by
  have hread (value : Json) (room : Nat) (hvalue : value.depth ≤ room) (state : Modifier)
      (key : String) :
      (do .ok ⟨← Draft.list Operation.read room value.toDraft⟩ : Except Failure Modifier).toOption
        = (value.list? (Operation.ofJson? false)).map Modifier.mk := by
    rw [toOption_bind, Draft.list_toDraft hvalue fun item room hitem =>
      Operation.read_toDraft hitem]
    cases value.list? (Operation.ofJson? false) <;> rfl
  rw [Modifier.read, Draft.record_toDraft h hread, Modifier.ofJson?]
  cases hrecord : j.record? fieldNames with
  | none => rfl
  | some fields =>
    obtain ⟨hnodup, hkeys⟩ := Json.keys_of_record? (by decide) hrecord
    have hfold := KeyMap.foldlM_slot (g := Modifier.mk)
      (f := fun _ field => (field.2.list? (Operation.ofJson? false)).map Modifier.mk)
      (fun _ _ => rfl) hnodup (fun key hkey => List.mem_singleton.mp (hkeys key hkey)) []
    refine hfold.trans ?_
    simp only [Option.bind_eq_bind, Option.bind_some]
    cases fields.defaulted "operations" [] (Json.list? (Operation.ofJson? false)) <;> rfl

/-- What a field that was read makes of what is known of a node. -/
def Node.fillField (n : Node.Reading) (field : String) (value : Json) : Option Node.Reading :=
  if field = "type" then
    (value.name? NodeType.named? false).map fun type => { n with type := some type }
  else if field = "properties" then
    (value.nullable? (Node.propertiesOfJson? false)).map fun properties => { n with properties }
  else (Modifier.ofJson? false value).map fun modifier => { n with modifier }

theorem Node.readField_toDraft {value : Json} {room : Nat} (h : value.depth ≤ room)
    (n : Node.Reading) (field : String) :
    (Node.readField room n field value.toDraft).toOption = Node.fillField n field value := by
  unfold readField fillField
  split
  · rw [toOption_bind, Draft.name_toDraft _ h]
    cases value.name? NodeType.named? false <;> rfl
  · rw [toOption_bind, Draft.optional_toDraft (f := propertiesOfJson? false) (Draft.fit_tagged h)]
    cases value.nullable? (propertiesOfJson? false) <;> rfl
  · rename_i htype hproperties
    rw [toOption_bind, Modifier.read_toDraft h, if_neg htype, if_neg hproperties]
    cases Modifier.ofJson? false value <;> rfl

theorem Node.read_toDraft {j : Json} {room : Nat} (h : j.depth ≤ room) :
    (Node.read room j.toDraft).toOption = Node.ofJson? false j := by
  rw [Node.read, toOption_bind, Draft.record_toDraft h fun value room hvalue =>
    readField_toDraft hvalue, ofJson?_eq]
  cases hrecord : j.record? fieldNames with
  | none => rfl
  | some fields =>
    obtain ⟨hnodup, hkeys⟩ := Json.keys_of_record? (by decide) hrecord
    -- The text fills the three slots in any order, and the record is asked for them by name.
    have hfold := KeyMap.foldlM_slots (g := Reading.mk)
      (f := fun n field => fillField n field.1 field.2)
      (k := "type") (l := "properties") (m := "composeModifier") (by decide)
      (r := fun value => (value.name? NodeType.named? false).map some)
      (s := Json.nullable? (propertiesOfJson? false)) (t := Modifier.ofJson? false)
      (fun _ _ _ _ => by rw [fillField, if_pos rfl, Option.map_map]; rfl)
      (fun _ _ _ _ => rfl) (fun _ _ _ _ => rfl) hnodup hkeys none none {}
    simp only [Option.bind_some, Option.bind_eq_bind, KeyMap.required_eq_defaulted,
      KeyMap.optional_eq_defaulted]
    rw [show ({} : Reading) = Reading.mk none none {} from rfl, hfold]
    cases fields.defaulted "type" none fun value =>
        (value.name? NodeType.named? false).map some with
    | none => rfl
    | some type =>
      cases fields.defaulted "properties" none (Json.nullable? (propertiesOfJson? false)) with
      | none =>
        cases type <;> cases fields.defaulted "composeModifier" {} (Modifier.ofJson? false) <;> rfl
      | some properties =>
        cases type <;> cases fields.defaulted "composeModifier" {} (Modifier.ofJson? false) <;> rfl

/-- What a field that was read makes of what is known of a document. -/
def Document.fillField (d : Document.Reading) (field : String) (value : Json) :
    Option Document.Reading :=
  if field = "initialState" then value.map?.map fun initialState => { d with initialState }
  else if field = "actions" then (actionsOfJson? value).map fun actions => { d with actions }
  else (Node.ofJson? false value).map fun root => { d with root := some root }

private theorem Document.initialState_toDraft {value : Json} {room : Nat} (h : value.depth ≤ room) :
    ((value.toDraft.entries Draft.value room).toOption).map Json.Map.ofFields = value.map? := by
  cases value with
  | object fields =>
    rw [Draft.entries_toDraft (f := some) h fun v room hv => by rw [Draft.value_toDraft hv]; rfl]
    have hfields : (fields.mapM fun field => (some field.2).map fun value => (field.1, value))
        = some fields := List.mapM_pure.trans (congrArg some (List.map_id' fields))
    rw [hfields]
    rfl
  | _ => rfl

private theorem Document.actions_toDraft {value : Json} {room : Nat} (h : value.depth ≤ room) :
    ((value.toDraft.entries (Draft.list Action.read) room).toOption).map SortedMap.ofList
      = actionsOfJson? value := by
  cases value with
  | object fields =>
    rw [Draft.entries_toDraft (f := Json.list? (Action.ofJson? false)) h fun v room hv =>
      Draft.list_toDraft hv fun item room hitem => Action.read_toDraft hitem,
      actionsOfJson?_object]
  | _ => rfl

theorem Document.readField_toDraft {value : Json} {room : Nat} (h : value.depth ≤ room)
    (d : Document.Reading) (field : String) :
    (Document.readField room d field value.toDraft).toOption
      = Document.fillField d field value := by
  unfold readField fillField
  split
  · rw [toOption_bind, ← initialState_toDraft h, Option.map_map]
    cases (value.toDraft.entries Draft.value room).toOption <;> rfl
  · rw [toOption_bind, ← actions_toDraft h, Option.map_map]
    cases (value.toDraft.entries (Draft.list Action.read) room).toOption <;> rfl
  · rename_i hstate hactions
    rw [toOption_bind, Node.read_toDraft h, if_neg hstate, if_neg hactions]
    cases Node.ofJson? false value <;> rfl

theorem Document.read_toDraft {j : Json} {room : Nat} (h : j.depth ≤ room) :
    (Document.read room j.toDraft).toOption = Document.ofJson? j := by
  rw [Document.read, toOption_bind, Draft.record_toDraft h fun value room hvalue =>
    readField_toDraft hvalue, ofJson?]
  cases hrecord : j.record? fieldNames with
  | none => rfl
  | some fields =>
    obtain ⟨hnodup, hkeys⟩ := Json.keys_of_record? (by decide) hrecord
    have hfold := KeyMap.foldlM_slots (g := Reading.mk)
      (f := fun d field => fillField d field.1 field.2)
      (k := "initialState") (l := "actions") (m := "root") (by decide)
      (r := Json.map?) (s := actionsOfJson?) (t := fun value => (Node.ofJson? false value).map some)
      (fun _ _ _ _ => rfl) (fun _ _ _ _ => rfl)
      (fun _ _ _ _ => by rw [Option.map_map]; rfl) hnodup hkeys ∅ ∅ none
    simp only [Option.bind_some, Option.bind_eq_bind, KeyMap.required_eq_defaulted]
    rw [show ({} : Reading) = Reading.mk ∅ ∅ none from rfl, hfold]
    cases fields.defaulted "initialState" ∅ Json.map? with
    | none => rfl
    | some initialState =>
      cases fields.defaulted "actions" ∅ actionsOfJson? with
      | none => rfl
      | some actions =>
        cases fields.defaulted "root" none fun value => (Node.ofJson? false value).map some with
        | none => rfl
        | some root => cases root <;> rfl

end ScreenDoc
