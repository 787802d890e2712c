import ScreenDoc.Proofs.Json.Without
import ScreenDoc.Proofs.Validate.Positions

/-!
# Addresses of unrecognized fields

The search for unrecognized fields follows a value along the parts that it is made of. Here it is
one recursion over roles: each role has its known keys and says under which of its keys further
parts stand. Its results are addresses in the value, and the findings of the search are these
addresses written as paths, one for each, in the same order.
-/

namespace ScreenDoc

/-- What a value stands for in a payload. -/
inductive Role where
  | document
  | node
  | modifier
  | operation
  | shape
  | payload
  | action
  deriving DecidableEq

/-- How parts stand under a key. -/
inductive Holding where
  /-- The value is the part. -/
  | whole (role : Role)
  /-- The items of the value are the parts. -/
  | items (role : Role)
  /-- The value is a node, or its items are. -/
  | children
  /-- Each field of the value is a list of actions. -/
  | scripts

/-- A value in a role, somewhere in a greater value. -/
structure Part where
  address : Address
  role : Role
  value : Json

def Part.below (step : Step) (part : Part) : Part :=
  { part with address := step :: part.address }

def Part.ofItems (role : Role) (j : Json) : List Part :=
  (j.items?.getD []).zipIdx.map fun (item, i) => ⟨[.item i], role, item⟩

/-- The parts in a value that stands under a key. -/
def Holding.parts : Holding → Json → List Part
  | whole role, j => [⟨[], role, j⟩]
  | items role, j => Part.ofItems role j
  | children, .object fields => [⟨[], .node, .object fields⟩]
  | children, j => Part.ofItems .node j
  | scripts, j =>
    (j.fields?.getD []).flatMap fun (name, script) =>
      (Part.ofItems .action script).map (Part.below (.field name))

namespace Role

/-- The keys that are known in a value with this role, if it is looked at. -/
def known? (role : Role) (j : Json) : Option (List String) :=
  match role with
  | document => j.fields?.map fun _ => Json.documentFields
  | node => j.fields?.map fun _ => Json.nodeFields
  | modifier => j.fields?.map fun _ => Json.modifierFields
  | operation => j.typeName?.bind Json.operationFields?
  | shape => j.typeName?.bind Json.shapeFields?
  | payload => j.typeName?.bind Json.payloadFields?
  | action => j.typeName?.bind Json.actionFields?

/-- The keys under which parts stand, in the order in which they are followed. In a payload only
known keys are followed, elsewhere all of them. -/
def places (role : Role) (known : List String) : KeyMap Holding :=
  match role with
  | document => [("actions", .scripts), ("root", .whole .node)]
  | node => [("composeModifier", .whole .modifier), ("properties", .whole .payload)]
  | modifier => [("operations", .items .operation)]
  | operation => [("shape", .whole .shape)]
  | shape => []
  | payload => (Rules.childKeys.filter known.contains).map fun key => (key, .children)
  | action => [("actions", .items .action)]

/-- The parts of a value, each with its address. -/
def parts (role : Role) (known : List String) (j : Json) : List Part :=
  (role.places known).flatMap fun (key, holding) =>
    match j.field? key with
    | some value => (holding.parts value).map (Part.below (.field key))
    | none => []

end Role

theorem Part.size_le_of_ofItems {role : Role} {j : Json} {part : Part}
    (h : part ∈ ofItems role j) : part.value.size ≤ j.size := by
  obtain ⟨⟨item, i⟩, hitem, rfl⟩ := List.mem_map.mp h
  have hmem := List.fst_mem_of_mem_zipIdx hitem
  cases j <;> simp [Json.items?] at hmem
  exact (Json.size_lt_of_mem_items hmem).le

theorem Holding.size_le_of_parts {holding : Holding} {j : Json} {part : Part}
    (h : part ∈ holding.parts j) : part.value.size ≤ j.size := by
  cases holding with
  | whole role => rw [List.mem_singleton.mp h]
  | items role => exact Part.size_le_of_ofItems h
  | children =>
    cases j with
    | object fields => rw [List.mem_singleton.mp h]
    | _ => exact Part.size_le_of_ofItems h
  | scripts =>
    obtain ⟨⟨name, script⟩, hscript, h⟩ := List.mem_flatMap.mp h
    obtain ⟨inner, hinner, rfl⟩ := List.mem_map.mp h
    have hsize := Part.size_le_of_ofItems hinner
    cases j <;> simp [Json.fields?] at hscript
    exact hsize.trans (Json.size_lt_of_mem_fields hscript).le

theorem Role.exists_of_mem_parts {role : Role} {known : List String} {j : Json} {part : Part}
    (h : part ∈ role.parts known j) :
    ∃ key holding value, (key, holding) ∈ role.places known ∧ j.field? key = some value
      ∧ ∃ inner ∈ holding.parts value, part = inner.below (.field key) := by
  obtain ⟨⟨key, holding⟩, hplace, h⟩ := List.mem_flatMap.mp h
  cases hvalue : j.field? key with
  | none => simp [hvalue] at h
  | some value =>
    simp only [hvalue] at h
    obtain ⟨inner, hinner, rfl⟩ := List.mem_map.mp h
    exact ⟨key, holding, value, hplace, hvalue, inner, hinner, rfl⟩

private theorem Role.size_lt_of_parts {role : Role} {known : List String} {j : Json} {part : Part}
    (h : part ∈ role.parts known j) : part.value.size < j.size := by
  obtain ⟨key, holding, value, -, hvalue, inner, hinner, rfl⟩ := exists_of_mem_parts h
  exact (Holding.size_le_of_parts hinner).trans_lt (Json.size_lt_of_field? hvalue)

/-- The keys of an object that are neither `type` nor known. -/
def Json.unknownNames (j : Json) (known : List String) : List String :=
  (KeyMap.keys (j.fields?.getD [])).filter fun key => !(key == "type" || known.contains key)

/-- The unrecognized fields of a value: the address of each object that has one, with the key. -/
def Role.unrecognized (role : Role) (j : Json) : List (Address × String) :=
  match role.known? j with
  | none => []
  | some known =>
    (j.unknownNames known).map (fun key => ([], key))
      ++ (role.parts known j).attach.flatMap fun ⟨part, _⟩ =>
        (part.role.unrecognized part.value).map fun field => (part.address ++ field.1, field.2)
termination_by j.size
decreasing_by exact size_lt_of_parts ‹_›

def Part.unrecognized (part : Part) : List (Address × String) :=
  (part.role.unrecognized part.value).map fun field => (part.address ++ field.1, field.2)

def Holding.unrecognized (holding : Holding) (j : Json) : List (Address × String) :=
  (holding.parts j).flatMap Part.unrecognized

def below (step : Step) (field : Address × String) : Address × String :=
  (step :: field.1, field.2)

theorem Json.object_of_typeName? {j : Json} {tag : String} (h : j.typeName? = some tag) :
    ∃ fields, j = object fields := by
  cases j with
  | object fields => exact ⟨fields, rfl⟩
  | _ => simp [typeName?, field?] at h

namespace Role

variable {role : Role} {j : Json}

theorem object_of_known? {known : List String} (h : role.known? j = some known) :
    ∃ fields, j = .object fields := by
  have hfields {names : List String} (h : (j.fields?.map fun _ => names) = some known) :
      ∃ fields, j = .object fields := by
    cases j with
    | object fields => exact ⟨fields, rfl⟩
    | _ => cases h
  have htype {fieldsOf? : String → Option (List String)}
      (h : j.typeName?.bind fieldsOf? = some known) : ∃ fields, j = .object fields := by
    obtain ⟨tag, htag, -⟩ := Option.bind_eq_some_iff.mp h
    exact Json.object_of_typeName? htag
  cases role with
  | document => exact hfields h
  | node => exact hfields h
  | modifier => exact hfields h
  | operation => exact htype h
  | shape => exact htype h
  | payload => exact htype h
  | action => exact htype h

theorem unrecognized_of_none (h : role.known? j = none) : role.unrecognized j = [] := by
  rw [unrecognized, h]

theorem unrecognized_of_some {known : List String} (h : role.known? j = some known) :
    role.unrecognized j
      = (j.unknownNames known).map (fun key => ([], key))
        ++ (role.places known).flatMap fun place =>
          (j.field? place.1).elim [] fun value =>
            (place.2.unrecognized value).map (below (.field place.1)) := by
  have hparts : ((role.parts known j).attach.flatMap fun part =>
      (part.1.role.unrecognized part.1.value).map fun field => (part.1.address ++ field.1, field.2))
      = (role.parts known j).flatMap Part.unrecognized :=
    (List.flatMap_subtype fun _ _ => rfl).trans (by rw [List.unattach_attach])
  rw [unrecognized, h]
  refine congrArg (_ ++ ·) (hparts.trans ?_)
  rw [parts, List.flatMap_assoc]
  refine List.flatMap_congr fun (key, holding) _ => ?_
  cases hvalue : j.field? key with
  | none => simp only [hvalue, List.flatMap_nil, Option.elim_none]
  | some value =>
    simp only [hvalue, Option.elim_some, Holding.unrecognized, List.flatMap_map, List.map_flatMap]
    refine List.flatMap_congr fun part _ => ?_
    rw [Part.unrecognized, Part.unrecognized, List.map_map]
    rfl

end Role

private theorem Role.unrecognized_of_fields? {role : Role} {j : Json} (h : j.fields? = none) :
    role.unrecognized j = [] := by
  refine unrecognized_of_none (Option.eq_none_iff_forall_ne_some.mpr fun known hknown => ?_)
  obtain ⟨fields, rfl⟩ := object_of_known? hknown
  cases h

/-! ## Paths -/

namespace Path

/-- The path of what stands at an address below `p`. -/
def follow (p : Path) : Address → Path
  | [] => p
  | .field key :: address => (p.field key).follow address
  | .item i :: address => (p.item i).follow address

theorem follow_append (p : Path) (a b : Address) : p.follow (a ++ b) = (p.follow a).follow b := by
  induction a generalizing p with
  | nil => rfl
  | cons step a ih => cases step <;> exact ih _

def warning (p : Path) (key : String) : Finding :=
  .warning p.text .unrecognizedProperties ("unrecognized field '" ++ key ++ "'")

def unrecognized (p : Path) (field : Address × String) : Finding :=
  ((p.follow field.1).field field.2).warning field.2

/-- Paths with one text lead to parts with one text. -/
theorem text_follow_congr {p q : Path} (h : p.text = q.text) (address : Address) :
    (p.follow address).text = (q.follow address).text := by
  induction address generalizing p q with
  | nil => exact h
  | cons step address ih => cases step <;> exact ih (by simp only [text, h])

end Path

/-! ## The search as a recursion over roles -/

def Holding.findings (holding : Holding) (j : Json) (path : Path) : List Finding :=
  (holding.unrecognized j).map path.unrecognized

theorem Part.map_unrecognized (part : Part) (path : Path) :
    part.unrecognized.map path.unrecognized
      = (part.role.unrecognized part.value).map (path.follow part.address).unrecognized := by
  rw [Part.unrecognized, List.map_map]
  refine List.map_congr_left fun field _ => ?_
  simp only [Function.comp_apply, Path.unrecognized, Path.follow_append]

namespace Json

theorem map_elim {α β : Type} (o : Option α) (f : α → List β) {γ : Type} (g : β → γ) :
    (o.elim [] f).map g = o.elim [] fun a => (f a).map g := by
  cases o <;> rfl

theorem map_unrecognized {role : Role} {j : Json} {known : List String}
    (h : role.known? j = some known) (path : Path) :
    (role.unrecognized j).map path.unrecognized
      = unknownKeys (j.fields?.getD []) known path.field
        ++ (role.places known).flatMap fun place =>
          (j.field? place.1).elim [] fun value => place.2.findings value (path.field place.1) := by
  rw [Role.unrecognized_of_some h, List.map_append, List.map_map, List.map_flatMap]
  refine congrArg (_ ++ ·) (List.flatMap_congr fun place _ => ?_)
  simp only [map_elim, List.map_map]
  rfl

theorem findings_whole (role : Role) (j : Json) (path : Path) :
    (Holding.whole role).findings j path = (role.unrecognized j).map path.unrecognized := by
  simp [Holding.findings, Holding.unrecognized, Holding.parts, Part.map_unrecognized, Path.follow]

theorem findings_items (role : Role) (j : Json) (path : Path) :
    (Holding.items role).findings j path
      = (j.items?.getD []).zipIdx.flatMap fun (item, i) =>
        (role.unrecognized item).map (path.item i).unrecognized := by
  simp only [Holding.findings, Holding.unrecognized, Holding.parts, Part.ofItems, List.flatMap_map,
    List.map_flatMap, Part.map_unrecognized]
  rfl

theorem unknownTagged_of_none {fieldsOf? : String → Option (List String)} {j : Json}
    (h : j.typeName?.bind fieldsOf? = none) (path : Path) :
    unknownTagged fieldsOf? j path = [] := by
  rw [unknownTagged, h]
  cases j.fields? <;> rfl

theorem unknownTagged_of_some {fieldsOf? : String → Option (List String)} {j : Json}
    {known : List String} (h : j.typeName?.bind fieldsOf? = some known) (path : Path) :
    unknownTagged fieldsOf? j path = unknownKeys (j.fields?.getD []) known path.field := by
  obtain ⟨tag, htag, -⟩ := Option.bind_eq_some_iff.mp h
  obtain ⟨fields, rfl⟩ := object_of_typeName? htag
  rw [unknownTagged, h]
  rfl

private theorem unknownTagged_shape (j : Json) (path : Path) :
    unknownTagged shapeFields? j path = (Role.shape.unrecognized j).map path.unrecognized := by
  cases hknown : Role.shape.known? j with
  | none => rw [Role.unrecognized_of_none hknown, unknownTagged_of_none hknown, List.map_nil]
  | some known =>
    rw [map_unrecognized hknown, unknownTagged_of_some hknown, Role.places, List.flatMap_nil,
      List.append_nil]

private theorem unknownInOperation_eq (j : Json) (path : Path) :
    j.unknownInOperation path = (Role.operation.unrecognized j).map path.unrecognized := by
  cases hknown : Role.operation.known? j with
  | none =>
    have hnone : j.typeName?.bind operationFields? = none := hknown
    rw [Role.unrecognized_of_none hknown, unknownInOperation, hnone]
    rfl
  | some known =>
    have hsome : j.typeName?.bind operationFields? = some known := hknown
    rw [map_unrecognized hknown, unknownInOperation, hsome, unknownTagged_of_some hsome,
      Option.isSome_some, if_pos rfl]
    simp only [Role.places, List.flatMap_cons, List.flatMap_nil, List.append_nil,
      findings_whole, unknownTagged_shape]
    cases j.field? "shape" <;> rfl

private theorem unknownInModifier_eq (j : Json) (path : Path) :
    j.unknownInModifier path = (Role.modifier.unrecognized j).map path.unrecognized := by
  cases j with
  | object fields =>
    have hknown : Role.modifier.known? (object fields) = some modifierFields := rfl
    rw [map_unrecognized hknown, unknownInModifier]
    simp only [Role.places, List.flatMap_cons, List.flatMap_nil, List.append_nil, findings_items,
      ← unknownInOperation_eq]
    cases hoperations : (object fields).field? "operations" <;> rfl
  | _ =>
    rw [Role.unrecognized_of_none rfl]
    rfl

private theorem findings_children (j : Json) (path : Path) (key : String) :
    Holding.children.findings j (path.field key)
      = (childrenUnder key j).flatMap fun child =>
          (Role.node.unrecognized child.2).map (path.child child.1).unrecognized := by
  cases j with
  | object fields =>
    rw [childrenUnder, List.flatMap_singleton]
    exact findings_whole .node (object fields) (path.field key)
  | array items =>
    refine (findings_items .node (array items) (path.field key)).trans ?_
    rw [childrenUnder, List.flatMap_map]
    rfl
  | _ => rfl

private theorem unknownInPayload_eq (payload : KeyMap Json) (path : Path) :
    (unknownTagged payloadFields? (object payload) path
        ++ (knownFields? payload).elim [] fun known =>
          (underChildKeys (payload.filter fun field => known.contains field.1)).flatMap
            fun child => (Role.node.unrecognized child.2).map (path.child child.1).unrecognized)
      = (Role.payload.unrecognized (object payload)).map path.unrecognized := by
  cases hknown : Role.payload.known? (object payload) with
  | none =>
    have hnone : knownFields? payload = none := hknown
    rw [Role.unrecognized_of_none hknown, unknownTagged_of_none hknown, hnone]
    rfl
  | some known =>
    have hsome : knownFields? payload = some known := hknown
    rw [map_unrecognized hknown, unknownTagged_of_some hknown, hsome, Option.elim_some,
      underChildKeys_eq, List.flatMap_assoc, Role.places, List.flatMap_map]
    refine congrArg (_ ++ ·) ?_
    -- Filtering the payload and filtering the child keys come to the same, key by key.
    induction Rules.childKeys with
    | nil => rfl
    | cons key keys ih =>
      rw [List.flatMap_cons, ih, List.filter_cons, KeyMap.get?_filter]
      cases known.contains key with
      | false => rfl
      | true =>
        rw [if_pos rfl, if_pos rfl, List.flatMap_cons]
        refine congrArg (· ++ _) ?_
        cases hvalue : KeyMap.get? payload key with
        | none => simp [field?, hvalue]
        | some value =>
          simp only [field?, hvalue]
          exact (findings_children value path key).symm

/-- The findings in a tree are its unrecognized fields, written as paths. -/
theorem unknownInTree_eq_map (j : Json) (path : Path) :
    j.unknownInTree path = (Role.node.unrecognized j).map path.unrecognized := by
  induction j using decodedChildNodes_induction generalizing path with
  | node j ih =>
    rw [unknownInTree_eq, List.flatMap_congr fun child hchild => ih child hchild _]
    cases j with
    | object fields =>
      have hknown : Role.node.known? (object fields) = some nodeFields := rfl
      rw [map_unrecognized hknown, unknownInNode, decodedChildNodes]
      simp only [Role.places, List.flatMap_cons, List.flatMap_nil, List.append_nil, findings_whole,
        ← unknownInModifier_eq, List.append_assoc, fields?, Option.getD_some]
      refine congrArg (_ ++ ·) (congrArg₂ (· ++ ·) ?_ ?_)
      · cases (object fields).field? "composeModifier" <;> rfl
      · cases hvalue : (object fields).field? "properties" with
        | none => simp [payload?, hvalue]
        | some value =>
          cases value with
          | object payload =>
            have hpayload := unknownInPayload_eq payload path.properties
            simp only [payload?, hvalue, Option.bind_some, fields?]
            refine Eq.trans ?_ hpayload
            cases knownFields? payload <;> rfl
          | _ =>
            simp only [payload?, hvalue, Option.bind_some, fields?, Option.elim_some]
            rw [Role.unrecognized_of_fields? rfl]
            rfl
    | _ =>
      rw [Role.unrecognized_of_none rfl]
      rfl

private theorem unknownInAction_eq_map (j : Json) (path : Path) :
    j.unknownInAction path = (Role.action.unrecognized j).map path.unrecognized := by
  induction j using nestedActions_induction generalizing path with
  | node j ih =>
    have hnested : (j.nestedActions.zipIdx.flatMap fun action =>
        action.1.unknownInAction ((path.field "actions").item action.2))
        = j.nestedActions.zipIdx.flatMap fun action =>
          (Role.action.unrecognized action.1).map
            ((path.field "actions").item action.2).unrecognized :=
      List.flatMap_congr fun action haction => ih action.1 (List.fst_mem_of_mem_zipIdx haction) _
    rw [unknownInAction_eq, hnested, nestedActions]
    cases hknown : Role.action.known? j with
    | none =>
      have hnone : j.typeName?.bind actionFields? = none := hknown
      rw [Role.unrecognized_of_none hknown, unknownTagged_of_none hknown, hnone]
      rfl
    | some known =>
      have hsome : j.typeName?.bind actionFields? = some known := hknown
      rw [map_unrecognized hknown, unknownTagged_of_some hknown, hsome]
      simp only [Role.places, List.flatMap_cons, List.flatMap_nil, List.append_nil, findings_items,
        Option.isSome_some, if_true]
      cases j.field? "actions" <;> rfl

/-! ## Payloads -/

/-- A payload is a document or a node. -/
def role (j : Json) : Role :=
  if j.isDocument then .document else .node

def unrecognized (j : Json) : List (Address × String) :=
  j.role.unrecognized j

/-- The path of a key in an object of a payload; the sections of a document stand at the top. -/
def keyPath (j : Json) (address : Address) (key : String) : Path :=
  if j.isDocument then
    match address with
    | .field name :: address => ((Path.top name).follow address).field key
    | _ => .top key
  else (Path.root.follow address).field key

/-- The warning for an unrecognized field of a payload. -/
def unrecognizedAt (j : Json) (field : Address × String) : Finding :=
  (j.keyPath field.1 field.2).warning field.2

private theorem unrecognizedAt_below {j : Json} (h : j.isDocument = true) (name : String)
    (field : Address × String) :
    j.unrecognizedAt (below (.field name) field) = (Path.top name).unrecognized field := by
  simp only [unrecognizedAt, keyPath, h, if_true, below, Path.unrecognized]

private theorem findings_scripts (j : Json) (path : Path) :
    Holding.scripts.findings j path
      = (j.fields?.getD []).flatMap fun script =>
          (script.2.items?.getD []).zipIdx.flatMap fun action =>
            action.1.unknownInAction ((path.field script.1).item action.2) := by
  simp only [Holding.findings, Holding.unrecognized, Holding.parts, List.flatMap_assoc,
    List.map_flatMap, List.flatMap_map, Part.map_unrecognized, Part.ofItems,
    unknownInAction_eq_map]
  rfl

private theorem map_unrecognizedAt {j : Json} (h : j.isDocument = true) :
    (Role.document.unrecognized j).map j.unrecognizedAt
      = unknownKeys (j.fields?.getD []) documentFields .top
        ++ (Role.document.places documentFields).flatMap fun place =>
          (j.field? place.1).elim [] fun value => place.2.findings value (.top place.1) := by
  cases j with
  | object fields =>
    have hknown : Role.document.known? (object fields) = some documentFields := rfl
    rw [Role.unrecognized_of_some hknown, List.map_append, List.map_map, List.map_flatMap]
    refine congrArg₂ (· ++ ·) (List.map_congr_left fun key _ => ?_)
      (List.flatMap_congr fun place _ => ?_)
    · simp only [Function.comp_apply, unrecognizedAt, keyPath, h, if_true]
      rfl
    · simp only [map_elim, List.map_map, Function.comp_def, unrecognizedAt_below h]
      rfl
  | _ => simp [isDocument, field?] at h

theorem exists_root_of_isDocument {j : Json} (h : j.isDocument = true) :
    ∃ fields root, j = object fields ∧ j.field? "root" = some root ∧ j.rootValue = root := by
  cases j with
  | object fields =>
    have hroot : ((object fields).field? "root").isSome := (Bool.and_eq_true _ _ ▸ h).1
    obtain ⟨root, hroot⟩ := Option.isSome_iff_exists.mp hroot
    exact ⟨fields, root, rfl, hroot, by rw [rootValue, if_pos h, hroot]; rfl⟩
  | _ => simp [isDocument, field?] at h

/-- The warnings of a payload, before repeats are dropped, are its unrecognized fields. -/
theorem unknown_eq_map (j : Json) :
    (if j.isDocument then j.unknownInDocument else []) ++ j.rootValue.unknownInTree .root
      = j.unrecognized.map j.unrecognizedAt := by
  by_cases hdocument : j.isDocument = true
  · obtain ⟨fields, root, rfl, hroot, hvalue⟩ := exists_root_of_isDocument hdocument
    have htree : root.unknownInTree .root
        = (Holding.whole .node).findings root (.top "root") := by
      rw [unknownInTree_eq_map, findings_whole]
      refine List.map_congr_left fun field _ => ?_
      have htext := Path.text_follow_congr (p := .root) (q := .top "root") rfl field.1
      simp only [Path.unrecognized, Path.warning, Path.text, htext]
    rw [unrecognized, role, if_pos hdocument, if_pos hdocument, map_unrecognizedAt hdocument,
      hvalue, htree, unknownInDocument]
    simp only [Role.places, List.flatMap_cons, List.flatMap_nil, List.append_nil, hroot,
      Option.elim_some, findings_scripts, List.append_assoc, fields?, Option.getD_some]
    cases (object fields).field? "actions" <;> rfl
  · rw [if_neg hdocument, List.nil_append, rootValue, if_neg hdocument, unknownInTree_eq_map,
      unrecognized, role, if_neg hdocument]
    refine List.map_congr_left fun field _ => ?_
    simp [unrecognizedAt, keyPath, hdocument, Path.unrecognized]

end Json

end ScreenDoc
