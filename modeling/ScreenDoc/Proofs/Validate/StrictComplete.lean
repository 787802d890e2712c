import ScreenDoc.Proofs.Validate.StrictSound
import ScreenDoc.Proofs.Wire.Ignored

/-!
# Strict validation misses nothing that is written out

The search for unrecognized fields follows the parts that decoding follows, as far as they are
written as objects with their tags spelled out.
-/

namespace ScreenDoc

open Json

/-! ## Tables of tags -/

private theorem operationFields?_of_mem : ∀ tag ∈ Operation.tags,
    operationFields? tag = some (Operation.fieldsOf tag) := by
  decide

private theorem shapeFields?_of_mem :
    ∀ tag ∈ Shape.tags, shapeFields? tag = some (Shape.fieldsOf tag) := by
  decide

private theorem actionFields?_of_mem : ∀ tag ∈ Action.tags,
    actionFields? tag = some (Action.fieldsOf tag) := by
  decide

private theorem payloadFields?_of_mem : ∀ tag ∈ Properties.tags,
    payloadFields? tag = (NodeType.ofPayloadTag? tag).map NodeType.payloadFields := by
  decide

private theorem payloadFields_of_slotKeys (type : NodeType) :
    ∀ key ∈ Properties.slotKeys type, key ∈ Rules.childKeys.filter type.payloadFields.contains := by
  cases type <;> decide

private theorem payloadFields_of_listKeys (type : NodeType) :
    ∀ key ∈ Properties.listKeys type, key ∈ Rules.childKeys.filter type.payloadFields.contains := by
  cases type <;> decide

theorem tag_of_typeName? {j : Json} (hj : j.Distinct) {tags : List String} {tagged : String × Json}
    {name : String} (hname : j.typeName? = some name) (h : j.tagged? tags true = some tagged) :
    tagged.1 = name ∧ name ∈ tags := by
  obtain ⟨fields, rfl⟩ := object_of_typeName? hname
  obtain ⟨value, hvalue, hstring⟩ := Option.bind_eq_some_iff.mp hname
  have hget : KeyMap.get? fields "type" = some value := hvalue
  rw [tagged?_object_of_nodup hj.nodup, hget, Option.bind_some] at h
  obtain ⟨tag, htag, rfl⟩ := Option.map_eq_some_iff.mp h
  cases value with
  | string s =>
    cases hstring
    rw [tag?] at htag
    split at htag
    · rename_i hmem
      cases htag
      exact ⟨rfl, by simpa using hmem⟩
    · cases htag
  | _ => cases hstring

/-! ## One step of the search -/

namespace Role

/-- What the search knows of a value covers what its reader looks for. -/
structure Covers (role : Role) (j : Json) (layout : Layout) (known : List String) : Prop where
  table : role.known? j = some known
  names : ∀ key ∈ known, key ∈ layout.names
  holds : ∀ key holding, (key, holding) ∈ layout.holds → ∃ place,
    (key, place) ∈ role.places known ∧ ∀ value, ∀ part ∈ holding.parts value,
      part.role.IsSpelled part.value → part ∈ place.parts value

theorem children_parts {holding : Holding} (h : holding = .whole .node ∨ holding = .items .node)
    (value : Json) : ∀ part ∈ holding.parts value, part.role.IsSpelled part.value →
      part ∈ Holding.children.parts value := by
  intro part hpart hspelled
  rcases h with rfl | rfl
  · obtain rfl := List.mem_singleton.mp hpart
    obtain ⟨fields, rfl⟩ := hspelled.object
    exact List.mem_singleton_self _
  · cases value with
    | array items => exact hpart
    | _ => cases hpart

private theorem covers_payload {type : NodeType} {j : Json} {tag : String}
    (htag : j.typeName? = some tag) (hmem : tag ∈ Properties.tags)
    (htype : NodeType.ofPayloadTag? tag = some type) :
    payload.Covers j ⟨"type" :: type.payloadFields,
      (Properties.slotKeys type).map (fun key => (key, .whole .node))
        ++ (Properties.listKeys type).map fun key => (key, .items .node)⟩ type.payloadFields where
  table := by
    rw [known?, htag, Option.bind_some, payloadFields?_of_mem tag hmem, htype, Option.map_some]
  names key hkey := List.mem_cons_of_mem _ hkey
  holds key holding hplace := by
    refine ⟨.children, ?_⟩
    rcases List.mem_append.mp hplace with hplace | hplace
    · obtain ⟨key, hkey, heq⟩ := List.mem_map.mp hplace
      cases heq
      exact ⟨List.mem_map_of_mem (payloadFields_of_slotKeys type key hkey),
        children_parts (.inl rfl)⟩
    · obtain ⟨key, hkey, heq⟩ := List.mem_map.mp hplace
      cases heq
      exact ⟨List.mem_map_of_mem (payloadFields_of_listKeys type key hkey),
        children_parts (.inr rfl)⟩

theorem exists_covers {role : Role} {j : Json} {layout : Layout} (hj : j.Distinct)
    (hspelled : role.IsSpelled j) (hlayout : role.layout? j = some layout) :
    ∃ known, role.Covers j layout known := by
  have hsame {role : Role} {layout : Layout} {known : List String}
      (hknown : role.known? j = some known)
      (hnames : ∀ key ∈ known, key ∈ layout.names)
      (hholds : ∀ place ∈ layout.holds, place ∈ role.places known) :
      role.Covers j layout known :=
    ⟨hknown, hnames, fun key holding hplace =>
      ⟨holding, hholds _ hplace, fun _ _ hpart _ => hpart⟩⟩
  -- Only payloads differ: the search takes all their children for nodes or lists of nodes.
  cases role with
  | document =>
    cases hlayout
    obtain ⟨fields, rfl⟩ := hspelled.object
    exact ⟨documentFields, hsame rfl (by decide) (by simp [places])⟩
  | node =>
    cases hlayout
    obtain ⟨fields, rfl⟩ := hspelled.object
    exact ⟨nodeFields, hsame rfl (by decide) (by simp [places])⟩
  | modifier =>
    cases hlayout
    obtain ⟨fields, rfl⟩ := hspelled.object
    exact ⟨modifierFields, hsame rfl (by decide) (by simp [places])⟩
  | operation =>
    obtain ⟨tag, htag⟩ := Option.isSome_iff_exists.mp hspelled
    obtain ⟨tagged, htagged, rfl⟩ := Option.map_eq_some_iff.mp hlayout
    obtain ⟨rfl, hmem⟩ := tag_of_typeName? hj htag htagged
    exact ⟨_, hsame (by rw [known?, htag, Option.bind_some, operationFields?_of_mem _ hmem])
      (fun key hkey => List.mem_cons_of_mem _ hkey)
      fun place hplace => (List.mem_ite_nil_right.mp hplace).2⟩
  | shape =>
    obtain ⟨tag, htag⟩ := Option.isSome_iff_exists.mp hspelled
    obtain ⟨tagged, htagged, rfl⟩ := Option.map_eq_some_iff.mp hlayout
    obtain ⟨rfl, hmem⟩ := tag_of_typeName? hj htag htagged
    exact ⟨_, hsame (by rw [known?, htag, Option.bind_some, shapeFields?_of_mem _ hmem])
      (fun key hkey => List.mem_cons_of_mem _ hkey) (List.forall_mem_nil _)⟩
  | payload =>
    obtain ⟨tag, htag⟩ := Option.isSome_iff_exists.mp hspelled
    obtain ⟨tagged, htagged, hrest⟩ := Option.bind_eq_some_iff.mp hlayout
    obtain ⟨type, htype, heq⟩ := Option.bind_eq_some_iff.mp hrest
    obtain ⟨rfl, hmem⟩ := tag_of_typeName? hj htag htagged
    cases heq
    exact ⟨_, covers_payload htag hmem htype⟩
  | action =>
    obtain ⟨tag, htag⟩ := Option.isSome_iff_exists.mp hspelled
    obtain ⟨tagged, htagged, rfl⟩ := Option.map_eq_some_iff.mp hlayout
    obtain ⟨rfl, hmem⟩ := tag_of_typeName? hj htag htagged
    exact ⟨_, hsame (by rw [known?, htag, Option.bind_some, actionFields?_of_mem _ hmem])
      (fun key hkey => List.mem_cons_of_mem _ hkey)
      fun place hplace => (List.mem_ite_nil_right.mp hplace).2⟩

/-- In a value that is written out, every ignored key but `type` is unrecognized. -/
theorem mem_unrecognized_of_ignored {role : Role} {j : Json} (hj : j.Distinct)
    (hspelled : role.IsSpelled j) {key : String} (hkey : key ∈ role.ignored j)
    (htype : key ≠ "type") : ([], key) ∈ role.unrecognized j := by
  obtain ⟨layout, hlayout, hmem, hname⟩ := mem_ignored hkey
  obtain ⟨known, hcovers⟩ := exists_covers hj hspelled hlayout
  have hunknown : key ∉ known := fun hmem => hname (hcovers.names key hmem)
  rw [mem_unrecognized_nil hcovers.table, unknownNames, List.mem_filter]
  exact ⟨hmem, by simp [htype, hunknown]⟩

/-- A part that is decoded with a value that is written out is followed, if it is written out
itself. -/
theorem mem_parts_of_readParts {role : Role} {j : Json} (hj : j.Distinct)
    (hspelled : role.IsSpelled j) {part : Part} (hpart : part ∈ role.readParts j)
    (hinner : part.role.IsSpelled part.value) :
    ∃ known, role.known? j = some known ∧ part ∈ role.parts known j := by
  obtain ⟨layout, key, holding, step, value, inner, hlayout, hholding, hentry, hmem, rfl⟩ :=
    mem_readParts hpart
  obtain ⟨known, hcovers⟩ := exists_covers hj hspelled hlayout
  obtain ⟨place, hfollowed, hparts⟩ := hcovers.holds key holding hholding
  obtain ⟨fields, rfl⟩ := hspelled.object
  obtain ⟨found, hfound, heq⟩ := Option.map_eq_some_iff.mp hentry
  cases heq
  refine ⟨known, hcovers.table, List.mem_flatMap.mpr ⟨(key, place), hfollowed, ?_⟩⟩
  simp only [field?, hfound]
  exact List.mem_map_of_mem (hparts value inner hmem hinner)

/-! ## The whole search -/

private theorem mem_unrecognized_of_parts {role : Role} {j : Json} {known : List String}
    (hknown : role.known? j = some known) {part : Part} (hpart : part ∈ role.parts known j)
    {field : Address × String} (h : field ∈ part.role.unrecognized part.value) :
    (part.address ++ field.1, field.2) ∈ role.unrecognized j := by
  rw [unrecognized, hknown]
  refine List.mem_append_right _ (List.mem_flatMap.mpr ⟨⟨part, hpart⟩, List.mem_attach _ _, ?_⟩)
  exact List.mem_map.mpr ⟨field, h, rfl⟩

private theorem distinct_of_mem_parts {role : Role} {j : Json} (hj : j.Distinct)
    {known : List String} {part : Part} (h : part ∈ role.parts known j) : part.value.Distinct := by
  obtain ⟨key, holding, value, -, hvalue, inner, hinner, rfl⟩ := exists_of_mem_parts h
  have hdistinct : inner.value.Distinct := Holding.distinct_of_parts (hj.field? hvalue) hinner
  exact hdistinct

private theorem mem_unrecognized_of_reads {role inner : Role} {j value : Json} {address : Address}
    (h : role.Reads j address inner value) (hj : j.Distinct) (hspelled : role.SpelledTo j address)
    {key : String} (hkey : key ∈ inner.ignored value) (htype : key ≠ "type") :
    (address, key) ∈ role.unrecognized j := by
  -- Induction on what is decoded: the search takes every step that decoding takes, as long as what
  -- it meets is written out.
  induction h with
  | here role j => exact mem_unrecognized_of_ignored hj hspelled.here hkey htype
  | part hpart hreads ih =>
    have hinner := hspelled.part hpart
    obtain ⟨known, hknown, hfollowed⟩ :=
      mem_parts_of_readParts hj hspelled.here hpart hinner.here
    exact mem_unrecognized_of_parts hknown hfollowed
      (ih (distinct_of_mem_parts hj hfollowed) hinner hkey)

end Role

private theorem Finding.filter_distinct {fs : List Finding} {code : ErrorCode}
    (hcode : ∀ g ∈ fs, g.code = code) {f : Finding} (hf : f ∈ fs) :
    ∃ g ∈ fs, g.path = f.path ∧ (distinct fs).filter (fun h => h.path == f.path) = [g] := by
  obtain ⟨g, hg, hkey⟩ := List.mem_map.mp (mem_map_key_distinct.mpr (List.mem_map_of_mem hf))
  have hpath : g.path = f.path := congrArg Prod.fst hkey
  refine ⟨g, mem_of_mem_distinct hg, hpath, ?_⟩
  have hsame : ∀ h ∈ distinct fs, (h.path == f.path) = decide (h = g) := by
    intro h hh
    refine Bool.eq_iff_iff.mpr ⟨fun heq => ?_, fun heq => ?_⟩
    · refine decide_eq_true (List.inj_on_of_nodup_map (nodup_map_key_distinct fs) hh hg ?_)
      rw [key, key, hcode h (mem_of_mem_distinct hh), hcode g (mem_of_mem_distinct hg), hpath,
        beq_iff_eq.mp heq]
    · rw [of_decide_eq_true heq, hpath]
      exact beq_self_eq_true _
  rw [List.filter_congr hsame, List.filter_eq,
    List.count_eq_one_of_mem (List.Nodup.of_map key (nodup_map_key_distinct fs)) hg]
  rfl

namespace Payload

/-- Strict validation is complete. Every key but `type` that decoding ignores, in an object that is
reached through what is written out, is among the unrecognized fields, and exactly one finding
stands at its path: the warning for it, or for another such field whose path reads the same. -/
theorem validate_complete {text : String}
    (h : Finding.isValid (Payload.validate true text) = true) :
    ∃ j p, Json.ofText text = .ok j ∧ Payload.decode text = .ok p
      ∧ ∀ address key, j.Ignores address key → j.role.SpelledTo j address → key ≠ "type" →
        (address, key) ∈ j.unrecognized
          ∧ ∃ other ∈ j.unrecognized,
            (j.unrecognizedAt other).path = (j.keyPath address key).text
              ∧ (Payload.validate true text).filter
                  (fun f => f.path == (j.keyPath address key).text) = [j.unrecognizedAt other] := by
  obtain ⟨j, p, hread, hdistinct, -, hp, hfound⟩ := exists_value_of_isValid h
  rw [unknown_eq_map] at hfound
  refine ⟨j, p, hread, decode_of_ofText hread hp, ?_⟩
  rintro address key ⟨role, value, hreads, hkey⟩ hspelled htype
  have hmem := Role.mem_unrecognized_of_reads hreads hdistinct hspelled hkey htype
  have hcode : ∀ f ∈ j.unrecognized.map j.unrecognizedAt, f.code = .unrecognizedProperties := by
    intro f hf
    obtain ⟨field, -, rfl⟩ := List.mem_map.mp hf
    rfl
  obtain ⟨f, hf, hpath, hfilter⟩ := Finding.filter_distinct hcode (List.mem_map_of_mem hmem)
  obtain ⟨other, hother, rfl⟩ := List.mem_map.mp hf
  rw [hfound]
  exact ⟨hmem, other, hother, hpath, hfilter⟩

theorem ofText_of_sorted {j : Json} (hsorted : j.Sorted) (hreads : j.ReadsBack)
    (hdepth : j.depth ≤ Draft.roomAtTop) : Json.ofText j.text = .ok j := by
  rw [Json.ofText_text hreads hdepth, Json.canonical_of_sorted hsorted]

/-- A node whose modifier has a field too many. -/
def gappedNode : Json :=
  .object [
    ("composeModifier", .object [("gap", .null), ("operations", .array [])]),
    ("type", .string "Text")]

/-- The field is ignored, it is reached through what is written out, and it has its warning. -/
theorem validate_complete_gappedNode :
    Finding.isValid (Payload.validate true gappedNode.text) = true
      ∧ Json.ofText gappedNode.text = .ok gappedNode
      ∧ gappedNode.Ignores [.field "composeModifier"] "gap"
      ∧ gappedNode.role.SpelledTo gappedNode [.field "composeModifier"]
      ∧ ∃ other ∈ gappedNode.unrecognized,
        (Payload.validate true gappedNode.text).filter
            (fun f => f.path == "root.composeModifier.gap")
          = [gappedNode.unrecognizedAt other] := by
  have hread : Json.ofText gappedNode.text = .ok gappedNode :=
    ofText_of_sorted (by decide) (List.forall_mem_nil _) (by decide +kernel)
  have hvalid : Finding.isValid (Payload.validate true gappedNode.text) = true := by
    rw [validate_of_ofText hread]
    decide +kernel
  have hignores : gappedNode.Ignores [.field "composeModifier"] "gap" :=
    ⟨.modifier, _, .nth 0 rfl (.here _ _) rfl, by decide⟩
  have hspelled : gappedNode.role.SpelledTo gappedNode [.field "composeModifier"] := by
    refine .of_parts rfl fun part hpart rest heq => ?_
    obtain rfl := List.mem_singleton.mp hpart
    exact .of_parts rfl fun part hpart => absurd hpart List.not_mem_nil
  obtain ⟨j, -, hj, -, hcomplete⟩ := validate_complete hvalid
  obtain rfl : gappedNode = j := Except.ok.inj (hread.symm.trans hj)
  obtain ⟨-, other, hother, -, hfilter⟩ := hcomplete _ _ hignores hspelled (by decide)
  have hpath : (gappedNode.keyPath [.field "composeModifier"] "gap").text
      = "root.composeModifier.gap" := by decide +kernel
  rw [hpath] at hfilter
  exact ⟨hvalid, hread, hignores, hspelled, other, hother, hfilter⟩

/-- A node whose modifier has a tag. -/
def taggedModifier : Json :=
  .object [
    ("composeModifier", .object [("operations", .array []), ("type", .string "Modifier")]),
    ("type", .string "Text")]

/-- A node with two fields too many whose paths read alike. -/
def dottedKey : Json :=
  .object [
    ("composeModifier", .object [("gap", .null)]),
    ("composeModifier.gap", .null),
    ("type", .string "Text")]

/-- Both exceptions are used. A tag is left out wherever it stands, also in a modifier, which has
none; and of two fields with one path only the first has a warning. -/
theorem validate_complete_sharp :
    (Payload.validate true taggedModifier.text = []
        ∧ Json.ofText taggedModifier.text = .ok taggedModifier
        ∧ taggedModifier.Ignores [.field "composeModifier"] "type")
      ∧ (Payload.validate true dottedKey.text
            = [.warning "root.composeModifier.gap" .unrecognizedProperties
              "unrecognized field 'composeModifier.gap'"]
        ∧ Json.ofText dottedKey.text = .ok dottedKey
        ∧ dottedKey.Ignores [] "composeModifier.gap"
        ∧ dottedKey.Ignores [.field "composeModifier"] "gap") := by
  have htagged := ofText_of_sorted (j := taggedModifier) (by decide) (List.forall_mem_nil _)
    (by decide +kernel)
  have hdotted := ofText_of_sorted (j := dottedKey) (by decide) (List.forall_mem_nil _)
    (by decide +kernel)
  refine ⟨⟨?_, htagged, ?_⟩, ⟨?_, hdotted, ?_, ?_⟩⟩
  · rw [validate_of_ofText htagged]
    decide +kernel
  · exact ⟨.modifier, _, .nth 0 rfl (.here _ _) rfl, by decide⟩
  · rw [validate_of_ofText hdotted]
    decide +kernel
  · exact ⟨.node, _, .here _ _, by decide⟩
  · exact ⟨.modifier, _, .nth 0 rfl (.here _ _) rfl, by decide⟩

/-- A node whose payload is written by position, with a field too many in its child. -/
def positionalPayload : Json :=
  .object [
    ("properties", .array [.string "ButtonProps",
      .object [("gap", .null), ("type", .string "Text")]]),
    ("type", .string "Button")]

/-- A document with an action that gives the number of its tag, and a field too many. -/
def numberedAction : Json :=
  .object [
    ("actions", .object [("go", .array [.object [
      ("actions", .array [.object [
        ("gap", .null), ("message", .string "m"), ("type", .number (.int 2))]]),
      ("type", .string "Sequence")]])]),
    ("root", .object [("type", .string "Text")])]

/-- Strict validation misses what is not written out. It finds nothing in either value, although
decoding takes both and ignores a field: one in the child of a payload that is written by position,
one in an action that gives the number of its tag. -/
theorem validate_incomplete :
    (Payload.validate true positionalPayload.text = []
        ∧ Json.ofText positionalPayload.text = .ok positionalPayload
        ∧ positionalPayload.Ignores [.field "properties", .item 1] "gap")
      ∧ (Payload.validate true numberedAction.text = []
        ∧ Json.ofText numberedAction.text = .ok numberedAction
        ∧ numberedAction.Ignores
          [.field "actions", .field "go", .item 0, .field "actions", .item 0] "gap") := by
  have hpositional := ofText_of_sorted (j := positionalPayload) (by decide)
    (List.forall_mem_nil _) (by decide +kernel)
  have hnumbered := ofText_of_sorted (j := numberedAction) (by decide)
    (List.forall_mem_singleton.mpr (Number.readsBack_int ⟨by decide, by decide⟩))
    (by decide +kernel)
  refine ⟨⟨?_, hpositional, ?_⟩, ⟨?_, hnumbered, ?_⟩⟩
  · rw [validate_of_ofText hpositional]
    decide +kernel
  · exact ⟨.node, _, .nth 0 rfl (.nth 0 rfl (.here _ _) rfl) rfl, by decide⟩
  · rw [validate_of_ofText hnumbered]
    decide +kernel
  · exact ⟨.action, _, .nth 0 rfl (.nth 0 rfl (.here _ _) rfl) rfl, by decide⟩

end Payload

end ScreenDoc
