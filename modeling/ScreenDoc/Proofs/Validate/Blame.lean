import ScreenDoc.Proofs.Validate.Tags
import ScreenDoc.Proofs.Wire.Children

/-!
# The node to blame

Where the root does not decode, validation goes down from it to a child that does not decode alone,
as long as there is one, and names the node where this ends. The search knows neither the tag of a
payload nor a payload that is an array, and it decodes every node alone: how far the node that it
names is the one at fault is said here in these terms.
-/

namespace ScreenDoc

namespace Json

/-! ## The search -/

/-- The search for the node to blame, from a node that does not decode alone: on to a child that
does not decode either, as long as there is one. -/
inductive Blames : Json → List ChildPlace → Json → Prop where
  | here {j : Json} (hfails : Node.ofJson? false j = none)
    (hchildren : ∀ child ∈ j.childNodes, (Node.ofJson? false child.2).isSome) : Blames j [] j
  | deeper {j culprit : Json} {child : ChildPlace × Json} {address : List ChildPlace}
    (hfails : Node.ofJson? false j = none) (hchild : child ∈ j.childNodes)
    (h : Blames child.2 address culprit) : Blames j (child.1 :: address) culprit

theorem blame?_eq (j : Json) (path : Path) :
    j.blame? path =
      if (Node.ofJson? false j).isSome then none
      else some ((j.childNodes.findSome? fun child =>
        child.2.blame? (path.properties.child child.1)).getD path) := by
  rw [blame?, List.findSome?_subtype fun _ _ => rfl, List.unattach_attach]

private theorem exists_blames {j : Json} (h : Node.ofJson? false j = none)
    (front : List ChildPlace) : ∃ address culprit, j.Blames address culprit ∧
      j.blame? (Path.ofAddress front) = some (Path.ofAddress (front ++ address)) := by
  induction j using childNodes_induction generalizing front with
  | node j ih =>
    rw [blame?_eq, h]
    simp only [Option.isSome_none, Bool.false_eq_true, if_false]
    cases hfound : j.childNodes.findSome? fun child =>
        child.2.blame? ((Path.ofAddress front).properties.child child.1) with
    | none =>
      refine ⟨[], j, .here h fun child hchild => ?_, by simp⟩
      have hnone := List.findSome?_eq_none_iff.mp hfound child hchild
      rw [blame?_eq] at hnone
      split at hnone
      · assumption
      · cases hnone
    | some path =>
      obtain ⟨child, hchild, hpath⟩ := List.exists_of_findSome?_eq_some hfound
      rw [← Path.ofAddress_concat] at hpath
      have hfails : Node.ofJson? false child.2 = none := by
        rw [blame?_eq] at hpath
        split at hpath
        · cases hpath
        · rename_i hnot
          simpa using hnot
      obtain ⟨address, culprit, hblames, heq⟩ := ih child hchild hfails (front ++ [child.1])
      refine ⟨child.1 :: address, culprit, .deeper h hchild hblames, ?_⟩
      rw [Option.getD_some, ← hpath, heq, List.append_assoc, List.singleton_append]

namespace Blames

variable {root j culprit : Json} {front address : List ChildPlace}

theorem fails (h : j.Blames address culprit) : Node.ofJson? false culprit = none := by
  induction h with
  | here hfails => exact hfails
  | deeper _ _ _ ih => exact ih

theorem children (h : j.Blames address culprit) :
    ∀ child ∈ culprit.childNodes, (Node.ofJson? false child.2).isSome := by
  induction h with
  | here _ hchildren => exact hchildren
  | deeper _ _ _ ih => exact ih

theorem nodeAt (h : j.Blames address culprit) (hat : NodeAt root front j) :
    NodeAt root (front ++ address) culprit := by
  induction h generalizing front with
  | here => rwa [List.append_nil]
  | @deeper j culprit child address hfails hchild h ih =>
    rw [List.append_cons]
    exact ih (hat.child hchild)

theorem fails_along (h : j.Blames address culprit) (hat : NodeAt root front j)
    {middle : List ChildPlace} {value : Json} (hfront : middle <+: address)
    (hvalue : NodeAt root (front ++ middle) value) : Node.ofJson? false value = none := by
  induction h generalizing front middle with
  | here hfails =>
    rw [List.prefix_nil.mp hfront, List.append_nil] at hvalue
    rwa [hvalue.unique hat]
  | @deeper j culprit child address hfails hchild h ih =>
    cases middle with
    | nil =>
      rw [List.append_nil] at hvalue
      rwa [hvalue.unique hat]
    | cons place middle =>
      obtain ⟨rfl, hrest⟩ := List.cons_prefix_cons.mp hfront
      rw [List.append_cons] at hvalue
      exact ih (hat.child hchild) hrest hvalue

end Blames

theorem NodeAt.exists_parent {root c : Json} {address : List ChildPlace} {place : ChildPlace}
    (h : NodeAt root (address ++ [place]) c) :
    ∃ j, NodeAt root address j ∧ (place, c) ∈ j.childNodes := by
  generalize heq : address ++ [place] = whole at h
  cases h with
  | root => simp at heq
  | slot h hpayload hkey hchild =>
    obtain ⟨rfl, rfl⟩ := List.append_inj' heq rfl |>.imp_right (by simpa using ·)
    exact ⟨_, h, mem_childNodes hpayload hkey hchild (List.mem_singleton_self _)⟩
  | item h hpayload hkey hlist hitem =>
    obtain ⟨rfl, rfl⟩ := List.append_inj' heq rfl |>.imp_right (by simpa using ·)
    exact ⟨_, h, mem_childNodes hpayload hkey hlist (mem_childrenUnder_item hitem)⟩

theorem NodeAt.at?_nodeSteps {root j : Json} {address : List ChildPlace}
    (h : NodeAt root address j) : root.at? (nodeSteps address) = some j := by
  induction h with
  | root => rfl
  | slot h hpayload hkey hchild ih =>
    rw [nodeSteps_concat, at?_append, ih, Option.bind_some, at?, hpayload]
    simp [ChildPlace.steps, at?, field?, hchild]
  | item h hpayload hkey hlist hitem ih =>
    rw [nodeSteps_concat, at?_append, ih, Option.bind_some, at?, hpayload]
    simp [ChildPlace.steps, at?, field?, item?, hlist, hitem]

private theorem NodeAt.exists_above {root j : Json} {address front : List ChildPlace}
    (h : NodeAt root address j) (hfront : front <+: address) :
    ∃ value, NodeAt root front value := by
  induction address using List.reverseRecOn generalizing j with
  | nil => exact ⟨root, List.prefix_nil.mp hfront ▸ .root⟩
  | append_singleton address place ih =>
    rcases List.prefix_concat_iff.mp hfront with rfl | hfront
    · exact ⟨j, h⟩
    · obtain ⟨parent, hparent, -⟩ := h.exists_parent
      exact ih hparent hfront

/-! ## The way to the node -/

/-- Every place on the way to a position is one that the payload there has. -/
def ReadsWay (root : Json) (address : List ChildPlace) : Prop :=
  ∀ front place value, NodeAt root front value → front ++ [place] <+: address →
    value.ReadsChild place

private theorem NodeAt.reads {root j : Json} {address : List ChildPlace} (h : NodeAt root address j)
    (hway : root.ReadsWay address) : Role.node.Reads root (nodeSteps address) .node j := by
  induction address using List.reverseRecOn generalizing j with
  | nil =>
    rw [h.unique .root]
    exact .here .node root
  | append_singleton address place ih =>
    obtain ⟨parent, hparent, hchild⟩ := h.exists_parent
    have hread := ih hparent fun front place value hvalue hfront =>
      hway front place value hvalue (hfront.trans (List.prefix_append _ _))
    rw [nodeSteps_concat]
    exact hread.trans (reads_child hchild (hway address place parent hparent List.prefix_rfl))

/-- What the search finds under a key that the payload there does not have decodes alone. -/
def StraysDecode (root : Json) : Prop :=
  ∀ front place value child, NodeAt root front value → NodeAt root (front ++ [place]) child →
    ¬value.ReadsChild place → (Node.ofJson? false child).isSome

theorem Blames.readsWay {root culprit : Json} {address : List ChildPlace}
    (h : root.Blames address culprit) (hstrays : root.StraysDecode) : root.ReadsWay address := by
  intro front place value hvalue hfront
  by_contra hstray
  obtain ⟨child, hchild⟩ := (h.nodeAt .root).exists_above hfront
  have hfails := h.fails_along .root hfront hchild
  have hsome := hstrays front place value child hvalue hchild hstray
  rw [hfails] at hsome
  cases hsome

/-! ## Below the node -/

/-- Everything that is decoded on the way down to a part is an object. -/
def ObjectsTo (j : Json) (steps : Address) : Prop :=
  ∀ front role value, Role.node.Reads j front role value → front <+: steps →
    ∃ fields, value = object fields

/-- Below a node whose children in the search decode alone, every object that is decoded as a node
decodes in its place, if all on the way to it are objects. -/
theorem decodes_below {j child : Json} {steps : Address}
    (hchildren : ∀ child ∈ j.childNodes, (Node.ofJson? false child.2).isSome)
    (hsteps : steps ≠ []) (hreads : Role.node.Reads j steps .node child)
    (hobjects : j.ObjectsTo steps) : (Node.ofJson? true child).isSome := by
  obtain ⟨fields, rfl⟩ := hobjects [] .node j (.here _ _) List.nil_prefix
  obtain ⟨inner, hinner⟩ := hobjects steps .node child hreads List.prefix_rfl
  cases hreads with
  | here => exact absurd rfl hsteps
  | part hpart hrest =>
    rcases Role.mem_readParts_node hpart with ⟨payload, hpayload, rfl⟩ | hmodifier
    · have hread := payload_mem_readParts (j := .object fields) hpayload
      obtain ⟨inside, rfl⟩ :=
        hobjects _ .payload payload (.part hread (.here _ _)) (List.prefix_append _ _)
      cases hrest with
      | @part _ _ first rest _ _ hfirst hrest =>
        obtain ⟨front, role, value⟩ := first
        obtain ⟨rfl, hplace⟩ := Role.mem_readParts_payload hfirst
        have hvalue : ∃ inner, value = .object inner := by
          refine hobjects _ .node value (.part hread (.part hfirst (.here _ _))) ?_
          simp
        obtain ⟨place, hmem⟩ := hplace _ hvalue.choose_spec
        have hchild : (place, value) ∈ (Json.object fields).childNodes := by
          rw [childNodes, payload?_eq_some_iff (j := .object fields) |>.mpr hpayload]
          exact hmem
        obtain ⟨n, hn⟩ := Option.isSome_iff_exists.mp (hchildren _ hchild)
        rcases hrest.decodes (Role.decodes_of_some .node false hn) with hnull | ⟨b, hsome⟩
        · rw [hinner] at hnull
          cases hnull
        · exact Node.isSome_ofJson?_buffered hsome
    · have hstyling := hrest.styling (hmodifier ▸ List.mem_cons_self)
      exact absurd hstyling (by decide)

/-! ## The node that is named -/

/-- The path of the address names the node to blame in the root. -/
structure Blamed (root : Json) (address : List ChildPlace) (culprit : Json) : Prop where
  position : NodeAt root address culprit
  leads : root.follow? (Path.ofAddress address).text = some culprit
  /-- No node on the way decodes alone, the named one included. -/
  fails : ∀ front value, NodeAt root front value → front <+: address →
    Node.ofJson? false value = none
  /-- Every child of the node in the search decodes, alone and in its place. -/
  children : ∀ place child, NodeAt root (address ++ [place]) child →
    (Node.ofJson? false child).isSome ∧ (Node.ofJson? true child).isSome
  /-- Every node below it that is decoded through objects decodes in its place. -/
  below : ∀ steps child, steps ≠ [] → Role.node.Reads culprit steps .node child →
    culprit.ObjectsTo steps → (Node.ofJson? true child).isSome
  /-- Decoding the root comes to the node, through payloads that have the keys of the path. -/
  read : root.StraysDecode →
    root.ReadsWay address ∧ Role.node.Reads root (nodeSteps address) .node culprit
  /-- If its payload is no array, the fault is in the own content of the node. -/
  own : (∀ items, culprit.field? "properties" ≠ some (array items)) → ¬Node.OwnDecodes culprit
  /-- If no number stands for a tag, the node does not decode in its place either. -/
  place : ¬Node.NumbersTags culprit → Node.ofJson? true culprit = none
  /-- If it does not decode in its place, decoding fails of everything that reads it. -/
  forces : Node.ofJson? true culprit = none → ∀ other steps buffered,
    Role.node.Reads other steps .node culprit → Node.ofJson? buffered other = none

theorem NodeAt.exists_type {root j : Json} {address : List ChildPlace} (h : NodeAt root address j)
    (htags : root.checkTags .root = []) :
    (∃ fields, j = object fields) ∧
      ∃ type : NodeType, j.field? "type" = some (.string type.name) := by
  have hmisses (fault : TagFault) : ¬j.Misses fault := fun hfault => by
    have hmem := mem_map_key_checkTags.mpr ⟨address, j, fault, h, hfault, rfl⟩
    rw [htags] at hmem
    cases hmem
  have hobject : ∃ fields, j = object fields := by
    by_contra hnot
    exact hmisses .object (.object fun fields heq => hnot ⟨fields, heq⟩)
  obtain ⟨fields, hfields⟩ := hobject
  refine ⟨⟨fields, hfields⟩, ?_⟩
  by_contra hnot
  exact hmisses .type (.type hfields fun type heq => hnot ⟨type, heq⟩)

/-- An object that decodes nowhere as a node makes decoding fail of what has it. -/
theorem ofJson?_eq_none_of_reads {culprit other : Json} {steps : Address} {buffered : Bool}
    (hobject : ∃ fields, culprit = object fields) (hfails : Node.ofJson? true culprit = none)
    (hreads : Role.node.Reads other steps .node culprit) : Node.ofJson? buffered other = none := by
  obtain ⟨fields, rfl⟩ := hobject
  cases hother : Node.ofJson? buffered other with
  | none => rfl
  | some n =>
    rcases hreads.decodes (Role.decodes_of_some .node buffered hother) with hnull | ⟨b, hsome⟩
    · cases hnull
    · have hsome := Node.isSome_ofJson?_buffered hsome
      rw [hfails] at hsome
      cases hsome

theorem NodeAt.follow?_ofAddress {root j : Json} {address : List ChildPlace}
    (h : NodeAt root address j) : root.follow? (Path.ofAddress address).text = some j := by
  have hkeys : ∀ key ∈ Rules.childKeys, (Step.field key).IsPlain := by decide
  have hplain := isPlain_nodeSteps fun place hplace =>
    hkeys _ (h.field_mem_childKeys place hplace)
  rw [← Path.follow_nodeSteps, follow?_text hplain]
  exact h.at?_nodeSteps

private theorem Blames.blamed {root culprit : Json} {address : List ChildPlace}
    (h : root.Blames address culprit) (htags : root.checkTags .root = []) :
    root.Blamed address culprit where
  position := h.nodeAt .root
  leads := NodeAt.follow?_ofAddress (h.nodeAt .root)
  fails _ _ hvalue hfront := h.fails_along .root hfront hvalue
  children _ child hchild := by
    obtain ⟨parent, hparent, hmem⟩ := NodeAt.exists_parent hchild
    rw [hparent.unique (h.nodeAt .root)] at hmem
    have hsome := h.children _ hmem
    exact ⟨hsome, Node.isSome_ofJson?_buffered hsome⟩
  below _ _ hsteps hreads hobjects := decodes_below h.children hsteps hreads hobjects
  read hstrays :=
    ⟨h.readsWay hstrays, NodeAt.reads (h.nodeAt .root) (h.readsWay hstrays)⟩
  own harray hown := by
    obtain ⟨hobject, -⟩ := NodeAt.exists_type (h.nodeAt .root) htags
    have hsome := Node.isSome_of_ownDecodes hown hobject harray h.children
    rw [h.fails] at hsome
    cases hsome
  place hnumbers := by
    obtain ⟨-, type, htype⟩ := NodeAt.exists_type (h.nodeAt .root) htags
    refine Option.eq_none_iff_forall_ne_some.mpr fun n hn => ?_
    have hfails := h.fails
    rw [Node.ofJson?_unbuffered htype hnumbers hn] at hfails
    cases hfails
  forces hfails _ _ _ hreads := by
    obtain ⟨hobject, -⟩ := NodeAt.exists_type (h.nodeAt .root) htags
    exact ofJson?_eq_none_of_reads hobject hfails hreads

private theorem distinct_checkLeaves_concat (j : Json) (path : Path) {f : Finding}
    (hf : f.code ≠ .childrenOnLeafNode) :
    Finding.distinct (j.checkLeaves path ++ [f])
      = Finding.distinct (j.checkLeaves path) ++ [f] := by
  rw [Finding.distinct_concat, if_neg fun hkey => ?_]
  obtain ⟨g, hg, heq⟩ := List.mem_map.mp (Finding.mem_map_key_distinct.mp hkey)
  exact hf ((congrArg Prod.snd heq).symm.trans (of_mem_checkLeaves hg).2)

end Json

/-- Where no tag is at fault and the root does not decode, the finding about it comes behind those
about leaves, and its path names the node to blame. -/
theorem Payload.validate_blames (strict : Bool) {text : String} {j : Json}
    (hread : Json.ofText text = .ok j) (hrooted : j.isRootlessDocument = false)
    (htags : j.rootValue.checkTags .root = []) (hfails : Node.ofJson? false j.rootValue = none) :
    ∃ address culprit,
      validate strict text = Finding.distinct (j.rootValue.checkLeaves .root)
        ++ [.error (Path.ofAddress address).text .malformedJson
          ("node does not decode: " ++ Failure.mismatch.reason)] ∧
      j.rootValue.Blamed address culprit := by
  obtain ⟨address, culprit, hblames, hblame⟩ := Json.exists_blames hfails []
  refine ⟨address, culprit, ?_, hblames.blamed htags⟩
  have hpath : j.rootValue.blame? .root = some (Path.ofAddress address) := hblame
  rw [validate_of_ofText hread, Json.validate_of_checkTags_eq_nil hrooted htags,
    Json.checkDecoded_of_none hfails, hpath, Option.getD_some]
  have hcode : ErrorCode.malformedJson ≠ .childrenOnLeafNode := by decide
  exact j.rootValue.distinct_checkLeaves_concat .root hcode

/-- A column with a text whose payload has an unknown tag, behind one that is fine. -/
def Payload.spoiledColumn : Json :=
  .object [
    ("properties", .object [
      ("children", .array [
        .object [("type", .string "Text")],
        .object [
          ("properties", .object [("type", .string "FooProps")]), ("type", .string "Text")]]),
      ("type", .string "ColumnProps")]),
    ("type", .string "Column")]

/-- The second text is the node to blame. -/
theorem Payload.validate_blames_spoiledColumn :
    (validate false spoiledColumn.text).map Finding.key
        = [("root.properties.children[1]", .malformedJson)] ∧
      ∃ address culprit, (Path.ofAddress address).text = "root.properties.children[1]" ∧
        spoiledColumn.Blamed address culprit := by
  have hread : Json.ofText spoiledColumn.text = .ok spoiledColumn :=
    ofText_of_sorted (by decide) (List.forall_mem_nil _) (by decide +kernel)
  have hkeys : (validate false spoiledColumn.text).map Finding.key
      = [("root.properties.children[1]", .malformedJson)] := by
    rw [validate_of_ofText hread]
    decide +kernel
  obtain ⟨address, culprit, hfound, hblamed⟩ :=
    validate_blames false hread (by decide) (by decide +kernel) (by decide +kernel)
  refine ⟨hkeys, address, culprit, ?_, hblamed⟩
  have hleaves : Finding.distinct (spoiledColumn.rootValue.checkLeaves .root) = [] := by
    decide +kernel
  rw [hfound, hleaves, List.nil_append, List.map_singleton, List.singleton_inj] at hkeys
  exact congrArg Prod.fst hkeys

/-- A column that does not decode, with a child under a key that only other payloads have. -/
def Payload.strayChild : Json :=
  .object [
    ("properties", .object [
      ("child", .object [("properties", .bool true), ("type", .string "Text")]),
      ("type", .string "ColumnProps"),
      ("verticalArrangement", .bool true)]),
    ("type", .string "Column")]

/-- A text that gives the number of the tag of its payload. -/
def Payload.numberedText : Json :=
  .object [("properties", .object [("type", .number (.int 0))]), ("type", .string "Text")]

/-- A row that does not decode, with a child before the one at fault that decodes in its place
only. -/
def Payload.numberedChild : Json :=
  .object [
    ("properties", .object [
      ("children", .array [
        numberedText,
        .object [
          ("properties", .object [("type", .string "FooProps")]), ("type", .string "Text")]]),
      ("type", .string "RowProps")]),
    ("type", .string "Row")]

/-- A text that does not decode. -/
def Payload.brokenText : Json :=
  .object [("properties", .bool true), ("type", .string "Text")]

/-- A column whose payload is written by position, with a child that does not decode. -/
def Payload.positionalColumn : Json :=
  .object [
    ("properties", .array [.string "ColumnProps", .array [brokenText]]),
    ("type", .string "Column")]

/-- In all three no tag is at fault and the root does not decode. What is named is a value that
decoding ignores, a node that decodes in its place, and a node above one that does not decode. -/
theorem Payload.validate_misblames :
    (strayChild.checkTags .root = [] ∧ Node.ofJson? false strayChild = none
        ∧ (validate false strayChild.text).map Finding.key
          = [("root.properties.child", .malformedJson)]
        ∧ strayChild.Ignores [.field "properties"] "child")
      ∧ (numberedChild.checkTags .root = [] ∧ Node.ofJson? false numberedChild = none
        ∧ (validate false numberedChild.text).map Finding.key
          = [("root.properties.children[0]", .malformedJson)]
        ∧ numberedChild.follow? "root.properties.children[0]" = some numberedText
        ∧ (Node.ofJson? true numberedText).isSome)
      ∧ (positionalColumn.checkTags .root = [] ∧ Node.ofJson? false positionalColumn = none
        ∧ (validate false positionalColumn.text).map Finding.key = [("root", .malformedJson)]
        ∧ Role.node.Reads positionalColumn [.field "properties", .item 1, .item 0] .node brokenText
        ∧ Node.ofJson? true brokenText = none) := by
  have hsorted : strayChild.Sorted ∧ numberedChild.Sorted ∧ positionalColumn.Sorted := by decide
  have hstray := ofText_of_sorted hsorted.1 (List.forall_mem_nil _) (by decide +kernel)
  have hnumbered := ofText_of_sorted hsorted.2.1
    (List.forall_mem_singleton.mpr (Number.readsBack_int ⟨by decide, by decide⟩))
    (by decide +kernel)
  have hpositional := ofText_of_sorted hsorted.2.2 (List.forall_mem_nil _) (by decide +kernel)
  have hnamed : Json.NodeAt numberedChild [⟨"children", some 0⟩] numberedText :=
    .item .root rfl (by decide) rfl rfl
  have hpath : (Path.ofAddress [⟨"children", some 0⟩]).text = "root.properties.children[0]" := by
    decide +kernel
  refine ⟨⟨by decide +kernel, by decide +kernel, ?_, ?_⟩,
    ⟨by decide +kernel, by decide +kernel, ?_, hpath ▸ hnamed.follow?_ofAddress,
      by decide +kernel⟩,
    ⟨by decide +kernel, by decide +kernel, ?_, ?_, by decide +kernel⟩⟩
  · rw [validate_of_ofText hstray]
    decide +kernel
  · exact ⟨.payload, _, .nth 0 rfl (.here _ _) rfl, by decide⟩
  · rw [validate_of_ofText hnumbered]
    decide +kernel
  · rw [validate_of_ofText hpositional]
    decide +kernel
  · exact .nth 0 rfl (.nth 0 rfl (.here _ _) rfl) rfl

end ScreenDoc
