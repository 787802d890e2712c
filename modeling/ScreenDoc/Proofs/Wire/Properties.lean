import ScreenDoc.Proofs.Json.Written
import ScreenDoc.Proofs.Node.Traverse
import ScreenDoc.Validate.Typed
import ScreenDoc.Wire.Node

/-!
# Payloads in JSON

A payload whose children are values is written with some of its fields, in their order, and read
back from them as it was. The children of a payload that was read are among its fields.
-/

namespace ScreenDoc

namespace Properties

theorem childSlot_of_get? {fields : KeyMap Json} {key : String} {child : Option Json}
    (h : fields.get? key = child) (hnull : ∀ c ∈ child, c ≠ .null) :
    childSlot fields key = child := by
  rw [childSlot, h]
  cases child with
  | none => rfl
  | some c =>
    have := hnull c rfl
    cases c <;> trivial

open KeyMap in
private theorem ofFields?_fields {p : Properties Json} (hchildren : ∀ c ∈ p.children, c ≠ .null) :
    ofFields? p.type p.fields = some p := by
  cases p with
  | text p => simp [ofFields?, type, fields, optional_eq, get?_append]
  | image p => simp [ofFields?, type, fields, optional_eq, get?_append]
  | textField p => simp [ofFields?, type, fields, optional_eq, get?_append]
  | switch p =>
    simp [ofFields?, toggle?, type, fields, fields.toggleFields, optional_eq, get?_append]
  | checkbox p =>
    simp [ofFields?, toggle?, type, fields, fields.toggleFields, optional_eq, get?_append]
  | column p => simp [ofFields?, childItems?, type, fields, optional_eq, get?_append, get?_cons]
  | row p => simp [ofFields?, childItems?, type, fields, optional_eq, get?_append, get?_cons]
  | box p => simp [ofFields?, childItems?, type, fields, optional_eq, get?_cons]
  | button p =>
    have hchild : childSlot (fields (button p)) "child" = p.child :=
      childSlot_of_get? (by simp [fields, get?_append]) (by simpa [children] using hchildren)
    simp [ofFields?, type, hchild]
    simp [fields, optional_eq, get?_append]
  | card p =>
    have hchild : childSlot (fields (card p)) "child" = p.child :=
      childSlot_of_get? (by simp [fields, get?_append]) (by simpa [children] using hchildren)
    simp [ofFields?, type, hchild]
    simp [fields, optional_eq, get?_append]
  | scaffold p =>
    obtain ⟨htop, hbottom, hchild⟩ := forall_children_scaffold.mp hchildren
    have hfirst : childSlot (fields (scaffold p)) "topBar" = p.topBar :=
      childSlot_of_get? (by simp [fields, get?_append]) htop
    have hsecond : childSlot (fields (scaffold p)) "bottomBar" = p.bottomBar :=
      childSlot_of_get? (by simp [fields, get?_append]) hbottom
    have hthird : childSlot (fields (scaffold p)) "child" = p.child :=
      childSlot_of_get? (by simp [fields, get?_append]) hchild
    simp [ofFields?, type, hfirst, hsecond, hthird]
  | topAppBar p =>
    obtain ⟨htitle, hicon, -⟩ := forall_children_topAppBar.mp hchildren
    have hnone (key : String) (hkey : key ≠ "actions") : get? (if p.actions = [] then []
        else [("actions", Json.array p.actions)]) key = none := by
      split <;> simp [get?_cons, hkey]
    have hfirst : childSlot (fields (topAppBar p)) "title" = p.title :=
      childSlot_of_get? (by simp [fields, get?_append, hnone]) htitle
    have hsecond : childSlot (fields (topAppBar p)) "navigationIcon" = p.navigationIcon :=
      childSlot_of_get? (by simp [fields, get?_append, hnone]) hicon
    have hactions : childItems? (fields (topAppBar p)) "actions" = some p.actions := by
      cases hempty : p.actions <;> simp [fields, get?_append, childItems?, hempty, get?_cons]
    simp [ofFields?, type, hfirst, hsecond, hactions]
  | alertDialog p =>
    obtain ⟨htitle, htext, hconfirm, hdismiss⟩ := forall_children_alertDialog.mp hchildren
    have hfirst : childSlot (fields (alertDialog p)) "title" = p.title :=
      childSlot_of_get? (by simp [fields, get?_append]) htitle
    have hsecond : childSlot (fields (alertDialog p)) "text" = p.text :=
      childSlot_of_get? (by simp [fields, get?_append]) htext
    have hthird : childSlot (fields (alertDialog p)) "confirmButton" = p.confirmButton :=
      childSlot_of_get? (by simp [fields, get?_append]) hconfirm
    have hfourth : childSlot (fields (alertDialog p)) "dismissButton" = p.dismissButton :=
      childSlot_of_get? (by simp [fields, get?_append]) hdismiss
    simp [ofFields?, type, hfirst, hsecond, hthird, hfourth]
    simp [fields, optional_eq, get?_append]
  | custom p =>
    obtain ⟨customType, data⟩ := p
    by_cases hempty : data.isEmpty
    · simp [ofFields?, type, fields, required, defaulted, get?_cons, Json.string?,
        Json.Map.eq_empty hempty]
    · simp [ofFields?, type, fields, required, defaulted, get?_cons, Json.string?, hempty,
        Json.map?_fields]

theorem keys_fields_sublist (p : Properties Json) :
    (KeyMap.keys p.fields).Sublist p.type.payloadFields := by
  cases p with
  | topAppBar p =>
    simp only [fields, List.append_assoc, type, NodeType.payloadFields]
    refine KeyMap.keys_optionalField_append _ _ (KeyMap.keys_optionalField_append _ _ ?_)
    cases p.actions <;> simp
  | custom p =>
    simp only [fields, type, NodeType.payloadFields]
    refine List.Sublist.cons_cons _ ?_
    split <;> simp
  | _ =>
    simp only [fields, fields.toggleFields, List.append_assoc, List.cons_append, type,
      NodeType.payloadFields, KeyMap.keys_cons]
    try apply List.Sublist.cons_cons
    repeat' first
      | exact KeyMap.keys_optionalField_sublist _ _ _
      | apply KeyMap.keys_optionalField_append

theorem nodup_keys (p : Properties Json) : ("type" :: KeyMap.keys p.fields).Nodup := by
  have hnames : ("type" :: p.type.payloadFields).Nodup := by
    cases p.type <;> decide
  exact hnames.sublist (List.Sublist.cons_cons _ p.keys_fields_sublist)

/-- The fields that a payload is written with: plain values, children in their places, and opaque
data. -/
inductive Writes (p : Properties Json) : String × Json → Prop where
  | string (key : String) (s : String) : Writes p (key, .string s)
  | bool (key : String) (b : Bool) : Writes p (key, .bool b)
  | int32 (key : String) (n : Int32) : Writes p (key, Json.ofInt32 n)
  | uint32 (key : String) (n : UInt32) : Writes p (key, Json.ofUInt32 n)
  | slot {key : String} {c : Json} (h : (⟨key, none⟩, c) ∈ p.placedChildren) : Writes p (key, c)
  | list {key : String} {items : List Json} (h : ∀ child ∈ listed key items,
    child ∈ p.placedChildren) : Writes p (key, .array items)
  | data {q : CustomProps} (h : p = custom q) : Writes p ("data", .object q.data.fields)

open KeyMap in
theorem writes_of_mem (p : Properties Json) : ∀ field ∈ p.fields, p.Writes field := by
  have hstring (k : String) (s : Option String) :
      ∀ field ∈ Json.optionalField k .string s, p.Writes field :=
    forall_mem_optionalField.mpr fun s _ => .string k s
  have hbool (k : String) (b : Option Bool) :
      ∀ field ∈ Json.optionalField k .bool b, p.Writes field :=
    forall_mem_optionalField.mpr fun b _ => .bool k b
  have hint (k : String) (n : Option Int32) :
      ∀ field ∈ Json.optionalField k Json.ofInt32 n, p.Writes field :=
    forall_mem_optionalField.mpr fun n _ => .int32 k n
  have huint (k : String) (n : Option UInt32) :
      ∀ field ∈ Json.optionalField k Json.ofUInt32 n, p.Writes field :=
    forall_mem_optionalField.mpr fun n _ => .uint32 k n
  have hslot (k : String) (c : Option Json) (h : ∀ child ∈ slot k c, child ∈ p.placedChildren) :
      ∀ field ∈ Json.optionalField k id c, p.Writes field :=
    forall_mem_optionalField.mpr fun a ha =>
      .slot (h _ (List.mem_map_of_mem (Option.mem_toList.mpr ha)))
  cases p with
  | column q =>
    simp only [fields, List.cons_append, List.forall_mem_cons, List.forall_mem_append]
    exact ⟨.list fun _ => id, hstring _ _, hstring _ _⟩
  | row q =>
    simp only [fields, List.cons_append, List.forall_mem_cons, List.forall_mem_append]
    exact ⟨.list fun _ => id, hstring _ _, hstring _ _⟩
  | box q =>
    simp only [fields, List.forall_mem_cons]
    exact ⟨.list fun _ => id, hstring _ _⟩
  | button q =>
    simp only [fields, List.forall_mem_append]
    exact ⟨⟨hslot _ _ fun _ => id, hstring _ _⟩, hbool _ _⟩
  | card q =>
    simp only [fields, List.forall_mem_append]
    exact ⟨⟨hslot _ _ fun _ => id, hint _ _⟩, hstring _ _⟩
  | scaffold q =>
    simp only [fields, List.forall_mem_append]
    refine ⟨⟨hslot _ _ ?_, hslot _ _ ?_⟩, hslot _ _ ?_⟩ <;>
      simp +contextual [placedChildren]
  | topAppBar q =>
    simp only [fields, List.forall_mem_append]
    refine ⟨⟨hslot _ _ ?_, hslot _ _ ?_⟩, ?_⟩
    · simp +contextual [placedChildren]
    · simp +contextual [placedChildren]
    · split
      · exact List.forall_mem_nil _
      · exact List.forall_mem_singleton.mpr (.list (by simp +contextual [placedChildren]))
  | alertDialog q =>
    simp only [fields, List.forall_mem_append]
    refine ⟨⟨⟨⟨hslot _ _ ?_, hslot _ _ ?_⟩, hslot _ _ ?_⟩, hslot _ _ ?_⟩, hstring _ _⟩ <;>
      simp +contextual [placedChildren]
  | custom q =>
    simp only [fields, List.forall_mem_cons]
    refine ⟨.string _ _, ?_⟩
    split
    · exact List.forall_mem_nil _
    · exact List.forall_mem_singleton.mpr (.data rfl)
  | _ =>
    simp only [fields, fields.toggleFields, List.forall_mem_append]
    repeat' first
      | exact hstring _ _
      | exact hbool _ _
      | exact hint _ _
      | exact huint _ _
      | apply And.intro

theorem ofContent?_fields {p : Properties Json} (hchildren : ∀ c ∈ p.children, c ≠ .null) :
    ofContent? p.tag (.object p.fields) = some p := by
  have htype : NodeType.ofPayloadTag? p.tag = some p.type := by
    rw [tag]
    cases p.type <;> decide
  have hnames : p.type.payloadFields.Nodup := by
    cases p.type <;> decide
  rw [ofContent?, htype]
  simp only [Option.bind_eq_bind, Option.bind_some,
    Json.record?_of_sublist (keys_fields_sublist p) hnames]
  exact ofFields?_fields hchildren

end Properties

end ScreenDoc
