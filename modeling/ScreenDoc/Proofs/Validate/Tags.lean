import ScreenDoc.Proofs.Validate.Paths
import ScreenDoc.Proofs.Validate.Positions
import ScreenDoc.Proofs.Validate.StrictComplete
import ScreenDoc.Proofs.Wire.Encoding

/-!
# Every tag that is wrong

What is wrong with tags is said without the checks: `Json.Misses` relates a value to the faults in
its tags, and a fault says where and with which code it is reported. The search reports the faults
of the value at every position, those below a faulty node included, each of them once.
-/

namespace ScreenDoc

open Finding (key)

/-- What can be wrong with the tags of a node; an operation is named by its position. -/
inductive TagFault where
  /-- There is no object to hold a tag. -/
  | object
  | type
  | operation (index : Nat)
  deriving DecidableEq

namespace TagFault

def path (node : Path) : TagFault → Path
  | object => node
  | type => node
  | operation index => node.operation index

def code : TagFault → ErrorCode
  | object => .malformedJson
  | type => .unknownComposeType
  | operation _ => .unknownModifierOperation

def key (node : Path) (fault : TagFault) : String × ErrorCode :=
  ((fault.path node).text, fault.code)

theorem isPlain_path {node : Path} (h : node.IsPlain) (fault : TagFault) :
    (fault.path node).IsPlain := by
  cases fault with
  | object => exact h
  | type => exact h
  | operation index =>
    simp only [path, Path.operation, Path.modifier, Path.IsPlain, h, true_and]
    decide

theorem key_injective {p q : Path} {a b : TagFault} (hp : p.IsPlain) (hq : q.IsPlain)
    (h : a.key p = b.key q) : p = q ∧ a = b := by
  obtain ⟨htext, hcode⟩ := Prod.mk.inj h
  have hpath := Path.text_injective (isPlain_path hp a) (isPlain_path hq b) htext
  cases a <;> cases b <;> simp_all [path, code, Path.operation, Path.modifier]

end TagFault

namespace Json

inductive Misses (j : Json) : TagFault → Prop where
  | object (h : ∀ fields, j ≠ .object fields) : j.Misses .object
  | type {fields : List (String × Json)} (hj : j = .object fields)
    (h : ∀ type : NodeType, j.field? "type" ≠ some (.string type.name)) : j.Misses .type
  | operation {modifier : Json} {operations : List Json} {i : Nat} {operation : Json}
    (hmodifier : j.field? "composeModifier" = some modifier)
    (hlist : modifier.field? "operations" = some (.array operations))
    (hoperation : operations[i]? = some operation)
    (h : ∀ tag ∈ Operation.tags, operation.field? "type" ≠ some (.string tag)) :
    j.Misses (.operation i)

/-! ## The faults of one node -/

def namesType (j : Json) : Bool :=
  (j.typeName?.bind NodeType.named?).isSome

def namesOperation (j : Json) : Bool :=
  j.typeName?.any Operation.isKnownTag

def operationFaults (j : Json) : List TagFault :=
  j.operationItems.zipIdx.flatMap fun o =>
    if o.1.namesOperation = true then [] else [.operation o.2]

/-- The faults of a value, in the order of the checks. -/
def tagFaults : Json → List TagFault
  | object fields =>
    (if (object fields).namesType = true then [] else [.type]) ++ (object fields).operationFaults
  | _ => [.object]

private theorem map_key_checkOperationTag (o : Json) (node : Path) (i : Nat) :
    (o.checkOperationTag (node.operation i)).map key
      = (if o.namesOperation = true then [] else [TagFault.operation i]).map
          (TagFault.key node) := by
  unfold checkOperationTag namesOperation
  cases o.typeName? with
  | none => rfl
  | some tag =>
    rw [Option.any_some]
    by_cases hknown : Operation.isKnownTag tag = true
    · simp [hknown]
    · simp [hknown, key, TagFault.key, TagFault.path, TagFault.code, Finding.error]

private theorem map_key_checkOwnTags (j : Json) (node : Path) :
    (j.checkOwnTags node).map key = j.tagFaults.map (TagFault.key node) := by
  cases j with
  | object fields =>
    rw [checkOwnTags, tagFaults, operationFaults, List.map_append, List.map_append,
      List.map_flatMap, List.map_flatMap]
    congr 1
    · rw [namesType]
      cases (object fields).typeName? with
      | none => rfl
      | some tag =>
        rw [Option.bind_some]
        by_cases hknown : (NodeType.named? tag).isSome = true
        · simp [hknown]
        · simp [hknown, key, TagFault.key, TagFault.path, TagFault.code, Finding.error]
    · exact List.flatMap_congr fun o _ => map_key_checkOperationTag o.1 node o.2
  | _ => rfl

theorem typeName?_eq_some_iff {j : Json} {tag : String} :
    j.typeName? = some tag ↔ j.field? "type" = some (.string tag) := by
  rw [typeName?, Option.bind_eq_some_iff]
  constructor
  · rintro ⟨value, hvalue, hstring⟩
    cases value <;> cases hstring
    exact hvalue
  · exact fun h => ⟨_, h, rfl⟩

theorem namesType_iff {j : Json} :
    j.namesType = true ↔ ∃ type : NodeType, j.field? "type" = some (.string type.name) := by
  rw [namesType, Option.isSome_iff_exists]
  refine exists_congr fun type => ?_
  rw [Option.bind_eq_some_iff]
  constructor
  · rintro ⟨tag, htag, htype⟩
    have hname := List.find?_some htype
    rw [beq_iff_eq] at hname
    rw [typeName?_eq_some_iff.mp htag, hname]
  · exact fun h => ⟨type.name, typeName?_eq_some_iff.mpr h, type.named?_name⟩

theorem namesOperation_iff {j : Json} :
    j.namesOperation = true ↔ ∃ tag ∈ Operation.tags, j.field? "type" = some (.string tag) := by
  rw [namesOperation, Option.any_eq_true]
  refine exists_congr fun tag => ?_
  rw [Operation.isKnownTag, List.contains_iff_mem, typeName?_eq_some_iff, and_comm]

theorem operationItems_getElem?_iff {j operation : Json} {i : Nat} :
    j.operationItems[i]? = some operation ↔
      ∃ modifier operations, j.field? "composeModifier" = some modifier ∧
        modifier.field? "operations" = some (.array operations) ∧
        operations[i]? = some operation := by
  constructor
  · intro h
    rw [operationItems] at h
    cases hitems : ((j.field? "composeModifier").bind (field? "operations")).bind items? with
    | none => simp [hitems] at h
    | some operations =>
      obtain ⟨list, hlist, hlisted⟩ := Option.bind_eq_some_iff.mp hitems
      obtain ⟨modifier, hmodifier, hlist⟩ := Option.bind_eq_some_iff.mp hlist
      cases list <;> cases hlisted
      exact ⟨modifier, operations, hmodifier, hlist, by simpa [hitems] using h⟩
  · rintro ⟨modifier, operations, hmodifier, hlist, hoperation⟩
    simpa [operationItems, hmodifier, hlist, items?] using hoperation

theorem mem_operationFaults {j : Json} {fault : TagFault} :
    fault ∈ j.operationFaults ↔
      ∃ operation i, j.operationItems[i]? = some operation ∧
        ¬operation.namesOperation = true ∧ fault = .operation i := by
  simp [operationFaults, List.mem_flatMap, List.mem_zipIdx_iff_getElem?]

private theorem mem_operationFaults_iff_misses {j : Json} {fault : TagFault} :
    fault ∈ j.operationFaults ↔ j.Misses fault ∧ ∃ i, fault = .operation i := by
  rw [mem_operationFaults]
  constructor
  · rintro ⟨operation, i, hoperation, hnames, rfl⟩
    obtain ⟨modifier, operations, hmodifier, hlist, hoperation⟩ :=
      operationItems_getElem?_iff.mp hoperation
    refine ⟨.operation hmodifier hlist hoperation fun tag htag heq => ?_, i, rfl⟩
    exact hnames (namesOperation_iff.mpr ⟨tag, htag, heq⟩)
  · rintro ⟨h, i, rfl⟩
    cases h with
    | operation hmodifier hlist hoperation h =>
      refine ⟨_, i, operationItems_getElem?_iff.mpr ⟨_, _, hmodifier, hlist, hoperation⟩, ?_, rfl⟩
      intro hnames
      obtain ⟨tag, htag, heq⟩ := namesOperation_iff.mp hnames
      exact h tag htag heq

private theorem misses_iff_of_not_object {j : Json} (hj : ∀ fields, j ≠ .object fields)
    {fault : TagFault} : j.Misses fault ↔ fault = .object := by
  constructor
  · intro h
    cases h with
    | object => rfl
    | type heq => exact absurd heq (hj _)
    | operation hmodifier =>
      cases j with
      | object fields => exact absurd rfl (hj fields)
      | _ => cases hmodifier
  · rintro rfl
    exact .object hj

private theorem mem_tagFaults_iff {j : Json} {fault : TagFault} :
    fault ∈ j.tagFaults ↔ j.Misses fault := by
  cases j with
  | object fields =>
    rw [tagFaults, List.mem_append, mem_operationFaults_iff_misses]
    constructor
    · rintro (h | ⟨h, -⟩)
      · split at h
        · cases h
        · rename_i hnames
          rw [List.mem_singleton.mp h]
          exact .type rfl (not_exists.mp (mt namesType_iff.mpr hnames))
      · exact h
    · intro h
      cases h with
      | object h => exact absurd rfl (h fields)
      | type _ h =>
        rw [if_neg fun hnames => not_exists.mpr h (namesType_iff.mp hnames)]
        exact .inl (List.mem_singleton_self _)
      | operation hmodifier hlist hoperation h =>
        exact .inr ⟨.operation hmodifier hlist hoperation h, _, rfl⟩
  | _ => exact List.mem_singleton.trans (misses_iff_of_not_object fun fields => by simp).symm

private theorem nodup_operationFaults (j : Json) : j.operationFaults.Nodup := by
  refine nodup_flatMap_zipIdx (fun o => ?_) fun {a b} fault ha hb => ?_
  · split
    · exact List.nodup_nil
    · exact List.nodup_singleton _
  · split at ha <;> split at hb <;> simp_all

private theorem nodup_tagFaults (j : Json) : j.tagFaults.Nodup := by
  cases j with
  | object fields =>
    rw [tagFaults, List.nodup_append']
    refine ⟨?_, nodup_operationFaults _, fun fault htype hoperation => ?_⟩
    · split
      · exact List.nodup_nil
      · exact List.nodup_singleton _
    · obtain ⟨operation, i, -, -, rfl⟩ := mem_operationFaults.mp hoperation
      split at htype <;> simp at htype
  | _ => exact List.nodup_singleton _

/-! ## The search -/

private theorem map_key_checkTags (j : Json) (address : List ChildPlace) :
    (j.checkTags (Path.ofAddress address)).map key =
      (j.located address).flatMap fun l =>
        l.2.tagFaults.map (TagFault.key (Path.ofAddress l.1)) := by
  induction j using childNodes_induction generalizing address with
  | node j ih =>
    rw [checkTags_eq, located_eq, List.map_append, List.flatMap_cons, map_key_checkOwnTags,
      List.map_flatMap, List.flatMap_assoc]
    congr 1
    refine List.flatMap_congr fun child hchild => ?_
    rw [← Path.ofAddress_concat, ih child hchild]

theorem map_key_checkTags_root (root : Json) :
    (root.checkTags .root).map key =
      (root.located []).flatMap fun l =>
        l.2.tagFaults.map (TagFault.key (Path.ofAddress l.1)) :=
  root.map_key_checkTags []

theorem NodeAt.isPlain {root j : Json} {address : List ChildPlace} (h : NodeAt root address j) :
    (Path.ofAddress address).IsPlain := by
  have hplain : ∀ key ∈ Rules.childKeys, Path.IsPlainKey key := by decide
  exact Path.isPlain_ofAddress fun place hplace => hplain _ (h.field_mem_childKeys place hplace)

theorem fault_injective {root i j : Json} {a b : List ChildPlace} {f g : TagFault}
    (hi : NodeAt root a i) (hj : NodeAt root b j)
    (h : f.key (Path.ofAddress a) = g.key (Path.ofAddress b)) : a = b ∧ f = g := by
  obtain ⟨hpath, hfault⟩ := TagFault.key_injective hi.isPlain hj.isPlain h
  exact ⟨Path.ofAddress_injective hpath, hfault⟩

theorem mem_map_key_checkTags {root : Json} {k : String × ErrorCode} :
    k ∈ (root.checkTags .root).map key ↔
      ∃ address j fault, NodeAt root address j ∧ j.Misses fault ∧
        fault.key (Path.ofAddress address) = k := by
  rw [map_key_checkTags_root, List.mem_flatMap, Prod.exists]
  refine exists_congr fun address => exists_congr fun j => ?_
  rw [mem_located_iff, List.mem_map]
  simp only [mem_tagFaults_iff, exists_and_left]

theorem nodup_map_key_checkTags (root : Json) : ((root.checkTags .root).map key).Nodup := by
  rw [map_key_checkTags_root, List.nodup_flatMap]
  constructor
  · rintro ⟨address, j⟩ hl
    have hat := mem_located_iff.mp hl
    exact List.Nodup.map_on (fun f _ g _ h => (fault_injective hat hat h).2) j.nodup_tagFaults
  · have haddresses : (root.located []).Pairwise fun l m => l.1 ≠ m.1 :=
      List.pairwise_map.mp (root.nodup_map_fst_located [])
    refine List.Pairwise.imp_of_mem (fun {l m} hl hm hne k hkl hkm => hne ?_) haddresses
    obtain ⟨f, -, rfl⟩ := List.mem_map.mp hkl
    obtain ⟨g, -, heq⟩ := List.mem_map.mp hkm
    exact (fault_injective (mem_located_iff.mp hl) (mem_located_iff.mp hm) heq.symm).1

theorem distinct_checkTags (root : Json) :
    Finding.distinct (root.checkTags .root) = root.checkTags .root :=
  Finding.distinct_of_nodup root.nodup_map_key_checkTags

/-- The findings are the faults of the value at every position: each fault is found once, nothing
else is found, and two faults never share path and code. -/
structure ReportsFaults (root : Json) (findings : List Finding) : Prop where
  once : ∀ {address : List ChildPlace} {j : Json} {fault : TagFault}, NodeAt root address j →
    j.Misses fault → (findings.map key).count (fault.key (Path.ofAddress address)) = 1
  only : ∀ f ∈ findings, f.severity = .error ∧
    ∃ address j fault, NodeAt root address j ∧ j.Misses fault ∧
      fault.key (Path.ofAddress address) = f.key
  apart : ∀ {a b : List ChildPlace} {i j : Json} {f g : TagFault}, NodeAt root a i →
    NodeAt root b j → f.key (Path.ofAddress a) = g.key (Path.ofAddress b) → a = b ∧ f = g

private theorem reportsFaults_checkTags (root : Json) : root.ReportsFaults (root.checkTags .root)
    where
  once hat hfault := List.count_eq_one_of_mem root.nodup_map_key_checkTags
    (mem_map_key_checkTags.mpr ⟨_, _, _, hat, hfault, rfl⟩)
  only f hf := ⟨(checkTags_isError root .root f hf).1,
    mem_map_key_checkTags.mp (List.mem_map_of_mem hf)⟩
  apart := fault_injective

private theorem validate_of_checkTags_ne_nil {j : Json} (hrooted : j.isRootlessDocument = false)
    (h : j.rootValue.checkTags .root ≠ []) (strict : Bool) :
    j.validate strict = j.rootValue.checkTags .root := by
  rw [validate, hrooted, if_neg (by simp)]
  simp only [List.isEmpty_eq_false_iff.mpr h, Bool.false_eq_true, if_false]
  exact j.rootValue.distinct_checkTags

theorem validate_of_checkTags_eq_nil {j : Json} (hrooted : j.isRootlessDocument = false)
    (h : j.rootValue.checkTags .root = []) (strict : Bool) :
    j.validate strict = Finding.distinct (j.checkDecoded strict) := by
  rw [validate, hrooted, if_neg (by simp), h]
  rfl

/-- What decoding finds is among the findings: that the root does not decode, or the rules that the
decoded tree breaks. -/
theorem mem_map_key_checkDecoded (strict : Bool) (j : Json) :
    match Node.ofJson? false j.rootValue with
    | none => ∃ path, (path, ErrorCode.malformedJson)
        ∈ (Finding.distinct (j.checkDecoded strict)).map key
    | some node => (node.check .root).map key
        ⊆ (Finding.distinct (j.checkDecoded strict)).map key := by
  cases hnode : Node.ofJson? false j.rootValue with
  | none =>
    refine ⟨((j.rootValue.blame? .root).getD .root).text, Finding.mem_map_key_distinct.mpr ?_⟩
    rw [checkDecoded_of_none hnode, List.map_append]
    exact List.mem_append_right _ (List.mem_singleton_self _)
  | some node =>
    intro k hk
    refine Finding.mem_map_key_distinct.mpr ?_
    rw [checkDecoded_of_some hnode]
    simp only [List.map_append, List.mem_append]
    exact .inr (.inl (.inr hk))

end Json

/-- The search for wrong tags is exhaustive. In every value it reports each fault of the value at
each position once and nothing else, and dropping repeats drops none of its findings. A text that is
JSON, and no document without a root, has these findings if there are any; otherwise its findings
are those of decoding. -/
theorem Payload.validate_tags :
    (∀ root : Json, root.ReportsFaults (root.checkTags .root) ∧
      Finding.distinct (root.checkTags .root) = root.checkTags .root) ∧
    ∀ (strict : Bool) (text : String) (j : Json), Json.ofText text = .ok j →
      j.isRootlessDocument = false →
      (j.rootValue.checkTags .root ≠ [] →
        validate strict text = j.rootValue.checkTags .root) ∧
      (j.rootValue.checkTags .root = [] →
        validate strict text = Finding.distinct (j.checkDecoded strict) ∧
          match Node.ofJson? false j.rootValue with
          | none => ∃ path, (path, ErrorCode.malformedJson) ∈ (validate strict text).map key
          | some root => (root.check .root).map key ⊆ (validate strict text).map key) := by
  refine ⟨fun root => ⟨root.reportsFaults_checkTags, root.distinct_checkTags⟩, ?_⟩
  intro strict text j hread hrooted
  rw [validate_of_ofText hread]
  refine ⟨fun h => Json.validate_of_checkTags_ne_nil hrooted h strict, fun h => ?_⟩
  rw [Json.validate_of_checkTags_eq_nil hrooted h]
  exact ⟨rfl, j.mem_map_key_checkDecoded strict⟩

/-- A node of an unknown type with an item that is no node and a child with an unknown operation. -/
def Payload.faultyTree : Json :=
  .object [
    ("properties", .object [
      ("children", .array [
        .string "Text",
        .object [
          ("composeModifier", .object [("operations", .array [Json.tagged "Blur" []])]),
          ("type", .string "Text")]]),
      ("type", .string "ColumnProps")]),
    ("type", .string "Spinner")]

/-- A node of which nothing but the type is given. -/
def Payload.bareNode : Json :=
  .object [("type", .string "Text")]

/-- Every fault of the tree is found, those below the node of an unknown type included, and a node
without faults is decoded. -/
theorem Payload.validate_tags_faultyTree :
    (validate true faultyTree.text).map key = [
      ("root", .unknownComposeType),
      ("root.properties.children[0]", .malformedJson),
      ("root.properties.children[1].composeModifier.operations[0]", .unknownModifierOperation)] ∧
    validate true bareNode.text = Finding.distinct (bareNode.checkDecoded true) := by
  have hfaulty : Json.ofText faultyTree.text = .ok faultyTree :=
    ofText_of_sorted (by decide) (List.forall_mem_nil _) (by decide +kernel)
  have hbare : Json.ofText bareNode.text = .ok bareNode :=
    ofText_of_sorted (by decide) (List.forall_mem_nil _) (by decide +kernel)
  have hfaults := (validate_tags.2 true _ _ hfaulty (by decide)).1 (by decide +kernel)
  have hclean := (validate_tags.2 true _ _ hbare (by decide)).2 (by decide +kernel)
  refine ⟨?_, hclean.1⟩
  rw [hfaults]
  decide +kernel

end ScreenDoc
