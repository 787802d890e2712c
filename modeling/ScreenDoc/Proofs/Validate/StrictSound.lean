import ScreenDoc.Proofs.Json.AsWritten
import ScreenDoc.Proofs.Validate.Soundness
import ScreenDoc.Proofs.Wire.Trimmed

/-!
# No field that matters is called unrecognized

Taking the unrecognized fields out of a payload in which no error is found changes neither what it
decodes to nor its kind, and strict validation has nothing left to say. Every check is followed
from the value to what is left of it: tags stay, leaves gain nothing, and the children of what is
left are children of the value, trimmed or as they were.
-/

namespace ScreenDoc

open Json

/-! ## What the checks see -/

namespace Role

theorem field?_trim_of_mem {role : Role} {known : List String} {fields : List (String × Json)}
    (h : role.known? (.object fields) = some known) (hj : (Json.object fields).Distinct)
    {key : String} (hkey : key ∈ known) :
    (role.trim (.object fields)).field? key
      = (KeyMap.get? fields key).map (((role.places known).get? key).elim id Holding.trim) := by
  rw [field?_trim h hj.nodup, if_pos (by simp [hkey])]

end Role

namespace Json

variable {j : Json}

private theorem items?_trim (role : Role) (j : Json) :
    ((Holding.items role).trim j).items? = j.items?.map (List.map role.trim) := by
  cases j with
  | array items =>
    rw [Holding.trim_items]
    rfl
  | _ => rw [Holding.trim_of_nil rfl]; rfl

private theorem operationItems_trim (hj : j.Distinct) :
    (Role.node.trim j).operationItems = j.operationItems.map Role.operation.trim := by
  have hmodifier {m : Json} (hm : m.Distinct) :
      (((Role.modifier.trim m).field? "operations").bind items?)
        = ((m.field? "operations").bind items?).map (List.map Role.operation.trim) := by
    cases m with
    | object fields =>
      have hknown : Role.modifier.known? (.object fields) = some modifierFields := rfl
      rw [Role.field?_trim_of_mem hknown hm (by decide), field?]
      cases KeyMap.get? fields "operations" with
      | none => rfl
      | some value => exact items?_trim .operation value
    | _ => rw [Role.trim_of_none rfl]; rfl
  cases j with
  | object fields =>
    have hknown : Role.node.known? (.object fields) = some nodeFields := rfl
    rw [operationItems, operationItems, Role.field?_trim_of_mem hknown hj (by decide), field?]
    cases hvalue : KeyMap.get? fields "composeModifier" with
    | none => rfl
    | some value =>
      have hplace : (Role.node.places nodeFields).get? "composeModifier"
        = some (.whole .modifier) := rfl
      have hitems := hmodifier (hj.fields _ (KeyMap.mem_of_get? hvalue))
      simp only [hplace, Option.elim_some, Option.map_some, Option.bind_some, Holding.trim_whole,
        hitems]
      cases (value.field? "operations").bind items? <;> rfl
  | _ => rw [Role.trim_of_none rfl]; rfl

theorem Distinct.field? {key : String} {value : Json} (hj : j.Distinct)
    (h : j.field? key = some value) : value.Distinct := by
  cases j with
  | object fields => exact hj.fields _ (KeyMap.mem_of_get? h)
  | _ => cases h

theorem Distinct.operationItems (hj : j.Distinct) : ∀ o ∈ j.operationItems, o.Distinct := by
  intro o ho
  rw [Json.operationItems] at ho
  cases hitems : ((j.field? "composeModifier").bind (Json.field? "operations")).bind items? with
  | none => simp [hitems] at ho
  | some items =>
    obtain ⟨value, hvalue, hlist⟩ := Option.bind_eq_some_iff.mp hitems
    obtain ⟨modifier, hmodifier, hvalue⟩ := Option.bind_eq_some_iff.mp hvalue
    have hdistinct := (hj.field? hmodifier).field? hvalue
    rw [hitems] at ho
    cases value with
    | array values =>
      cases hlist
      exact hdistinct.items o ho
    | _ => cases hlist

private theorem checkOwnTags_trim {path : Path} (hj : j.Distinct) (h : j.checkOwnTags path = []) :
    (Role.node.trim j).checkOwnTags path = [] := by
  cases j with
  | object fields =>
    obtain ⟨htype, hoperations⟩ := List.append_eq_nil_iff.mp h
    have htag := Role.node.typeName?_trim hj
    have hitems := operationItems_trim hj
    obtain ⟨rest, hrest⟩ := Role.node.exists_trim_object fields
    rw [hrest] at htag hitems ⊢
    rw [checkOwnTags, htag, htype, List.nil_append, hitems, List.flatMap_eq_nil_iff]
    intro operation hmem
    rw [List.zipIdx_map] at hmem
    obtain ⟨⟨source, i⟩, hsource, rfl⟩ := List.mem_map.mp hmem
    have hdistinct := hj.operationItems source (List.fst_mem_of_mem_zipIdx hsource)
    have hclean := List.flatMap_eq_nil_iff.mp hoperations (source, i) hsource
    simpa only [Prod.map, id_eq, checkOperationTag, Role.operation.typeName?_trim hdistinct]
      using hclean
  | _ => cases h

/-! ## Children -/

private theorem childrenUnder_trim (key : String) (j : Json) :
    childrenUnder key (Holding.children.trim j)
      = (childrenUnder key j).map fun child => (child.1, Role.node.trim child.2) := by
  cases j with
  | object fields =>
    obtain ⟨rest, hrest⟩ := Role.node.exists_trim_object fields
    rw [Holding.trim_children_object, hrest, childrenUnder, childrenUnder, List.map_singleton,
      hrest]
  | array items =>
    rw [Holding.trim_children_array, childrenUnder, childrenUnder, List.zipIdx_map, List.map_map,
      List.map_map]
    rfl
  | _ => rfl

theorem get?_trim_payload {fields rest : List (String × Json)} (hj : (object fields).Distinct)
    (hrest : Role.payload.trim (object fields) = object rest) {key : String} {value : Json}
    (h : KeyMap.get? rest key = some value) :
    ∃ source, KeyMap.get? fields key = some source
      ∧ (value = source ∨ value = Holding.children.trim source) := by
  cases hknown : Role.payload.known? (object fields) with
  | none =>
    rw [Role.trim_of_none hknown] at hrest
    cases hrest
    exact ⟨value, h, .inl rfl⟩
  | some known =>
    have hfield : (Role.payload.trim (object fields)).field? key = some value := by
      rw [hrest]
      exact h
    rw [Role.field?_trim hknown hj.nodup] at hfield
    split at hfield
    · obtain ⟨source, hsource, heq⟩ := Option.map_eq_some_iff.mp hfield
      refine ⟨source, hsource, ?_⟩
      cases hplace : (Role.payload.places known).get? key with
      | none =>
        rw [hplace] at heq
        exact .inl heq.symm
      | some holding =>
        obtain ⟨name, -, hname⟩ := List.mem_map.mp (KeyMap.mem_of_get? hplace)
        cases hname
        rw [hplace] at heq
        exact .inr heq.symm
    · cases hfield

theorem exists_payload_trim (hj : j.Distinct) {rest : KeyMap Json}
    (h : (Role.node.trim j).payload? = some rest) :
    ∃ fields, j.payload? = some fields ∧ (object fields).Distinct
      ∧ Role.payload.trim (object fields) = object rest := by
  cases j with
  | object all =>
    have hknown : Role.node.known? (object all) = some nodeFields := rfl
    rw [payload?, Role.field?_trim_of_mem hknown hj (by decide)] at h
    obtain ⟨trimmed, htrimmed, hfields⟩ := Option.bind_eq_some_iff.mp h
    obtain ⟨value, hvalue, heq⟩ := Option.map_eq_some_iff.mp htrimmed
    have hplace : (Role.node.places nodeFields).get? "properties" = some (.whole .payload) := rfl
    rw [hplace, Option.elim_some, Holding.trim_whole] at heq
    cases value with
    | object fields =>
      refine ⟨fields, ?_, hj.fields _ (KeyMap.mem_of_get? hvalue), ?_⟩
      · rw [payload?, Json.field?, hvalue]
        rfl
      · obtain ⟨left, hleft⟩ := Role.payload.exists_trim_object fields
        rw [hleft] at heq
        subst heq
        cases hfields
        exact hleft
    | _ =>
      rw [Role.trim_of_none rfl] at heq
      subst heq
      cases hfields
  | _ =>
    rw [Role.trim_of_none rfl] at h
    cases h

/-- Children of what is left are children of the value, trimmed or as they were. -/
theorem childNodes_trim (hj : j.Distinct) {child : ChildPlace × Json}
    (h : child ∈ (Role.node.trim j).childNodes) :
    ∃ source, (child.1, source) ∈ j.childNodes ∧ source.Distinct
      ∧ (child.2 = source ∨ child.2 = Role.node.trim source) := by
  unfold childNodes at h
  split at h
  · rename_i rest hrest
    obtain ⟨fields, hfields, hdistinct, htrim⟩ := exists_payload_trim hj hrest
    rw [underChildKeys_eq] at h
    obtain ⟨key, hkey, h⟩ := List.mem_flatMap.mp h
    cases hvalue : KeyMap.get? rest key with
    | none => simp [hvalue] at h
    | some value =>
      rw [hvalue, Option.elim_some] at h
      obtain ⟨source, hsource, heq⟩ := get?_trim_payload hdistinct htrim hvalue
      have hmem {other : ChildPlace × Json} (hother : other ∈ childrenUnder key source) :
          other ∈ j.childNodes ∧ other.2.Distinct := by
        have hunder := mem_underChildKeys hkey hsource hother
        rw [childNodes, hfields]
        exact ⟨hunder, distinct_of_underChildKeys hdistinct hunder⟩
      rcases heq with rfl | rfl
      · exact ⟨child.2, (hmem h).1, (hmem h).2, .inl rfl⟩
      · rw [childrenUnder_trim] at h
        obtain ⟨other, hother, rfl⟩ := List.mem_map.mp h
        exact ⟨other.2, (hmem hother).1, (hmem hother).2, .inr rfl⟩
  · cases h

private theorem checkTags_trim (hj : j.Distinct) (path : Path) (h : j.checkTags path = []) :
    (Role.node.trim j).checkTags path = [] := by
  induction j using childNodes_induction generalizing path with
  | node j ih =>
    rw [checkTags_eq, List.append_eq_nil_iff, List.flatMap_eq_nil_iff] at h
    rw [checkTags_eq, checkOwnTags_trim hj h.1, List.nil_append, List.flatMap_eq_nil_iff]
    intro child hchild
    obtain ⟨source, hsource, hdistinct, heq⟩ := childNodes_trim hj hchild
    rcases heq with heq | heq
    · rw [heq]
      exact h.2 _ hsource
    · rw [heq]
      exact ih _ hsource hdistinct _ (h.2 _ hsource)

/-! ## Leaves -/

/-- No child stands in what is left that did not stand there before. -/
theorem firstChildKey?_eq_none {fields rest : KeyMap Json} (h : firstChildKey? fields = none)
    (hrest : ∀ key ∈ Rules.childKeys, ∀ value, rest.get? key = some value →
      ∃ source, fields.get? key = some source
        ∧ (value = source ∨ value = Holding.children.trim source)) :
    firstChildKey? rest = none := by
  refine List.find?_eq_none.mpr fun key hkey hholds => ?_
  cases hvalue : rest.get? key with
  | none => simp [hvalue] at hholds
  | some value =>
    obtain ⟨source, hsource, heq⟩ := hrest key hkey value hvalue
    have hsame : holdsChild value = holdsChild source := by
      rcases heq with rfl | rfl
      · rfl
      · cases source with
        | object fields =>
          obtain ⟨rest, hrest⟩ := Role.node.exists_trim_object fields
          rw [Holding.trim_children_object, hrest]
          rfl
        | array items =>
          rw [Holding.trim_children_array]
          cases items <;> rfl
        | _ => rfl
    refine List.find?_eq_none.mp h key hkey ?_
    rw [hvalue, Option.any_some, hsame] at hholds
    rw [hsource, Option.any_some, hholds]

private theorem checkOwnLeaf_trim {path : Path} (hj : j.Distinct) (h : j.checkOwnLeaf path = []) :
    (Role.node.trim j).checkOwnLeaf path = [] := by
  unfold checkOwnLeaf at h ⊢
  rw [Role.node.typeName?_trim hj]
  split at h
  · rename_i type htype
    by_cases hleaf : type.isLeaf = true
    · simp only [hleaf, if_true] at h ⊢
      split at h
      · cases h
      · rename_i hnone
        obtain ⟨hpayload, hfields⟩ := Option.or_eq_none_iff.mp hnone
        obtain ⟨tag, htag, -⟩ := Option.bind_eq_some_iff.mp htype
        obtain ⟨fields, rfl⟩ := object_of_typeName? htag
        have hpayload' : (Role.node.trim (object fields)).payload?.bind firstChildKey? = none := by
          cases hrest : (Role.node.trim (object fields)).payload? with
          | none => rfl
          | some rest =>
            obtain ⟨payload, hsource, hdistinct, htrim⟩ := exists_payload_trim hj hrest
            rw [hsource] at hpayload
            exact firstChildKey?_eq_none hpayload fun key _ value hvalue =>
              get?_trim_payload hdistinct htrim hvalue
        -- A child key beside the payload is no field of a node, so none of them is left.
        have hfields' : (Role.node.trim (object fields)).fields?.bind firstChildKey? = none := by
          have hknown : Role.node.known? (object fields) = some nodeFields := rfl
          have hdisjoint : ∀ key ∈ Rules.childKeys,
              (key == "type" || nodeFields.contains key) = false := by decide
          rw [Role.trim_object hknown hj.nodup]
          refine List.find?_eq_none.mpr fun key hkey => ?_
          rw [get?_trimFields,
            KeyMap.get?_filter fun key => key == "type" || nodeFields.contains key,
            hdisjoint key hkey]
          simp
        rw [hpayload', hfields']
        rfl
    · simp [hleaf]
  · rfl

private theorem checkLeaves_trim (hj : j.Distinct) (path : Path) (h : j.checkLeaves path = []) :
    (Role.node.trim j).checkLeaves path = [] := by
  induction j using childNodes_induction generalizing path with
  | node j ih =>
    rw [checkLeaves_eq, List.append_eq_nil_iff, List.flatMap_eq_nil_iff] at h
    rw [checkLeaves_eq, checkOwnLeaf_trim hj h.1, List.nil_append, List.flatMap_eq_nil_iff]
    intro child hchild
    obtain ⟨source, hsource, hdistinct, heq⟩ := childNodes_trim hj hchild
    rcases heq with heq | heq
    · rw [heq]
      exact h.2 _ hsource
    · rw [heq]
      exact ih _ hsource hdistinct _ (h.2 _ hsource)

/-! ## Sections -/

private theorem checkSections_trim (hj : j.Distinct) (h : j.checkSections = []) :
    (Role.document.trim j).checkSections = [] := by
  cases j with
  | object fields =>
    have hknown : Role.document.known? (object fields) = some documentFields := rfl
    have hstate : (Role.document.trim (object fields)).field? "initialState"
        = (object fields).field? "initialState" := by
      rw [Role.field?_trim_of_mem hknown hj (by decide)]
      exact congrFun Option.map_id _
    have hactions : (Role.document.trim (object fields)).field? "actions"
        = ((object fields).field? "actions").map Holding.scripts.trim := by
      rw [Role.field?_trim_of_mem hknown hj (by decide)]
      rfl
    obtain ⟨hcleanState, hcleanActions⟩ := List.append_eq_nil_iff.mp h
    rw [checkSections, hstate, hcleanState, List.nil_append, hactions]
    cases hvalue : (object fields).field? "actions" with
    | none => rfl
    | some value =>
      rw [hvalue] at hcleanActions
      cases value with
      | object scripts =>
        have hdistinct := hj.field? hvalue
        rw [Option.map_some, Holding.trim_scripts hdistinct.nodup]
        simp only [KeyMap.mapValues, List.flatMap_map, List.flatMap_eq_nil_iff] at hcleanActions ⊢
        intro script hscript
        have hread : ((Holding.items .action).trim script.2).list? (Action.ofJson? false)
            = script.2.list? (Action.ofJson? false) := by
          refine Holding.list?_trim fun items hitems item hitem => ?_
          have hitems' := hdistinct.fields script hscript
          rw [hitems] at hitems'
          exact Action.ofJson?_trim (hitems'.items item hitem) false
        rw [hread]
        exact hcleanActions script hscript
      | _ => cases hcleanActions
  | _ =>
    rw [Role.trim_of_none rfl]
    exact h

/-! ## Payloads -/

def recognized (j : Json) : Json :=
  j.role.trim j

theorem Distinct.rootValue (hj : j.Distinct) : j.rootValue.Distinct := by
  by_cases hdocument : j.isDocument = true
  · obtain ⟨fields, root, rfl, hroot, hvalue⟩ := exists_root_of_isDocument hdocument
    rw [hvalue]
    exact hj.field? hroot
  · rwa [Json.rootValue, if_neg hdocument]

theorem document_recognized (hj : j.Distinct) (h : j.isDocument = true) :
    j.recognized = Role.document.trim j ∧ j.recognized.isDocument = true
      ∧ j.recognized.rootValue = Role.node.trim j.rootValue := by
  have hrecognized : j.recognized = Role.document.trim j := by
    rw [recognized, role, if_pos h]
  obtain ⟨fields, root, rfl, hroot, hvalue⟩ := exists_root_of_isDocument h
  have hknown : Role.document.known? (object fields) = some documentFields := rfl
  have hroot' : (Role.document.trim (object fields)).field? "root"
      = some (Role.node.trim root) := by
    have hplace : (Role.document.places documentFields).get? "root" = some (.whole .node) := rfl
    have hget : KeyMap.get? fields "root" = some root := hroot
    rw [Role.field?_trim_of_mem hknown hj (by decide), hget, hplace, Option.map_some,
      Option.elim_some, Holding.trim_whole]
  have htype : (Role.document.trim (object fields)).field? "type" = none := by
    have hnone : KeyMap.get? fields "type" = none :=
      Option.isNone_iff_eq_none.mp (Bool.and_eq_true _ _ ▸ h).2
    rw [Role.field?_trim hknown hj.nodup, hnone]
    rfl
  have hdocument : (Role.document.trim (object fields)).isDocument = true := by
    rw [isDocument, hroot', htype]
    rfl
  rw [hrecognized]
  exact ⟨rfl, hdocument, by rw [rootValue, if_pos hdocument, hroot', hvalue]; rfl⟩

theorem node_recognized (hj : j.Distinct) (h : j.isDocument ≠ true) {tag : String}
    (htag : j.typeName? = some tag) :
    j.recognized = Role.node.trim j ∧ j.recognized.isDocument = false
      ∧ j.recognized.isRootlessDocument = false := by
  have hrecognized : j.recognized = Role.node.trim j := by
    rw [recognized, role, if_neg h]
  have htype : ((Role.node.trim j).field? "type").isNone = false := by
    have hname := (Role.node.typeName?_trim hj).trans htag
    obtain ⟨value, hvalue, -⟩ := Option.bind_eq_some_iff.mp hname
    rw [hvalue]
    rfl
  rw [hrecognized, isDocument, isRootlessDocument, htype]
  exact ⟨rfl, Bool.and_false _, by simp⟩

theorem Passes.wellTagged (h : j.Passes) : j.rootValue.WellTagged :=
  ⟨.root, h.tags⟩

theorem isDocument_recognized (hj : j.Distinct) (h : j.Passes) :
    j.recognized.isDocument = j.isDocument := by
  by_cases hdocument : j.isDocument = true
  · rw [(document_recognized hj hdocument).2.1, hdocument]
  · obtain ⟨tag, htag⟩ := h.wellTagged.typeName?
    rw [rootValue, if_neg hdocument] at htag
    rw [(node_recognized hj hdocument htag).2.1, Bool.eq_false_iff.mpr hdocument]

private theorem passes_recognized (hj : j.Distinct) (h : j.Passes) : j.recognized.Passes := by
  obtain ⟨node, hnode, hcheck⟩ := h.root
  have hroot := hj.rootValue
  have htags := checkTags_trim hroot .root h.tags
  have hleaves := checkLeaves_trim hroot .root h.leaves
  have hread := (Node.ofJson?_trim hroot h.wellTagged false).trans hnode
  by_cases hdocument : j.isDocument = true
  · obtain ⟨hrecognized, hkind, hvalue⟩ := document_recognized hj hdocument
    refine ⟨?_, hvalue ▸ htags, hvalue ▸ hleaves, ⟨node, hvalue ▸ hread, hcheck⟩, fun _ => ?_⟩
    · obtain ⟨_, root, -, hfield, -⟩ := exists_root_of_isDocument hkind
      rw [isRootlessDocument, hfield]
      rfl
    · rw [hrecognized]
      exact checkSections_trim hj (h.sections hdocument)
  · obtain ⟨tag, htag⟩ := h.wellTagged.typeName?
    rw [rootValue, if_neg hdocument] at htag htags hleaves hread
    obtain ⟨hrecognized, hkind, hrooted⟩ := node_recognized hj hdocument htag
    have hvalue : j.recognized.rootValue = Role.node.trim j := by
      rw [rootValue, hkind, if_neg (by simp), hrecognized]
    exact ⟨hrooted, hvalue ▸ htags, hvalue ▸ hleaves, ⟨node, hvalue ▸ hread, hcheck⟩,
      fun h => absurd (hkind.symm.trans h) (by simp)⟩

/-- Nothing is found in what is left of a payload without errors. -/
theorem validate_recognized (hj : j.Distinct) (h : j.Passes) : j.recognized.validate true = [] := by
  have hunrecognized : j.recognized.unrecognized = [] := by
    rw [unrecognized, role, isDocument_recognized hj h, recognized]
    exact j.role.unrecognized_trim hj
  rw [(passes_recognized hj h).validate_eq, if_pos rfl, unknown_eq_map, hunrecognized]
  rfl

end Json

namespace Payload

private theorem ofJson?_recognized {j : Json} (hj : j.Distinct) (h : j.Passes) :
    Payload.ofJson? j.recognized = Payload.ofJson? j := by
  rw [ofJson?, ofJson?, isDocument_recognized hj h]
  by_cases hdocument : j.isDocument = true
  · rw [if_pos hdocument, if_pos hdocument, (document_recognized hj hdocument).1]
    obtain ⟨fields, root, rfl, hroot, hvalue⟩ := exists_root_of_isDocument hdocument
    rw [Document.ofJson?_trim hj fun value hget => ?_]
    have hsame : root = value := Option.some.inj (hroot.symm.trans hget)
    rw [← hsame, ← hvalue]
    exact h.wellTagged
  · have htags := h.wellTagged
    rw [rootValue, if_neg hdocument] at htags
    obtain ⟨tag, htag⟩ := htags.typeName?
    rw [if_neg hdocument, if_neg hdocument, (node_recognized hj hdocument htag).1,
      Node.ofJson?_trim hj htags]

private theorem guard_ofText {text : String} {j : Json} (h : Json.ofText text = .ok j) :
    DecodeError.guard text Json.ofText = .ok j := by
  obtain ⟨raw, hraw, -⟩ := map_eq_ok.mp h
  rw [DecodeError.guard, Json.isBlank_of_asWritten hraw, h]
  rfl

theorem decode_of_ofText {text : String} {j : Json} {p : Payload} (h : Json.ofText text = .ok j)
    (hp : Payload.ofJson? j = some p) : Payload.decode text = .ok p := by
  obtain ⟨raw, hraw, -⟩ := map_eq_ok.mp h
  rw [decode, DecodeError.guard, Json.isBlank_of_asWritten hraw, h]
  change Except.mapError _ (Draft.fit (Payload.ofJson? j)) = _
  rw [hp]
  rfl

theorem validate_of_ofText {text : String} {j : Json} (h : Json.ofText text = .ok j)
    (strict : Bool) : Payload.validate strict text = j.validate strict := by
  rw [validate, guard_ofText h]

theorem exists_value_of_isValid {text : String}
    (h : Finding.isValid (Payload.validate true text) = true) :
    ∃ j p, Json.ofText text = .ok j ∧ j.Distinct ∧ j.Passes ∧ Payload.ofJson? j = some p
      ∧ Payload.validate true text = Finding.distinct
        ((if j.isDocument then j.unknownInDocument else [])
          ++ j.rootValue.unknownInTree .root) := by
  cases hguard : DecodeError.guard text Json.ofText with
  | error e =>
    rw [validate, hguard] at h
    exact absurd e.isError_finding.1 (Finding.isValid_iff.mp h _ List.mem_cons_self)
  | ok j =>
    obtain ⟨-, hread⟩ := DecodeError.guard_eq_ok hguard
    have hsorted := Json.sorted_of_ofText hread
    rw [validate_of_ofText hread] at h
    have hpasses := passes_of_isValid h
    obtain ⟨p, hp, -⟩ := payload_of_isValid hsorted h
    exact ⟨j, p, hread, hsorted.distinct, hpasses, hp,
      (validate_of_ofText hread true).trans (hpasses.validate_eq true)⟩

/-- Strict validation is right about what it calls unrecognized. What it finds are the fields of the
value in `unrecognized`, written as paths and without repeats; without these fields the payload
decodes to what it decodes to with them, and nothing at all is found in it. -/
theorem decode_recognized {text : String}
    (h : Finding.isValid (Payload.validate true text) = true) :
    ∃ j p, Json.ofText text = .ok j ∧ Payload.decode text = .ok p
      ∧ Payload.validate true text = Finding.distinct
        ((if j.isDocument then j.unknownInDocument else []) ++ j.rootValue.unknownInTree .root)
      ∧ (if j.isDocument then j.unknownInDocument else []) ++ j.rootValue.unknownInTree .root
        = j.unrecognized.map j.unrecognizedAt
      ∧ (∀ field ∈ j.unrecognized,
          ∃ fields, j.at? field.1 = some (.object fields) ∧ field.2 ∈ KeyMap.keys fields)
      ∧ Payload.ofJson? j.recognized = some p ∧ j.recognized.validate true = []
      ∧ ∀ rest, Json.ofText rest = .ok j.recognized →
          Payload.decode rest = .ok p ∧ Payload.validate true rest = [] := by
  obtain ⟨j, p, hread, hdistinct, hpasses, hp, hfound⟩ := exists_value_of_isValid h
  have hrest := (ofJson?_recognized hdistinct hpasses).trans hp
  have hclean := validate_recognized hdistinct hpasses
  exact ⟨j, p, hread, decode_of_ofText hread hp, hfound, unknown_eq_map j,
    fun field hfield => j.role.exists_of_mem_unrecognized hdistinct hfield,
    hrest, hclean, fun rest hofText =>
      ⟨decode_of_ofText hofText hrest, (validate_of_ofText hofText true).trans hclean⟩⟩

/-- A document with a field too many at the top, in a script, in a node, in a shape and in the
payload of a child. -/
def surplusText : String :=
  (Json.object [
    ("version", .number (.int 2)),
    ("actions", .object [("go", .array [Json.tagged "Sequence" [("actions", .array [
      Json.tagged "Log" [("message", .string "m"), ("level", .string "info")]])]])]),
    ("root", .object [
      ("type", .string "Button"), ("name", .string "go"),
      ("composeModifier", .object [("operations", .array [
        Json.tagged "Clip" [("shape", Json.tagged "Circle" [("radius", .number (.int 3))])]])]),
      ("properties", Json.tagged "ButtonProps" [("child", .object [
        ("type", .string "Text"),
        ("properties", Json.tagged "TextProps" [("size", .number (.int 9))])])])])]).text

set_option maxRecDepth 100000 in
/-- All five are found, and the document decodes to the same without them. -/
theorem decode_recognized_surplusText :
    Finding.isValid (Payload.validate true surplusText) = true
      ∧ (Payload.validate true surplusText).map Finding.path
        = ["version", "actions.go[0].actions[0].level", "root.name",
          "root.composeModifier.operations[0].shape.radius",
          "root.properties.child.properties.size"]
      ∧ ∃ j p, Json.ofText surplusText = .ok j ∧ Payload.decode surplusText = .ok p
        ∧ Payload.ofJson? j.recognized = some p ∧ j.recognized.validate true = [] := by
  have hreads : ∃ j : Json, surplusText = j.text ∧ j.ReadsBack ∧ j.depth ≤ Draft.roomAtTop
      ∧ Finding.isValid (j.canonical.validate true) = true
      ∧ (j.canonical.validate true).map Finding.path
        = ["version", "actions.go[0].actions[0].level", "root.name",
          "root.composeModifier.operations[0].shape.radius",
          "root.properties.child.properties.size"] := by
    refine ⟨_, rfl, fun n hn => ?_, by decide +kernel, by decide +kernel, by decide +kernel⟩
    obtain rfl | rfl | rfl : n = .int 2 ∨ n = .int 3 ∨ n = .int 9 := by
      simpa [Json.tagged, Json.numbers, Json.numbersFields, Json.numbersItems] using hn
    all_goals exact Number.readsBack_int ⟨by decide, by decide⟩
  obtain ⟨value, htext, hvalue, hdepth, hvalid, hpaths⟩ := hreads
  have hfound : Payload.validate true surplusText = value.canonical.validate true :=
    validate_of_ofText (htext ▸ Json.ofText_text hvalue hdepth) true
  have h : Finding.isValid (Payload.validate true surplusText) = true := hfound ▸ hvalid
  obtain ⟨j, p, hread, hdecode, -, -, -, hrest, hclean, -⟩ := decode_recognized h
  exact ⟨h, hfound ▸ hpaths, j, p, hread, hdecode, hrest, hclean⟩

end Payload

end ScreenDoc
