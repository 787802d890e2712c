import ScreenDoc.Proofs.Wire.Decoded
import ScreenDoc.Proofs.Wire.Exact
import ScreenDoc.Proofs.Wire.FieldOrder
import ScreenDoc.Proofs.Wire.RoundTrip

/-!
# What was decoded, written again

A list of children and the parameters of an action may be absent from a text, and are always
written. So what was decoded from a text may be written one level deeper than the text was, and
if the text was as deep as texts may be, it is not read again. That is the only way in which it
can fail, as long as the doubles in it are read back.
-/

namespace ScreenDoc

open Json

def Payload.toJson : Payload → Json
  | node n => n.toJson
  | document d => d.toJson

def Payload.encode (p : Payload) : String :=
  p.toJson.text

/-- What becomes of `a`, which was decoded from `text`, when it is written as a value and decoded
again. -/
structure Reencodes {α : Type} (decode : String → Except DecodeError α) (toJson : α → Json)
    (text : String) (a : α) : Prop where
  /-- No more than one level is missing. -/
  depth : (toJson a).depth ≤ Draft.roomAtTop + 1
  /-- It is written one level deeper than it stood, at most. -/
  deepened : ∀ j, Json.asWritten text = .ok j → (toJson a).depth ≤ j.depth + 1
  /-- It comes back if there is room for all of it, and only then. -/
  comesBack : (∀ x, .float x ∈ (toJson a).numbers → (Number.float x).ReadsBack) →
    (decode (toJson a).text = .ok a ↔ (toJson a).depth ≤ Draft.roomAtTop)

theorem Reencodes.of_fits {α : Type} {decode : String → Except DecodeError α} {toJson : α → Json}
    {text : String} {a : α} (hfits : (toJson a).Fits (Draft.roomAtTop + 1))
    (hdeepened : ∀ j, Json.asWritten text = .ok j → (toJson a).depth ≤ j.depth + 1)
    (hdepth : (toJson a).ReadsBack → decode (toJson a).text = .ok a →
      (toJson a).depth ≤ Draft.roomAtTop)
    (hencode : (∀ x, .float x ∈ (toJson a).numbers → (Number.float x).ReadsBack) →
      (toJson a).depth ≤ Draft.roomAtTop → decode (toJson a).text = .ok a) :
    Reencodes decode toJson text a where
  depth := hfits.depth
  deepened := hdeepened
  comesBack hfloats :=
    ⟨hdepth (Json.readsBack_of_inRange hfits.inRange hfloats), hencode hfloats⟩

/-! ## Texts that were accepted -/

theorem Json.fits_of_asWritten {text : String} {j : Json} (h : asWritten text = .ok j) :
    j.Fits j.depth := by
  refine ⟨le_rfl, inRange_of_toDraft ?_⟩
  have hrange := Draft.inRange_ofText text
  rwa [(draft_of_asWritten h).1] at hrange

theorem Draft.read_of_decode {α : Type} {read : Draft → Except Failure α} {text : String} {a : α}
    (h : DecodeError.guard text (readText read) = .ok a) : read (ofText text).1 = .ok a := by
  obtain ⟨-, hread⟩ := DecodeError.guard_eq_ok h
  unfold readText at hread
  cases hdraft : ofText text with
  | mk draft ended =>
    simp only [hdraft] at hread
    obtain ⟨result, hresult, hended⟩ := bind_eq_ok.mp hread
    cases ended with
    | false => cases hended
    | true =>
      cases hended
      exact hresult

/-! ## What is written for them -/

namespace Node

theorem depth_of_decode_encode {n m : Node} (hnumbers : n.toJson.ReadsBack)
    (h : decode n.encode = .ok m) : n.toJson.depth ≤ Draft.roomAtTop := by
  have hread := Draft.read_of_decode h
  rw [encode, Draft.ofText_text hnumbers] at hread
  exact depth_of_read hread

theorem reencodes {text : String} {n : Node} (h : decode text = .ok n) :
    Reencodes decode toJson text n := by
  obtain ⟨j, hfits, hread⟩ := exists_fits_of_read (Draft.inRange_ofText text)
    (Draft.read_of_decode h)
  obtain ⟨hfinite, hwritten⟩ := decodesWithin hfits hread
  refine .of_fits hwritten (fun k hk => ?_) depth_of_decode_encode fun hfloats hroom =>
    decode_encode ⟨hfinite, hwritten.inRange, hfloats, hroom⟩
  have hread := decode_asWritten hk
  rw [h, toOption_ok] at hread
  exact (decodesWithin (Json.fits_of_asWritten hk) hread.symm).2.depth

end Node

namespace Document

theorem depth_of_decode_encode {d last : Document} (hnumbers : d.toJson.ReadsBack)
    (h : decode d.encode = .ok last) : d.toJson.depth ≤ Draft.roomAtTop := by
  have hread := Draft.read_of_decode h
  rw [encode, Draft.ofText_text hnumbers] at hread
  exact depth_of_read hread

theorem reencodes {text : String} {d : Document} (h : decode text = .ok d) :
    Reencodes decode toJson text d := by
  obtain ⟨j, hfits, hread⟩ := exists_fits_of_read (Draft.inRange_ofText text)
    (Draft.read_of_decode h)
  obtain ⟨hfinite, hwritten⟩ := decodesWithin hfits hread
  refine .of_fits hwritten (fun k hk => ?_) depth_of_decode_encode fun hfloats hroom =>
    decode_encode ⟨hfinite, hwritten.inRange, hfloats, hroom⟩
  have hread := decode_asWritten hk
  rw [h, toOption_ok] at hread
  exact (decodesWithin (Json.fits_of_asWritten hk) hread.symm).2.depth

end Document

namespace Payload

theorem exists_asWritten_of_decode {text : String} {p : Payload} (h : decode text = .ok p) :
    ∃ j, Json.asWritten text = .ok j ∧ ofJson? j.canonical = some p := by
  obtain ⟨-, hread⟩ := DecodeError.guard_eq_ok h
  obtain ⟨value, hvalue, hfit⟩ := bind_eq_ok.mp hread
  rw [Json.ofText_eq] at hvalue
  obtain ⟨j, hj, rfl⟩ := map_eq_ok.mp hvalue
  have hpayload := congrArg Except.toOption hfit
  rw [Draft.toOption_fit] at hpayload
  exact ⟨j, hj, hpayload⟩

theorem depth_of_decode_encode {p last : Payload} (hnumbers : p.toJson.ReadsBack)
    (h : decode p.encode = .ok last) : p.toJson.depth ≤ Draft.roomAtTop := by
  obtain ⟨j, hj, -⟩ := exists_asWritten_of_decode h
  obtain ⟨hdraft, hdepth⟩ := Json.draft_of_asWritten hj
  rw [encode, Draft.ofText_text hnumbers] at hdraft
  rwa [Draft.toDraft_injective (congrArg Prod.fst hdraft)]

theorem decodesWithin {room : Nat} {j : Json} {p : Payload} (hj : j.Fits room)
    (h : ofJson? j = some p) :
    (∃ n, p = node n ∧ n.DecodesWithin room) ∨ ∃ d, p = document d ∧ d.DecodesWithin room := by
  unfold ofJson? at h
  split at h
  · obtain ⟨d, hd, rfl⟩ := Option.map_eq_some_iff.mp h
    exact .inr ⟨d, rfl, Document.decodesWithin hj hd⟩
  · obtain ⟨n, hn, rfl⟩ := Option.map_eq_some_iff.mp h
    exact .inl ⟨n, rfl, Node.decodesWithin hj hn⟩

theorem reencodes {text : String} {p : Payload} (h : decode text = .ok p) :
    Reencodes decode toJson text p := by
  obtain ⟨j, hj, hpayload⟩ := exists_asWritten_of_decode h
  have hroom : j.depth ≤ Draft.roomAtTop := (Json.draft_of_asWritten hj).2
  -- The text has one value, so its depth is the room that the payload was decoded with.
  have hdeepened {k : Json} (hk : Json.asWritten text = .ok k) : k = j :=
    Except.ok.inj (hk.symm.trans hj)
  rcases decodesWithin (Json.fits_of_asWritten hj).canonical hpayload with
    ⟨n, rfl, hfinite, hfits⟩ | ⟨d, rfl, hfinite, hfits⟩
  · have hwritten := hfits.mono (Nat.succ_le_succ hroom)
    exact .of_fits hwritten (fun k hk => hdeepened hk ▸ hfits.depth) depth_of_decode_encode
      fun hfloats hroom => n.payload_decode_encode ⟨hfinite, hfits.inRange, hfloats, hroom⟩
  · have hwritten := hfits.mono (Nat.succ_le_succ hroom)
    exact .of_fits hwritten (fun k hk => hdeepened hk ▸ hfits.depth) depth_of_decode_encode
      fun hfloats hroom => d.payload_decode_encode ⟨hfinite, hfits.inRange, hfloats, hroom⟩

/-- Whatever was accepted, by whichever route, is written with one level more at most, and comes
back if texts may be that deep. -/
theorem reencodes_accepted (text : String) :
    (∀ n, Node.decode text = .ok n → Reencodes Node.decode Node.toJson text n)
      ∧ (∀ d, Document.decode text = .ok d → Reencodes Document.decode Document.toJson text d)
      ∧ ∀ p, Payload.decode text = .ok p → Reencodes Payload.decode Payload.toJson text p :=
  ⟨fun _ => Node.reencodes, fun _ => Document.reencodes, fun _ => reencodes⟩

end Payload

theorem Payload.decode_text_of_node {j : Json} {n : Node} (hsorted : j.Sorted)
    (hread : Json.asWritten j.text = .ok j) (hdocument : j.isDocument = false)
    (hn : Node.ofJson? false j = some n) :
    Node.decode j.text = .ok n ∧ Payload.decode j.text = .ok (.node n) := by
  have hpayload := decode_asWritten hread hsorted.distinct
  rw [ofJson?, if_neg (by simp [hdocument]), hn] at hpayload
  exact ⟨toOption_eq_some.mp ((Node.decode_asWritten hread).trans hn),
    toOption_eq_some.mp hpayload⟩

private theorem Payload.decode_text_of_document {j : Json} {d : Document} (hsorted : j.Sorted)
    (hread : Json.asWritten j.text = .ok j) (hdocument : j.isDocument = true)
    (hd : Document.ofJson? j = some d) :
    Document.decode j.text = .ok d ∧ Payload.decode j.text = .ok (.document d) := by
  have hpayload := decode_asWritten hread hsorted.distinct
  rw [ofJson?, if_pos hdocument, hd] at hpayload
  exact ⟨toOption_eq_some.mp ((Document.decode_asWritten hread).trans hd),
    toOption_eq_some.mp hpayload⟩

/-- A node that is a document as well: a box without a list of children, an action without
parameters. -/
def Json.sparse : Json :=
  object [
    ("actions", object [("go",
      array [object [("customType", string "ping"), ("type", string "Custom")]])]),
    ("properties", object [("type", string "BoxProps")]),
    ("root", object [("type", string "Text")]),
    ("type", string "Box")]

/-- All three readers accept it. The node is written one level deeper than it stood, and so is the
document; both come back. -/
theorem Payload.reencodes_accepted_sparse : ∃ n d,
    (Node.decode Json.sparse.text = .ok n ∧ n.toJson.depth = 3 ∧ Node.decode n.encode = .ok n)
      ∧ (Document.decode Json.sparse.text = .ok d ∧ d.toJson.depth = Json.sparse.depth + 1
        ∧ Document.decode d.encode = .ok d)
      ∧ Payload.decode Json.sparse.text = .ok (.node n)
      ∧ Payload.decode n.encode = .ok (.node n) := by
  have hsorted : Json.sparse.Sorted := by decide
  have hread := asWritten_text (j := Json.sparse) (List.forall_mem_nil _) (by decide +kernel)
  have hnode : (Node.ofJson? false Json.sparse).map
      (fun n => (n.toJson.depth, n.toJson.numbers)) = some (3, []) := by decide +kernel
  have hdocument : (Document.ofJson? Json.sparse).map
      (fun d => (d.toJson.depth, d.toJson.numbers)) = some (5, []) := by decide +kernel
  obtain ⟨n, hn, hwrittenNode⟩ := Option.map_eq_some_iff.mp hnode
  obtain ⟨d, hd, hwrittenDocument⟩ := Option.map_eq_some_iff.mp hdocument
  obtain ⟨hnodeDepth, hnodeNumbers⟩ := Prod.mk.inj hwrittenNode
  obtain ⟨hdocumentDepth, hdocumentNumbers⟩ := Prod.mk.inj hwrittenDocument
  obtain ⟨hn, hp⟩ := Payload.decode_text_of_node hsorted hread rfl hn
  replace hd : Document.decode Json.sparse.text = .ok d :=
    toOption_eq_some.mp ((Document.decode_asWritten hread).trans hd)
  obtain ⟨hnodes, hdocuments, hpayloads⟩ := reencodes_accepted Json.sparse.text
  have hnofloats {numbers : List Number} (h : numbers = []) :
      ∀ x, .float x ∈ numbers → (Number.float x).ReadsBack := by
    rw [h]
    exact fun x hx => absurd hx List.not_mem_nil
  have hroom : n.toJson.depth ≤ Draft.roomAtTop ∧ d.toJson.depth ≤ Draft.roomAtTop := by
    rw [hnodeDepth, hdocumentDepth]
    decide
  exact ⟨n, d, ⟨hn, hnodeDepth, ((hnodes n hn).comesBack (hnofloats hnodeNumbers)).mpr hroom.1⟩,
    ⟨hd, hdocumentDepth,
      ((hdocuments d hd).comesBack (hnofloats hdocumentNumbers)).mpr hroom.2⟩,
    hp, ((hpayloads _ hp).comesBack (hnofloats hnodeNumbers)).mpr hroom.1⟩

/-! ## Texts that do not come back -/

theorem Node.ofJson?_ofPayload {buffered : Bool} (type : NodeType) {value : Json}
    {p : Properties Node} (h : propertiesOfJson? buffered value = some p) :
    ofJson? buffered (object [("properties", value), ("type", string type.name)])
      = some { type, properties := some p } := by
  have hname : name? NodeType.named? buffered (string type.name) = some type :=
    type.named?_name
  have hnull : value ≠ .null := by
    rintro rfl
    cases h
  have hproperties : KeyMap.optional [("properties", value), ("type", string type.name)]
      "properties" (propertiesOfJson? buffered) = some (some p) := by
    rw [KeyMap.optional_of_get? rfl hnull, h]
    rfl
  have hrecord : (object [("properties", value), ("type", string type.name)]).record? fieldNames
      = some [("properties", value), ("type", string type.name)] := rfl
  simp [ofJson?_eq, hrecord, KeyMap.required, KeyMap.defaulted, KeyMap.get?_cons, hname,
    hproperties]

/-- Cards around a node, in a text. -/
def Json.inCards (inner : Json) : Nat → Json
  | 0 => inner
  | k + 1 => object [
      ("properties", object [("child", inner.inCards k), ("type", string "CardProps")]),
      ("type", string "Card")]

def Node.inCards (inner : Node) : Nat → Node
  | 0 => inner
  | k + 1 => { type := .card, properties := some (.card { child := some (inner.inCards k) }) }

section InCards

variable {j : Json} {n : Node}

theorem Json.depth_inCards (k : Nat) : (j.inCards k).depth = 2 * k + j.depth := by
  induction k with
  | zero => exact (Nat.zero_add _).symm
  | succ k ih =>
    simp only [inCards, depth, depthFields]
    omega

theorem Json.numbers_inCards (k : Nat) : (j.inCards k).numbers = j.numbers := by
  induction k with
  | zero => rfl
  | succ k ih => simp [inCards, numbers, numbersFields, ih]

theorem Json.Sorted.inCards (h : j.Sorted) (k : Nat) : (j.inCards k).Sorted := by
  induction k with
  | zero => exact h
  | succ k ih =>
    simp only [Json.inCards, Json.Sorted, SortedFields, KeyMap.Sorted, KeyMap.keys_cons,
      KeyMap.keys_nil, List.pairwise_pair, and_true, ih]
    decide

theorem Node.toJson_inCards_succ (k : Nat) : (n.inCards (k + 1)).toJson = object [
    ("type", string "Card"),
    ("properties", tagged "CardProps" [("child", (n.inCards k).toJson)])] := by
  rw [toJson_eq]
  rfl

theorem Node.depth_inCards (k : Nat) : (n.inCards k).toJson.depth = 2 * k + n.toJson.depth := by
  induction k with
  | zero => exact (Nat.zero_add _).symm
  | succ k ih =>
    rw [toJson_inCards_succ]
    simp only [tagged, depth, depthFields]
    omega

theorem Node.numbers_inCards (k : Nat) : (n.inCards k).toJson.numbers = n.toJson.numbers := by
  induction k with
  | zero => rfl
  | succ k ih => simp [toJson_inCards_succ, tagged, numbers, numbersFields, ih]

theorem Node.ofJson?_inCards (h : ∀ buffered, ofJson? buffered j = some n) (k : Nat)
    (buffered : Bool) : ofJson? buffered (j.inCards k) = some (n.inCards k) := by
  induction k generalizing buffered with
  | zero => exact h buffered
  | succ k ih =>
    have hchild := ih true
    -- `null` would leave the slot empty, but it is no node.
    have hslot : Properties.ofContent? "CardProps" (object [("child", j.inCards k)])
        = some (.card { child := some (j.inCards k) }) := by
      generalize j.inCards k = child at hchild
      cases child with
      | null =>
        rw [ofJson?_eq] at hchild
        cases hchild
      | _ => rfl
    refine ofJson?_ofPayload .card ?_
    change payload? "CardProps" (object [("child", j.inCards k)]) = _
    simp [payload?, hslot, Properties.traverse, hchild]

end InCards

/-- A box in a text that says nothing of its children. -/
def Json.silentBox : Json :=
  object [("properties", object [("type", string "BoxProps")]), ("type", string "Box")]

def Json.silentColumn : Json :=
  object [
    ("properties", object [("children", array [silentBox]), ("type", string "ColumnProps")]),
    ("type", string "Column")]

def Node.emptyBox : Node :=
  { type := .box, properties := some (.box {}) }

def Node.columnOfBox : Node :=
  { type := .column, properties := some (.column { children := [emptyBox] }) }

theorem Node.ofJson?_silentBox (buffered : Bool) :
    ofJson? buffered Json.silentBox = some emptyBox :=
  ofJson?_ofPayload .box rfl

private theorem Node.ofJson?_silentColumn (buffered : Bool) :
    ofJson? buffered Json.silentColumn = some columnOfBox := by
  have hread : Properties.ofContent? "ColumnProps" (object [("children", array [Json.silentBox])])
      = some (.column { children := [Json.silentBox] }) := rfl
  refine ofJson?_ofPayload .column ?_
  change payload? "ColumnProps" (object [("children", array [Json.silentBox])]) = _
  simp [payload?, hread, Properties.traverse, ofJson?_silentBox]

def Json.asRoot (root : Json) : Json :=
  object [("root", root)]

private theorem Document.ofJson?_asRoot {root : Json} {n : Node}
    (h : Node.ofJson? false root = some n) : ofJson? root.asRoot = some { root := n } := by
  have hrecord : root.asRoot.record? fieldNames = some [("root", root)] := rfl
  simp [ofJson?, hrecord, KeyMap.required, KeyMap.defaulted, KeyMap.get?_cons, h]

theorem Document.toJson_ofRoot (n : Node) : toJson { root := n } = n.toJson.asRoot := rfl

theorem Json.numbers_asRoot (j : Json) : j.asRoot.numbers = j.numbers :=
  List.append_nil _

theorem Json.depth_asRoot (j : Json) : j.asRoot.depth = j.depth + 1 := by
  simp [asRoot, depth, depthFields]

theorem Node.decode_encode_of_depth {n : Node} (hnumbers : n.toJson.ReadsBack)
    (hdepth : Draft.roomAtTop < n.toJson.depth) :
    (∀ m, decode n.encode ≠ .ok m) ∧ ∀ p, Payload.decode n.encode ≠ .ok p :=
  ⟨fun _ h => hdepth.not_ge (depth_of_decode_encode hnumbers h),
    fun _ h => hdepth.not_ge (Payload.depth_of_decode_encode (p := .node n) hnumbers h)⟩

theorem Document.decode_encode_of_depth {d : Document} (hnumbers : d.toJson.ReadsBack)
    (hdepth : Draft.roomAtTop < d.toJson.depth) :
    (∀ last, decode d.encode ≠ .ok last) ∧ ∀ p, Payload.decode d.encode ≠ .ok p :=
  ⟨fun _ h => hdepth.not_ge (depth_of_decode_encode hnumbers h),
    fun _ h => hdepth.not_ge (Payload.depth_of_decode_encode (p := .document d) hnumbers h)⟩

/-- A turn by degrees whose text, once written, is read as the next smaller double. -/
def Node.turnedText : String :=
  "\x7b\"type\":\"Text\",\"composeModifier\":\x7b\"operations\":"
    ++ "[\x7b\"type\":\"Rotate\",\"degrees\":96.31917997304962\x7d]\x7d\x7d"

/-- What is written for some of the texts that are accepted is refused, or read as something else.
A text of 61 cards around a column of a silent box nests as deep as texts may, and so does a
document of 62 cards around a silent box: both are written one level deeper. And a double may change
every time it is written and read. -/
theorem Payload.accepted_not_reencoded :
    (∃ n, Node.decode (Json.silentColumn.inCards 61).text = .ok n
      ∧ Payload.decode (Json.silentColumn.inCards 61).text = .ok (.node n)
      ∧ (∀ m, Node.decode n.encode ≠ .ok m) ∧ ∀ p, Payload.decode n.encode ≠ .ok p)
    ∧ (∃ d, Document.decode (Json.silentBox.inCards 62).asRoot.text = .ok d
      ∧ Payload.decode (Json.silentBox.inCards 62).asRoot.text = .ok (.document d)
      ∧ (∀ last, Document.decode d.encode ≠ .ok last) ∧ ∀ p, Payload.decode d.encode ≠ .ok p)
    ∧ ∃ n, Node.decode Node.turnedText = .ok n ∧ Node.decode n.encode ≠ .ok n := by
  have hsorted : Json.silentBox.Sorted ∧ Json.silentColumn.Sorted := by decide
  have hwritten : (Node.columnOfBox.toJson.numbers = [] ∧ Node.columnOfBox.toJson.depth = 6)
      ∧ Node.emptyBox.toJson.numbers = [] ∧ Node.emptyBox.toJson.depth = 3 := by decide +kernel
  refine ⟨?_, ?_, ?_⟩
  · have hread := asWritten_text (j := Json.silentColumn.inCards 61)
      (by rw [ReadsBack, numbers_inCards]; exact List.forall_mem_nil _)
      (by rw [depth_inCards]; decide)
    have hn := Node.ofJson?_inCards Node.ofJson?_silentColumn 61 false
    obtain ⟨hnode, hpayload⟩ := decode_text_of_node (hsorted.2.inCards 61) hread rfl hn
    refine ⟨_, hnode, hpayload, Node.decode_encode_of_depth ?_ ?_⟩
    · rw [ReadsBack, Node.numbers_inCards, hwritten.1.1]
      exact List.forall_mem_nil _
    · rw [Node.depth_inCards, hwritten.1.2]
      decide
  · have hread := asWritten_text (j := (Json.silentBox.inCards 62).asRoot)
      (by rw [ReadsBack, numbers_asRoot, numbers_inCards]; exact List.forall_mem_nil _)
      (by rw [depth_asRoot, depth_inCards]; decide)
    have hd := Document.ofJson?_asRoot (Node.ofJson?_inCards Node.ofJson?_silentBox 62 false)
    have hroot : (Json.silentBox.inCards 62).asRoot.Sorted :=
      sorted_object.mpr ⟨List.pairwise_singleton _ _,
        List.forall_mem_singleton.mpr (hsorted.1.inCards 62)⟩
    obtain ⟨hdocument, hpayload⟩ := decode_text_of_document hroot hread rfl hd
    refine ⟨_, hdocument, hpayload, Document.decode_encode_of_depth ?_ ?_⟩
    · rw [Document.toJson_ofRoot, ReadsBack, numbers_asRoot, Node.numbers_inCards, hwritten.2.1]
      exact List.forall_mem_nil _
    · rw [Document.toJson_ofRoot, depth_asRoot, Node.depth_inCards, hwritten.2.2]
      decide
  · have hfirst : (Node.decode Node.turnedText).toOption.isSome = true := by decide +kernel
    obtain ⟨n, hn⟩ := Option.isSome_iff_exists.mp hfirst
    -- Texts can be compared where nodes cannot.
    have hsecond : ((Node.decode Node.turnedText).toOption.bind fun n =>
          (Node.decode n.encode).toOption.map Node.encode)
        ≠ (Node.decode Node.turnedText).toOption.map Node.encode := by decide +kernel
    rw [hn] at hsecond
    refine ⟨n, toOption_eq_some.mp hn, fun hback => hsecond ?_⟩
    simp [hback]

end ScreenDoc
