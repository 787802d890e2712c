import ScreenDoc.Proofs.Json.AsWritten
import ScreenDoc.Proofs.Json.Reorder
import ScreenDoc.Proofs.Wire.Routes
import ScreenDoc.Proofs.Wire.Stable

/-!
# Texts without repeated keys

Nodes and documents are read from a text as it goes, payloads from the sorted value of the whole
text. Where the text is JSON and no object in it repeats a key, the two routes cannot be told
apart, and neither can two texts that differ in the order of fields.
-/

namespace ScreenDoc

namespace Json

private theorem isDocument_canonical {j : Json} (h : j.Distinct) :
    j.canonical.isDocument = j.isDocument := by
  cases j with
  | object fields =>
    rw [isDocument, isDocument, field?_canonical h.nodup, field?_canonical h.nodup]
    simp [field?]
  | _ => simp [isDocument, field?]

end Json

theorem DecodeError.guard_asWritten {α : Type} {read : Nat → Draft → Except Failure α}
    {ofJson? : Json → Option α}
    (hread : ∀ {j : Json} {room : Nat}, j.depth ≤ room →
      (read room j.toDraft).toOption = ofJson? j)
    {text : String} {j : Json} (h : Json.asWritten text = .ok j) :
    (DecodeError.guard text (Draft.readText (read Draft.roomAtTop))).toOption = ofJson? j := by
  obtain ⟨hdraft, hdepth⟩ := Json.draft_of_asWritten h
  rw [guard, Json.isBlank_of_asWritten h, ← hread hdepth]
  simp only [Draft.readText, hdraft]
  cases read Draft.roomAtTop j.toDraft <;> rfl

section Texts

variable {text : String} {j : Json}

theorem Node.decode_asWritten (h : Json.asWritten text = .ok j) :
    (Node.decode text).toOption = Node.ofJson? false j :=
  DecodeError.guard_asWritten Node.read_toDraft h

theorem Document.decode_asWritten (h : Json.asWritten text = .ok j) :
    (Document.decode text).toOption = Document.ofJson? j :=
  DecodeError.guard_asWritten Document.read_toDraft h

theorem Payload.ofJson?_canonical (h : j.Distinct) :
    Payload.ofJson? j.canonical = Payload.ofJson? j := by
  rw [ofJson?, ofJson?, Json.isDocument_canonical h, Document.ofJson?_canonical h,
    Node.ofJson?_canonical h]

theorem Payload.decode_asWritten (h : Json.asWritten text = .ok j) (hdistinct : j.Distinct) :
    (Payload.decode text).toOption = Payload.ofJson? j := by
  rw [← ofJson?_canonical hdistinct, ← Draft.toOption_fit (Payload.ofJson? j.canonical), decode,
    DecodeError.guard, Json.isBlank_of_asWritten h, Json.ofText_eq, h]
  change (Except.mapError _ (Draft.fit (ofJson? j.canonical))).toOption = _
  cases Payload.ofJson? j.canonical <;> rfl

/-- The two routes agree on what they accept and on what it is, and the order of the fields is
never seen. -/
theorem Payload.routes_agree (h : Json.asWritten text = .ok j) (hdistinct : j.Distinct) :
    (Payload.decode text).toOption
        = (if j.isDocument then (Document.decode text).toOption.map Payload.document
          else (Node.decode text).toOption.map Payload.node)
      ∧ ∀ (other : String) (k : Json), Json.asWritten other = .ok k → j.Reordered k →
          (Document.decode other).toOption = (Document.decode text).toOption
            ∧ (Node.decode other).toOption = (Node.decode text).toOption
            ∧ (Payload.decode other).toOption = (Payload.decode text).toOption := by
  constructor
  · rw [decode_asWritten h hdistinct, Document.decode_asWritten h, Node.decode_asWritten h,
      ofJson?]
  · intro other k hother hreordered
    have hk := hreordered.distinct hdistinct
    have hcanonical := hreordered.canonical_eq hdistinct
    refine ⟨?_, ?_, ?_⟩
    · rw [Document.decode_asWritten hother, Document.decode_asWritten h,
        ← Document.ofJson?_canonical hk, ← hcanonical, Document.ofJson?_canonical hdistinct]
    · rw [Node.decode_asWritten hother, Node.decode_asWritten h,
        ← Node.ofJson?_canonical hk, ← hcanonical, Node.ofJson?_canonical hdistinct]
    · rw [decode_asWritten hother hk, decode_asWritten h hdistinct, ← ofJson?_canonical hk,
        ← hcanonical, ofJson?_canonical hdistinct]

/-- A document whose script and payload give their tags last. -/
def Json.tagsLast : Json :=
  object [
    ("actions", object [("go", array [object [("message", string "m"), ("type", string "Log")]])]),
    ("root", object [
      ("properties", object [
        ("child", object [("extra", null), ("type", string "Text")]),
        ("type", string "ButtonProps")]),
      ("type", string "Button")])]

/-- The same document with the root and all tags first. -/
def Json.tagsFirst : Json :=
  object [
    ("root", object [
      ("type", string "Button"),
      ("properties", tagged "ButtonProps"
        [("child", object [("type", string "Text"), ("extra", null)])])]),
    ("actions", object [("go", array [tagged "Log" [("message", string "m")]])])]

private theorem Json.tagsLast_reordered : tagsLast.Reordered tagsFirst := by
  have hswap (first second : String × Json) :
      (object [first, second]).Reordered (object [second, first]) :=
    .fields (.swap ..)
  have hproperties := Reordered.trans
    (hswap ("child", object [("extra", null), ("type", string "Text")])
      ("type", string "ButtonProps"))
    (.value [_] [] "child" (hswap _ _))
  have hroot := Reordered.trans (hswap ("properties", _) ("type", string "Button"))
    (.value [_] [] "properties" hproperties)
  have hactions := Reordered.value [] [] "go"
    (.item [] [] (hswap ("message", string "m") ("type", string "Log")))
  exact .trans (hswap _ _) (.trans (.value [] _ "root" hroot) (.value [_] [] "actions" hactions))

private theorem Json.distinct_tagsLast : tagsLast.Distinct :=
  Sorted.distinct (by decide)

set_option maxRecDepth 100000 in
/-- Both texts of the document decode, by either route, to one document. -/
theorem Payload.routes_agree_tagsLast :
    (Document.decode Json.tagsLast.text).toOption.isSome = true
      ∧ (Payload.decode Json.tagsLast.text).toOption
        = (Document.decode Json.tagsLast.text).toOption.map Payload.document
      ∧ (Document.decode Json.tagsFirst.text).toOption
        = (Document.decode Json.tagsLast.text).toOption := by
  have hlast : Json.asWritten Json.tagsLast.text = .ok Json.tagsLast :=
    Json.asWritten_text (List.forall_mem_nil _) (by decide +kernel)
  have hfirst : Json.asWritten Json.tagsFirst.text = .ok Json.tagsFirst :=
    Json.asWritten_text (List.forall_mem_nil _) (by decide +kernel)
  obtain ⟨hroutes, horder⟩ := Payload.routes_agree hlast Json.distinct_tagsLast
  exact ⟨by decide +kernel, hroutes, (horder _ _ hfirst Json.tagsLast_reordered).1⟩

end Texts

end ScreenDoc
