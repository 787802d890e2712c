import ScreenDoc.Proofs.Json.Reader
import ScreenDoc.Proofs.Wire.Distinct
import ScreenDoc.Proofs.Wire.Routes
import ScreenDoc.Proofs.Wire.Stable

/-!
# Round trips through text

The text of a node or document is read back as that node or document, by the reader of its kind
and by the reader of payloads. Three things are asked: every double is finite, every double in the
text is read back as it was written, and the text does not nest deeper than texts may.
-/

namespace ScreenDoc

open Json

/-! ## What has a text that reads back -/

theorem Json.readsBack_of_inRange {j : Json} (h : ∀ n ∈ j.numbers, n.InRange)
    (hfloats : ∀ x, .float x ∈ j.numbers → (Number.float x).ReadsBack) : j.ReadsBack := by
  intro n hn
  cases n with
  | int n => exact Number.readsBack_int (h _ hn)
  | float x => exact hfloats x hn

/-- A node whose text can carry it back: its doubles are finite, its integers are those of the
types, the doubles in the text are read back unchanged, and the text nests no deeper than texts
may. -/
structure Node.Encodable (n : Node) : Prop where
  finite : n.Finite
  inRange : ∀ x ∈ n.toJson.numbers, x.InRange
  floats : ∀ x, .float x ∈ n.toJson.numbers → (Number.float x).ReadsBack
  depth : n.toJson.depth ≤ Draft.roomAtTop

structure Document.Encodable (d : Document) : Prop where
  finite : d.root.Finite
  inRange : ∀ x ∈ d.toJson.numbers, x.InRange
  floats : ∀ x, .float x ∈ d.toJson.numbers → (Number.float x).ReadsBack
  depth : d.toJson.depth ≤ Draft.roomAtTop

private theorem Json.isBlank_text_object (fields : List (String × Json)) :
    Text.isBlank (object fields).text = false := by
  have hbrace : ∃ cs, (object fields).render [] = '\x7b' :: cs := by
    cases fields <;> exact ⟨_, rfl⟩
  obtain ⟨cs, hcs⟩ := hbrace
  have hspace : Text.isSpace '\x7b' = false := by decide
  simp [Text.isBlank, Json.text, hcs, hspace]

/-- A reader that takes a written object apart to `a` reads `a` from its text. -/
theorem DecodeError.guard_text {α : Type} {read : String → Except Failure α}
    {fields : List (String × Json)} {a : α} (h : (read (object fields).text).toOption = some a) :
    DecodeError.guard (object fields).text read = .ok a := by
  rw [guard, isBlank_text_object, toOption_eq_some.mp h]
  rfl

theorem Payload.decode_text {j value : Json} {fields : List (String × Json)} {p : Payload}
    (hobject : j = object fields) (hvalue : Json.ofText j.text = .ok value)
    (hpayload : Payload.ofJson? value = some p) : Payload.decode j.text = .ok p := by
  have hread : (do Draft.fit (Payload.ofJson? (← Json.ofText j.text)) :
      Except Failure Payload).toOption = some p := by
    rw [toOption_bind, hvalue, toOption_ok, Option.bind_eq_bind, Option.bind_some,
      Draft.toOption_fit, hpayload]
  subst hobject
  exact DecodeError.guard_text hread

namespace Node

theorem Encodable.readsBack {n : Node} (h : n.Encodable) : n.toJson.ReadsBack :=
  Json.readsBack_of_inRange h.inRange h.floats

theorem decode_encode {n : Node} (h : n.Encodable) : decode n.encode = .ok n := by
  have hread : (Draft.readText (read Draft.roomAtTop) n.toJson.text).toOption = some n := by
    rw [Draft.readText_text h.readsBack, read_toDraft h.depth, ofJson?_toJson h.finite]
  rw [decode, encode, toJson_eq_object] at *
  exact DecodeError.guard_text hread

theorem isDocument_written (n : Node) : n.toJson.canonical.isDocument = false := by
  simp [isDocument, field?_written, get?_type]

theorem payload_decode_encode {n : Node} (h : n.Encodable) :
    Payload.decode n.encode = .ok (.node n) := by
  have hofText := Json.ofText_text h.readsBack h.depth
  have hpayload : Payload.ofJson? n.toJson.canonical = some (.node n) := by
    rw [Payload.ofJson?, n.isDocument_written, if_neg (by simp),
      ofJson?_canonical (distinct_toJson _), ofJson?_toJson h.finite]
    rfl
  exact Payload.decode_text n.toJson_eq_object hofText hpayload

end Node

namespace Document

theorem Encodable.readsBack {d : Document} (h : d.Encodable) : d.toJson.ReadsBack :=
  Json.readsBack_of_inRange h.inRange h.floats

theorem decode_encode {d : Document} (h : d.Encodable) : decode d.encode = .ok d := by
  have hread : (Draft.readText (read Draft.roomAtTop) d.toJson.text).toOption = some d := by
    rw [Draft.readText_text h.readsBack, read_toDraft h.depth, ofJson?_toJson h.finite]
  exact DecodeError.guard_text hread

theorem isDocument_written (d : Document) : d.toJson.canonical.isDocument = true := by
  have htype : KeyMap.get? d.fields "type" = none :=
    KeyMap.get?_eq_none_iff.mpr fun hmem =>
      absurd (d.keys_fields_sublist.subset hmem) (by decide)
  simp [isDocument, field?_written, get?_root, htype]

theorem payload_decode_encode {d : Document} (h : d.Encodable) :
    Payload.decode d.encode = .ok (.document d) := by
  have hofText := Json.ofText_text h.readsBack h.depth
  have hpayload : Payload.ofJson? d.toJson.canonical = some (.document d) := by
    rw [Payload.ofJson?, d.isDocument_written, if_pos rfl,
      ofJson?_canonical (distinct_toJson _), ofJson?_toJson h.finite]
    rfl
  exact Payload.decode_text rfl hofText hpayload

end Document

/-- Nodes and documents survive their text, by either route. -/
theorem Payload.text_round_trip :
    (∀ n : Node, n.Encodable →
      Node.decode n.encode = .ok n ∧ Payload.decode n.encode = .ok (.node n))
    ∧ ∀ d : Document, d.Encodable →
      Document.decode d.encode = .ok d ∧ Payload.decode d.encode = .ok (.document d) :=
  ⟨fun _ h => ⟨Node.decode_encode h, Node.payload_decode_encode h⟩,
    fun _ h => ⟨Document.decode_encode h, Document.payload_decode_encode h⟩⟩

/-- A button that is half transparent, around a node that something else draws. -/
def Node.sample : Node where
  type := .button
  properties := some (.button {
    child := some {
      type := .custom
      properties := some (.custom {
        customType := "gauge"
        data := .ofFields [
          ("marks", .array [.null, .bool true]),
          ("width", .number (.int 3))] }) } })
  modifier := ⟨[.alpha (.finite ⟨false, twoPow 52, 1021, by decide⟩)]⟩

/-- The button below a nested script. -/
def Document.sample : Document where
  initialState := .ofFields [("count", .number (.int (-1)))]
  actions := .ofList [("go", [.sequence [.log "m", .setState "count" (.ofJson (.array []))]])]
  root := .sample

theorem Node.numbers_sample : sample.toJson.numbers
    = [.int 3, .float ⟨false, twoPow 52, 1021, by decide⟩] := by
  decide +kernel

theorem Node.encodable_sample : sample.Encodable where
  finite := by
    refine .node (List.forall_mem_singleton.mpr rfl) fun c hc => ?_
    obtain rfl := List.mem_singleton.mp hc
    exact .node (List.forall_mem_nil _) (List.forall_mem_nil _)
  inRange := by simp [numbers_sample, Number.InRange]
  floats x hx := by
    obtain rfl : x = ⟨false, twoPow 52, 1021, by decide⟩ := by simpa [numbers_sample] using hx
    rw [Number.ReadsBack]
    decide +kernel
  depth := by decide +kernel

theorem Document.numbers_sample :
    sample.toJson.numbers = .int (-1) :: Node.sample.toJson.numbers := by
  decide +kernel

theorem Document.encodable_sample : sample.Encodable where
  finite := Node.encodable_sample.finite
  inRange := by
    rw [numbers_sample, List.forall_mem_cons]
    exact ⟨by simp [Number.InRange], Node.encodable_sample.inRange⟩
  floats x hx := Node.encodable_sample.floats x (by simpa [numbers_sample] using hx)
  depth := by decide +kernel

/-- Both samples survive. -/
theorem Payload.text_round_trip_samples :
    (Node.decode Node.sample.encode = .ok Node.sample
      ∧ Payload.decode Node.sample.encode = .ok (.node Node.sample))
    ∧ Document.decode Document.sample.encode = .ok Document.sample
      ∧ Payload.decode Document.sample.encode = .ok (.document Document.sample) :=
  ⟨Payload.text_round_trip.1 _ Node.encodable_sample,
    Payload.text_round_trip.2 _ Document.encodable_sample⟩

end ScreenDoc
