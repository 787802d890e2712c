import ScreenDoc.Proofs.Json.Exact
import ScreenDoc.Proofs.Wire.Encoding
import ScreenDoc.Proofs.Wire.Routes

/-!
# Values behind what is read

What is read from a text as it goes is what some value decodes to, one that fits into the room that
there was: the text without the fields that were passed over. And what is written, of which nothing
is passed over, is read only if there is room for all of it.
-/

namespace ScreenDoc

open Draft

/-! ## Modifiers, actions and nodes -/

theorem Operation.exact_read : Exact Operation.read :=
  (exact_tagged _).bind _

theorem Action.exact_read : Exact Action.read :=
  (exact_tagged _).bind _

theorem Modifier.exact_operations : Exact fun (room : Nat) (d : Draft) =>
    (do .ok ⟨← Draft.list Operation.read room d⟩ : Except Failure Modifier) :=
  Operation.exact_read.list.bind _

theorem Modifier.sifts_read : Sifts Modifier.read :=
  sifts_record (fun _ _ => exact_operations.sifts) {}

namespace Node

theorem exact_properties : Exact fun (room : Nat) (d : Draft) =>
    d.optional fun d => (do
      let (tag, content) ← d.tagged (Properties.tags.contains ·) room
      Draft.fit (payload? tag content) : Except Failure (Properties Node)) :=
  ((exact_tagged _).bind _).optional

theorem sifts_readField (n : Reading) (field : String) :
    Sifts fun room d => readField room n field d := by
  unfold readField
  split
  · exact ((exact_name _).bind _).sifts
  · exact (exact_properties.bind _).sifts
  · exact Modifier.sifts_read.bind _

theorem sifts_read : Sifts Node.read :=
  (sifts_record sifts_readField {}).bind _

theorem exists_fits_of_read {room : Nat} {d : Draft} {n : Node} (hrange : d.InRange)
    (h : read room d = .ok n) : ∃ j : Json, j.Fits room ∧ ofJson? false j = some n := by
  obtain ⟨j, hfits, hj⟩ := sifts_read _ _ _ hrange h
  exact ⟨j, hfits, by rw [← read_toDraft hfits.depth, hj, toOption_ok]⟩

end Node

namespace Document

theorem sifts_readField (d : Reading) (field : String) :
    Sifts fun room value => readField room d field value := by
  unfold readField
  split
  · exact (exact_value.entries.bind _).sifts
  · exact (Action.exact_read.list.entries.bind _).sifts
  · exact Node.sifts_read.bind _

theorem sifts_read : Sifts Document.read :=
  (sifts_record sifts_readField {}).bind _

theorem exists_fits_of_read {room : Nat} {value : Draft} {d : Document} (hrange : value.InRange)
    (h : read room value = .ok d) : ∃ j : Json, j.Fits room ∧ ofJson? j = some d := by
  obtain ⟨j, hfits, hj⟩ := sifts_read _ _ _ hrange h
  exact ⟨j, hfits, by rw [← read_toDraft hfits.depth, hj, toOption_ok]⟩

end Document

/-! ## Room for what is written -/

theorem Modifier.depth_of_read {room : Nat} {m last : Modifier}
    (h : Modifier.read room m.toJson.toDraft = .ok last) : m.toJson.depth ≤ room :=
  depth_of_record (by simp [fieldNames])
    (fun _ _ _ _ _ hadd => exact_operations.depth hadd) h

theorem Node.depth_of_read {room : Nat} {n m : Node} (h : Node.read room n.toJson.toDraft = .ok m) :
    n.toJson.depth ≤ room := by
  obtain ⟨last, hrecord, -⟩ := bind_eq_ok.mp h
  rw [toJson_eq_object] at hrecord ⊢
  refine depth_of_record (fun field hfield => ?_) (fun room field hfield state next hadd => ?_)
    hrecord
  · exact n.keys_fields_sublist.subset (List.mem_map_of_mem hfield)
  · unfold readField at hadd
    split at hadd
    · exact ((exact_name _).bind _).depth hadd
    · exact (exact_properties.bind _).depth hadd
    · -- A modifier is read by a record of its own, of which nothing is passed over either.
      rename_i htype hproperties
      obtain ⟨modifier, hread, -⟩ := bind_eq_ok.mp hadd
      obtain ⟨key, value⟩ := field
      have hkey : key ∈ fieldNames := n.keys_fields_sublist.subset (List.mem_map_of_mem hfield)
      obtain rfl : key = "composeModifier" := by
        simpa [fieldNames, show key ≠ "type" from htype, show key ≠ "properties" from hproperties]
          using hkey
      have hget := KeyMap.get?_of_mem n.nodup_keys hfield
      rw [get?_modifier] at hget
      split at hget
      · cases hget
      · cases hget
        exact Modifier.depth_of_read hread

theorem Document.depth_of_read {room : Nat} {d last : Document}
    (h : Document.read room d.toJson.toDraft = .ok last) : d.toJson.depth ≤ room := by
  obtain ⟨reading, hrecord, -⟩ := bind_eq_ok.mp h
  have hfields : d.toJson = .object d.fields := rfl
  rw [hfields] at hrecord ⊢
  refine depth_of_record (fun field hfield => ?_) (fun room field hfield state next hadd => ?_)
    hrecord
  · exact d.keys_fields_sublist.subset (List.mem_map_of_mem hfield)
  · unfold readField at hadd
    split at hadd
    · exact (exact_value.entries.bind _).depth hadd
    · exact (Action.exact_read.list.entries.bind _).depth hadd
    · rename_i hstate hactions
      obtain ⟨root, hread, -⟩ := bind_eq_ok.mp hadd
      obtain ⟨key, value⟩ := field
      have hkey : key ∈ fieldNames := d.keys_fields_sublist.subset (List.mem_map_of_mem hfield)
      obtain rfl : key = "root" := by
        simpa [fieldNames, show key ≠ "initialState" from hstate,
          show key ≠ "actions" from hactions] using hkey
      have hget := KeyMap.get?_of_mem d.nodup_keys hfield
      rw [get?_root] at hget
      cases hget
      exact Node.depth_of_read hread

end ScreenDoc
