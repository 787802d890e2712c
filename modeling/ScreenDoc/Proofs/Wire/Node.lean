import ScreenDoc.Proofs.Json.Record
import ScreenDoc.Proofs.Node.Traverse
import ScreenDoc.Wire.Node

/-!
# Nodes as plain recursions

Reading and writing nodes recurses over children that carry the proof that they are some. These
equations leave the proofs out.
-/

namespace ScreenDoc.Node

def propertiesOfJson? (buffered : Bool) (j : Json) : Option (Properties Node) :=
  (j.tagged? Properties.tags buffered).bind fun tagged => payload? tagged.1 tagged.2

theorem ofJson?_eq (buffered : Bool) (j : Json) :
    ofJson? buffered j = (do
      let fields ← j.record? fieldNames
      let type ← fields.required "type" (Json.name? NodeType.named? buffered)
      let modifier ← fields.defaulted "composeModifier" {} (Modifier.ofJson? buffered)
      let properties ← fields.optional "properties" (propertiesOfJson? buffered)
      some { type, properties, modifier }) := by
  rw [ofJson?]
  split
  · rename_i hrecord
    rw [hrecord]
    rfl
  · rename_i fields hrecord
    simp only [hrecord, Option.bind_eq_bind, Option.bind_some]
    cases fields.required "type" (Json.name? NodeType.named? buffered) with
    | none => rfl
    | some type =>
      cases fields.defaulted "composeModifier" {} (Modifier.ofJson? buffered) with
      | none => rfl
      | some modifier =>
        simp only [Option.bind_some]
        split
        · rename_i hget
          rw [KeyMap.optional_of_none hget]
          rfl
        · rename_i hget
          rw [KeyMap.optional_of_null hget]
          rfl
        · rename_i value hnull hget
          rw [KeyMap.optional_of_get? hget hnull]
          split
          · rename_i htag
            simp [propertiesOfJson?, htag]
          · rename_i tag content htag
            split
            · rename_i hp
              simp [propertiesOfJson?, htag, payload?, hp]
            · rename_i p hp
              have hpayload : propertiesOfJson? buffered value = p.traverse (ofJson? true) := by
                simp [propertiesOfJson?, htag, payload?, hp]
              rw [hpayload, Properties.traverse_attach]
              cases p.traverse (ofJson? true) <;> rfl

theorem toJson_eq (n : Node) :
    n.toJson = .object (("type", .string n.type.name)
      :: Json.optionalField "properties" (fun p => (p.map toJson).toJson) n.properties
      ++ (if n.modifier.isEmpty then [] else [("composeModifier", n.modifier.toJson)])) := by
  rw [toJson]
  congr 2
  split
  · rename_i hp
    rw [hp]
    rfl
  · rename_i p hp
    rw [hp, Properties.map_attach]
    rfl

end ScreenDoc.Node
