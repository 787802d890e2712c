import ScreenDoc.Proofs.Json.Record
import ScreenDoc.Proofs.MapM
import ScreenDoc.Wire.Document

/-!
# Scripts as plain recursions

The actions of a sequence are a list of values that are read as any other action, only that they
are buffered.
-/

namespace ScreenDoc

namespace Action

theorem ofContent?_sequence (content : Json) :
    ofContent? "Sequence" content = (do
      let fields ← content.record? (fieldsOf "Sequence")
      (fields.required "actions" (Json.list? (ofJson? true))).map sequence) := by
  have hlist (value : Json) : ((value.list? (Json.tagged? tags true)).bind fun parts =>
      parts.mapM fun part => ofContent? part.1 part.2) = value.list? (ofJson? true) := by
    cases value with
    | array items => exact mapM_mapM _ _ items
    | _ => rfl
  have hattach (parts : List (String × Json)) :
      (parts.attach.mapM fun part => ofContent? part.1.1 part.1.2)
        = parts.mapM fun part => ofContent? part.1 part.2 := by
    rw [List.mapM_subtype (g := fun part => ofContent? part.1 part.2) fun _ _ => rfl,
      List.unattach_attach]
  have hnested : ((nested? content).bind fun parts =>
      parts.mapM fun part => ofContent? part.1 part.2)
        = (content.record? (fieldsOf "Sequence")).bind fun fields =>
            fields.required "actions" (Json.list? (ofJson? true)) := by
    unfold nested? KeyMap.required
    cases content.record? (fieldsOf "Sequence") with
    | none => rfl
    | some fields =>
      cases hget : fields.get? "actions" with
      | none => simp [hget]
      | some value => simpa [hget] using hlist value
  have hresult : ofContent? "Sequence" content = ((nested? content).bind fun parts =>
      parts.mapM fun part => ofContent? part.1 part.2).map sequence := by
    rw [ofContent?, if_pos rfl]
    split
    · rename_i hnone
      rw [hnone]
      rfl
    · rename_i parts hparts
      rw [hparts, hattach]
      rfl
  rw [hresult, hnested]
  cases content.record? (fieldsOf "Sequence") <;> rfl

theorem ofContent?_of_ne {tag : String} (h : tag ≠ "Sequence") (content : Json) :
    ofContent? tag content = (content.record? (fieldsOf tag)).bind (ofFields? tag) := by
  rw [ofContent?, if_neg h]
  rfl

end Action

theorem Document.actionsOfJson?_object (fields : List (String × Json)) :
    actionsOfJson? (.object fields)
      = Option.map SortedMap.ofList (fields.mapM fun field =>
          (field.2.list? (Action.ofJson? false)).map fun script => (field.1, script)) := by
  have hscript : (fun field : String × Json =>
      (field.2.list? (Action.ofJson? false)).map fun script => (field.1, script))
      = fun field => (do some (field.1, ← field.2.list? (Action.ofJson? false))) := by
    funext field
    exact Option.map_eq_bind
  rw [hscript, actionsOfJson?]
  exact Option.map_eq_bind.symm

end ScreenDoc
