import ScreenDoc.Validate.Fields
import ScreenDoc.Validate.Typed
import ScreenDoc.Wire.Document

/-!
# Validation of texts

The stages of validation: the text must be JSON, the tags must be known, the root and the sections
must decode, the tree must keep the rules, and in strict mode no field may be left over. Each of
the first stages ends validation when it finds something.
-/

namespace ScreenDoc.Json

/-- A document's state and scripts must decode. -/
def checkSections (j : Json) : List Finding :=
  (match j.field? "initialState" with
    | none => []
    | some (object _) => []
    | some _ =>
      [.error (Path.top "initialState").text .malformedJson "initialState must be an object"])
  ++ (match j.field? "actions" with
    | none => []
    | some (object scripts) =>
      scripts.flatMap fun (name, script) =>
        if (script.list? (Action.ofJson? false)).isSome then []
        else
          [.error ((Path.top "actions").field name).text .malformedJson
            ("action list does not decode: " ++ Failure.mismatch.reason)]
    | some _ => [.error (Path.top "actions").text .malformedJson "actions must be an object"])

def rootValue (j : Json) : Json :=
  if j.isDocument then (j.field? "root").getD .null else j

/-- What is found in a value once all its tags are known. -/
def checkDecoded (strict : Bool) (j : Json) : List Finding :=
  let root := j.rootValue
  root.checkLeaves .root
    ++ match Node.ofJson? false root with
      | none =>
        [.error ((root.blame? .root).getD .root).text .malformedJson
          ("node does not decode: " ++ Failure.mismatch.reason)]
      | some node =>
        (if j.isDocument then j.checkSections else [])
          ++ node.check .root
          ++ (if strict then
              (if j.isDocument then j.unknownInDocument else []) ++ root.unknownInTree .root
            else [])

def validate (strict : Bool) (j : Json) : List Finding :=
  if j.isRootlessDocument then
    [.error Path.root.text .malformedJson "document has no root"]
  else
    let tags := j.rootValue.checkTags .root
    Finding.distinct (if tags.isEmpty then j.checkDecoded strict else tags)

end ScreenDoc.Json

namespace ScreenDoc.Payload

def validate (strict : Bool) (text : String) : List Finding :=
  match DecodeError.guard text Json.ofText with
  | .error e => [e.finding]
  | .ok j => j.validate strict

end ScreenDoc.Payload
