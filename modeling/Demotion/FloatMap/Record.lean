import Demotion.Field

/-!
# Float records

A record of a float map says of one value of the program where it stands and whether it may be
demoted. It is made from the fields of a JSON object, in which every scalar counts as a text.
-/

namespace Demotion.FloatMap

/-- One value of the program, as the tool judged it. -/
structure Record where
  value : Content
  location : Content
  safe : Bool
  reason : Option Content
  downcast : Option Content
  error : Option Content
  mode : Option Content
  deriving DecidableEq, Repr

/-- The record with the given fields, or all that is wrong with them in the order of the fields. -/
def Record.ofFields (field : String → Option Field) : Except FieldFaults Record :=
  let value := required Field.asText (field "value")
  let location := required Field.asText (field "location")
  let safe := required Field.asBool (field "safe")
  let reason := optional Field.asText (field "reason")
  let downcast := optional Field.asText (field "downcast")
  let error := optional Field.asText (field "error")
  let mode := optional Field.asText (field "mode")
  match value, location, safe, reason, downcast, error, mode with
  | .ok value, .ok location, .ok safe, .ok reason, .ok downcast, .ok error, .ok mode =>
    .ok { value, location, safe, reason, downcast, error, mode }
  | _, _, _, _, _, _, _ =>
    .error (faultOf "value" value ++ faultOf "location" location ++ faultOf "safe" safe ++
      faultOf "reason" reason ++ faultOf "downcast" downcast ++ faultOf "error" error ++
      faultOf "mode" mode)

/-- The record of an object whose values fill fields as `view` says. -/
def Record.ofMembers (view : Json → Field) (members : List (Content × Json)) :
    Except FieldFaults Record :=
  Record.ofFields fun name => (Json.lookup members name).map view

/-- The JSON object of a record. Fields that are not set are left out. -/
def Record.toJson (r : Record) : Json :=
  let optionalMember (name : String) (content : Option Content) : List (String × Json) :=
    match content with
    | some s => [(name, .string s)]
    | none => []
  .record ([("value", .string r.value), ("location", .string r.location), ("safe", .bool r.safe)] ++
    optionalMember "reason" r.reason ++ optionalMember "downcast" r.downcast ++
    optionalMember "error" r.error ++ optionalMember "mode" r.mode)

/-- The records judged safe and those judged unsafe, each in order. -/
def splitSafe (records : List Record) : List Record × List Record :=
  records.partition (·.safe)

end Demotion.FloatMap
