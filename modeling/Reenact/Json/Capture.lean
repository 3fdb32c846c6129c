/-
  Decoders of captured calls and of what they are made of.

  The names of records and variants are those of the capture format; the plain forms of values have
  a second name in lower case.
-/
import Reenact.Call
import Reenact.Json.Decoder
import Reenact.Json.Reader
import Reenact.Settings

namespace Reenact

open Json Json.Fields

/-! ## Parts of values -/

def Vector3.ofJson : Decoder Vector3 :=
  record "struct Vector3" <|
    ((required "x" realDecoder).and <| (required "y" realDecoder).and <|
      required "z" realDecoder).map fun (x, y, z) => ⟨x, y, z⟩

def Color3.ofJson : Decoder Color3 :=
  record "struct Color3" <|
    ((required "r" realDecoder).and <| (required "g" realDecoder).and <|
      required "b" realDecoder).map fun (r, g, b) => ⟨r, g, b⟩

def ColorKeypoint.ofJson : Decoder ColorKeypoint :=
  record "struct ColorSequenceKeypoint" <|
    ((required "time" realDecoder).and <| required "value" Color3.ofJson).map
      fun (time, value) => ⟨time, value⟩

def NumberKeypoint.ofJson : Decoder NumberKeypoint :=
  record "struct NumberSequenceKeypoint" <|
    ((required "time" realDecoder).and <| (required "value" realDecoder).and <|
      optional "envelope" realDecoder .zero).map fun (time, value, envelope) =>
        ⟨time, value, envelope⟩

/-! ## Instances -/

def Role.ofJson : Decoder Role :=
  choice
    [.constant ["Plain"] .plain, .constant ["DataModel"] .dataModel,
      .constant ["Workspace"] .workspace, .constant ["Service"] .service,
      .constant ["LocalPlayer"] .localPlayer]

/-- An instance with at most `room` ancestors. -/
def Instance.decoder : (room : Nat) → Decoder Instance
  | 0 => fun _ => .error .illFormed
  | room + 1 =>
    record "struct InstanceRef" <|
      ((required "debug_id" textDecoder).and <| (required "name" textDecoder).and <|
        (required "class_name" textDecoder).and <| (optional "role" Role.ofJson .plain).and <|
        optional "parent" (nullable (Instance.decoder room)) none).map
          fun (debugId, name, className, role, parent) =>
            .ofParent? { debugId, name, className, role } parent

/-- An instance; each ancestor is in an object or array of its own. -/
def Instance.ofJson : Decoder Instance := fun j => Instance.decoder (j.depth + 1) j

/-! ## Values -/

/-- The variants of a value, from the decoder of the values in a table. -/
def Value.variants (inner : Decoder Value) : List (Variant Value) :=
  [.constant ["Nil", "nil"] .nil,
    .value ["Boolean", "boolean"] booleanDecoder .boolean,
    .value ["Number", "number"] realDecoder .number,
    .value ["String", "string"] textDecoder .text,
    .value ["Table", "table"] (listDecoder (pairDecoder inner inner)) .table,
    .value ["Instance", "instance"] Instance.ofJson .reference,
    .fields "CapturedValue" "DateTime" <|
      (required "unix_timestamp_millis" integerDecoder).map .dateTime,
    .fields "CapturedValue" "PathWaypoint" <|
      ((required "position" Vector3.ofJson).and <| required "action" textDecoder).map
        fun (position, action) => .pathWaypoint position action,
    .fields "CapturedValue" "Ray" <|
      ((required "origin" Vector3.ofJson).and <| required "direction" Vector3.ofJson).map
        fun (origin, direction) => .ray origin direction,
    .fields "CapturedValue" "Region3" <|
      ((required "position" Vector3.ofJson).and <| required "size" Vector3.ofJson).map
        fun (center, size) => .region center size,
    .value ["ColorSequence"] (listDecoder ColorKeypoint.ofJson) .colorSequence,
    .value ["NumberSequence"] (listDecoder NumberKeypoint.ofJson) .numberSequence,
    .value ["ColorSequenceKeypoint"] ColorKeypoint.ofJson .colorKeypoint,
    .value ["NumberSequenceKeypoint"] NumberKeypoint.ofJson .numberKeypoint,
    .fields "CapturedValue" "Other" <|
      ((required "type_name" textDecoder).and <| required "text" textDecoder).map
        fun (typeName, source) => .other typeName source]

/-- A value with fewer than `room` tables around any part of it. -/
def Value.decoder : (room : Nat) → Decoder Value
  | 0 => fun _ => .error .illFormed
  | room + 1 => choice (Value.variants (Value.decoder room))

/-- A value; each table in it is in an array of its own. -/
def Value.ofJson : Decoder Value := fun j => Value.decoder (j.depth + 1) j

/-- The pairs of a table. -/
def Value.pairsOfJson : Decoder (List (Value × Value)) :=
  listDecoder (pairDecoder Value.ofJson Value.ofJson)

/-! ## Calls -/

def RemoteKind.ofJson : Decoder RemoteKind :=
  choice
    ([RemoteKind.remoteEvent, .remoteFunction, .bindableEvent, .bindableFunction].map
      fun kind => .constant [kind.name] kind)

def Caller.ofJson : Decoder Caller :=
  choice [.constant ["Game"] .game, .constant ["Executor"] .executor]

def Call.ofJson : Decoder Call :=
  record "struct CapturedCall" <|
    ((optional "script" (nullable Instance.ofJson) none).and <|
      (optional "arguments" (listDecoder Value.ofJson) []).and <|
      (required "remote" Instance.ofJson).and <| (required "remote_kind" RemoteKind.ofJson).and <|
      (optional "return_value" (nullable Value.ofJson) none).and <|
      optional "caller" Caller.ofJson .game).map
        fun (script, arguments, remote, remoteKind, returnValue, caller) =>
          { script, arguments, remote, remoteKind, returnValue, caller }

/-! ## Settings and filters -/

def Settings.ofJson : Decoder Settings :=
  record "struct GenerationSettings" <|
    ((optional "use_instance_ids" booleanDecoder true).and <|
      (optional "use_remote_id" booleanDecoder true).and <|
      (optional "use_now_date_time" booleanDecoder true).and <|
      optional "sort_table_keys" booleanDecoder false).map
        fun (useInstanceIds, useRemoteId, useNowDateTime, sortTableKeys) =>
          { useInstanceIds, useRemoteId, useNowDateTime, sortTableKeys }

def Filter.ofJson : Decoder Filter :=
  record "struct RemoteFilter" <|
    ((optional "remote_event" booleanDecoder true).and <|
      (optional "remote_function" booleanDecoder true).and <|
      (optional "bindable_event" booleanDecoder false).and <|
      optional "bindable_function" booleanDecoder false).map
        fun (remoteEvent, remoteFunction, bindableEvent, bindableFunction) =>
          { remoteEvent, remoteFunction, bindableEvent, bindableFunction }

/-! ## Capture files -/

/-- The contents of a capture file. -/
structure Capture where
  settings : Settings := {}
  filter : Filter := {}
  calls : List Call

def Capture.ofJson : Decoder Capture :=
  record "struct CaptureFile" <|
    ((optional "settings" Settings.ofJson {}).and <| (optional "filter" Filter.ofJson {}).and <|
      required "calls" (listDecoder Call.ofJson)).map
        fun (settings, filter, calls) => { settings, filter, calls }

/-- How many arrays and objects there may be around any part of a text. -/
def deepestText : Nat := 127

/-- What a JSON text says as a value of a type. -/
def Json.decodeText {α : Type} (decode : Decoder α) (text : String) : Except Failure α :=
  match Json.ofText? deepestText text with
  | none => .error .illFormed
  | some j => decode j

end Reenact
