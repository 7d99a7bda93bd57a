import Bulletin.Json.Shape
import Bulletin.Publication.Basic
import Bulletin.Session.Config
import Bulletin.Summary

/-!
# JSON records

The JSON form of each kind of value that is stored or sent as JSON: how it is written (`toJson`) and
how it is read (`ofJson?`).

| kind | form |
|---|---|
| component | record of `tlv_type` and `value` |
| name | array of components |
| timestamp | number of microseconds |
| id | array of 32 numbers |
| publication | record of `name` and `payload` |
| summary | record of `ids` |
| window | record of `max_pub_lifetime_ms` and `max_clock_skew_ms` |
| session configuration | record of `policy`, `sync_data_pub_size` and `describe` |

The parts of a window and of a session configuration may be missing and then take their defaults.
Durations are written in whole milliseconds.
-/

namespace Bulletin

open Json

namespace Component

def toJson (c : Component) : Value :=
  .record [("tlv_type", .natural c.type.toNat), ("value", .bytes c.value)]

/-- The component that a JSON value stands for; type 0 is accepted here. -/
def ofJson? (v : Value) : Option Component := do
  match ← v.parts? ["tlv_type", "value"] with
  | [some type, some value] =>
    return ⟨UInt16.ofNat (← type.natBelow? UInt16.size), ← value.bytes?⟩
  | _ => none

end Component

namespace Name

def toJson (name : Name) : Value :=
  .array (name.components.map Component.toJson)

def ofJson? (v : Value) : Option Name := do
  return ⟨← (← v.items?).mapM Component.ofJson?⟩

end Name

namespace Timestamp

def toJson (t : Timestamp) : Value :=
  .natural t.toNat

def ofJson? (v : Value) : Option Timestamp := do
  return .ofNat (← v.natBelow? UInt64.size)

end Timestamp

namespace PublicationId

def toJson (id : PublicationId) : Value :=
  .bytes id.bytes

def ofJson? (v : Value) : Option PublicationId := do
  ofBytes? (← (← v.items?).mapM Value.byte?)

end PublicationId

namespace Publication

def toJson (p : Publication) : Value :=
  .record [("name", p.name.toJson), ("payload", .bytes p.payload)]

def ofJson? (v : Value) : Option Publication := do
  match ← v.parts? ["name", "payload"] with
  | [some name, some payload] => return ⟨← Name.ofJson? name, ← payload.bytes?⟩
  | _ => none

end Publication

namespace Summary

def toJson (s : Summary) : Value :=
  .record [("ids", .array (s.ids.map PublicationId.toJson))]

/-- The summary that a JSON value stands for; the ids may come in any order and more than once. -/
def ofJson? (v : Value) : Option Summary := do
  match ← v.parts? ["ids"] with
  | [some ids] => return .ofList (← (← ids.items?).mapM PublicationId.ofJson?)
  | _ => none

end Summary

namespace Duration

/-- The duration in whole milliseconds as a JSON value, at most the largest 64-bit number. -/
def toJson (d : Duration) : Value :=
  .natural (min d.millis (UInt64.size - 1))

/-- The duration of so many milliseconds as a JSON value says. -/
def ofJson? (v : Value) : Option Duration := do
  return .ofMillis (← v.natBelow? UInt64.size)

end Duration

namespace Window

def toJson (w : Window) : Value :=
  .record [("max_pub_lifetime_ms", w.lifetime.toJson), ("max_clock_skew_ms", w.skew.toJson)]

def ofJson? (v : Value) : Option Window := do
  match ← v.parts? ["max_pub_lifetime_ms", "max_clock_skew_ms"] with
  | [lifetime, skew] =>
    let standard : Window := {}
    return ⟨← partOr standard.lifetime Duration.ofJson? lifetime,
      ← partOr standard.skew Duration.ofJson? skew⟩
  | _ => none

end Window

namespace SessionConfig

def labelToJson : Option String → Value
  | some label => .text label
  | none => .null

/-- The label that a JSON value stands for; null is none. -/
def labelOfJson? : Value → Option (Option String)
  | .null => some none
  | v => v.text?.map some

def toJson (config : SessionConfig) : Value :=
  .record
    [("policy", config.window.toJson), ("sync_data_pub_size", .natural config.budget.toNat),
      ("describe", labelToJson config.label)]

def budgetOfJson? (v : Value) : Option UInt64 := do
  return UInt64.ofNat (← v.natBelow? UInt64.size)

/-- The configuration that a JSON value stands for, usable or not. -/
def ofJson? (v : Value) : Option SessionConfig := do
  match ← v.parts? ["policy", "sync_data_pub_size", "describe"] with
  | [window, budget, label] =>
    let standard : SessionConfig := {}
    return ⟨← partOr standard.window Window.ofJson? window,
      ← partOr standard.budget budgetOfJson? budget,
      ← partOr standard.label labelOfJson? label⟩
  | _ => none

/-- The configuration that a JSON text holds, if it can be read and is usable. -/
def ofText (text : String) : Except SessionError SessionConfig :=
  match (Value.parse? text.toList).bind ofJson? with
  | some config => config.validate
  | none => .error .unreadableConfig

end SessionConfig

end Bulletin
