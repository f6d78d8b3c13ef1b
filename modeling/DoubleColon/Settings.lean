import DoubleColon.JsonText

/-!
# Settings

The settings of a resolver and their form as JSON text: an object in which missing fields take
their defaults and further fields are passed over, or an array of the fields in order, which may
end early. A field may not be given twice.
-/

set_option autoImplicit false

namespace DoubleColon

structure Settings where
  /-- The token is polled at every so many declarations; zero stands for every declaration. -/
  checkpointInterval : UInt32 := 1
  cacheEnabled : Bool := true
  logDegenerateInference : Bool := true
  deriving DecidableEq, Repr

inductive SettingsField where
  | checkpointInterval
  | cacheEnabled
  | logDegenerateInference
  deriving DecidableEq, Repr

namespace SettingsField

def all : List SettingsField := [checkpointInterval, cacheEnabled, logDegenerateInference]

def name : SettingsField → String
  | checkpointInterval => "cancellation_checkpoint_interval"
  | cacheEnabled => "cache_enabled"
  | logDegenerateInference => "log_degenerate_inference"

def ofName? (name : String) : Option SettingsField := all.find? fun f => f.name = name

theorem ofName?_name (f : SettingsField) : ofName? f.name = some f := by
  cases f <;> decide

end SettingsField

namespace Settings

def interval? (v : JsonText) : Option UInt32 :=
  v.nat?.bind fun n => if n < UInt32.size then some n.toUInt32 else none

def set? (s : Settings) (v : JsonText) : SettingsField → Option Settings
  | .checkpointInterval => (interval? v).map fun n => { s with checkpointInterval := n }
  | .cacheEnabled => v.bool?.map fun b => { s with cacheEnabled := b }
  | .logDegenerateInference => v.bool?.map fun b => { s with logDegenerateInference := b }

def ofElements (s : Settings) : List SettingsField → List JsonText → Option Settings
  | _, [] => some s
  | [], _ :: _ => none
  | f :: fs, v :: vs => (s.set? v f).bind fun s => s.ofElements fs vs

def ofFields (s : Settings) (given : List SettingsField) :
    List (Option String × JsonText) → Option Settings
  | [] => some s
  | (none, _) :: _ => none
  | (some name, v) :: rest => match SettingsField.ofName? name with
    | none => s.ofFields given rest
    | some f =>
        if given.contains f then none
        else (s.set? v f).bind fun s => s.ofFields (f :: given) rest

def ofJson? : JsonText → Option Settings
  | .array vs => ofElements {} SettingsField.all vs
  | .object fields => ofFields {} [] fields
  | _ => none

def read? (text : String) : Option Settings := (JsonText.read? text).bind ofJson?

end Settings

end DoubleColon
