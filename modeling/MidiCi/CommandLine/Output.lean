import MidiCi.CommandLine.Invocation
import MidiCi.Controller.Basic
import MidiCi.Devices
import MidiCi.Json.Yaml
import MidiCi.Text.Table
import MidiCi.Wire.Connection

/-
  How results are shown. Tables and details are for people; JSON and YAML give the whole record;
  plain output is one line a record.
-/

namespace MidiCi.CommandLine

/-! ## Colors -/

/-- Text between the codes that set and reset a style. -/
def styled (set reset : Nat) (s : String) : String :=
  s!"\x1b[{set}m" ++ s ++ s!"\x1b[{reset}m"

def cyan : String → String := styled 36 39
def magenta : String → String := styled 35 39
def green : String → String := styled 32 39
def dimmed : String → String := styled 2 0
def bold : String → String := styled 1 0

/-- Whether output has colors; `interactive` if it goes to a terminal. -/
def ColorMode.colored (interactive : Bool) : ColorMode → Bool
  | .always => true
  | .never => false
  | .auto => interactive

/-- The mark of a direction. -/
def directionLabel (color : Bool) : Direction → String
  | .incoming => if color then cyan "IN" else "IN"
  | .outgoing => if color then magenta "OUT" else "OUT"

/-- Whether a profile is enabled, in a word. -/
def enabledText (enabled : Bool) : String := if enabled then "enabled" else "disabled"

def enabledLabel (color enabled : Bool) : String :=
  if ! color then enabledText enabled
  else if enabled then green "enabled" else dimmed "disabled"

/-! ## Records -/

/-- How records of one kind are shown. -/
structure View (α : Type) where
  header : List String := []
  row : α → List String := fun _ => []
  detail : α → List String := fun _ => []
  json : α → Json
  plain : α → String

namespace View

variable {α : Type}

/-- A list of records. -/
def renderAll (v : View α) (format : OutputFormat) (xs : List α) : String :=
  match format with
  | .table => ({ header := v.header, rows := xs.map v.row } : Text.Table).render
  | .json => String.ofList (Json.arr (xs.map v.json)).pretty
  | .jsonCompact => String.ofList (Json.arr (xs.map v.json)).compact
  | .yaml => String.ofList (Json.arr (xs.map v.json)).yaml
  | .plain => "\n".intercalate (xs.map v.plain)

/-- One record. -/
def renderOne (v : View α) (format : OutputFormat) (x : α) : String :=
  match format with
  | .table => "\n".intercalate (v.detail x)
  | .json => String.ofList (v.json x).pretty
  | .jsonCompact => String.ofList (v.json x).compact
  | .yaml => String.ofList (v.json x).yaml
  | .plain => v.plain x

end View

/-- A line of output, unless there is nothing to show. -/
def printed (quiet : Bool) (s : String) : String :=
  if quiet || s.isEmpty then "" else s ++ "\n"

/-! ## Connections -/

/-- The details of a connection. -/
def connectionDetail (c : ConnectionSnapshot) : List String :=
  let info := c.connection.deviceInfo
  [s!"MUID:         {c.target.text}",
   s!"Product:      {c.connection.productInstanceId}",
   s!"Manufacturer: {info.manufacturer.label}",
   s!"Family:       {info.family.label}",
   s!"Model:        {info.model.label}",
   s!"Version:      {info.version.label}",
   "Serial:       " ++ info.serialNumber.getD "-",
   s!"Max requests: {c.connection.maxRequests}",
   s!"Profiles:     {c.profiles.length}"] ++
  c.profiles.map (fun p =>
    s!"  [{p.profileId.text}] group {p.group.text} / {p.address.text} ({enabledText p.enabled})") ++
  s!"Properties:   {c.properties.length}" ::
  c.properties.map (fun p =>
    let state := (c.subscription? p.id).map fun s => s.state.text
    s!"  {p.id} [{p.mediaType}] " ++ state.getD "unsubscribed")

def connectionView : View ConnectionSnapshot where
  header := ["MUID", "Product", "Manufacturer", "Model", "Version", "Profiles", "Properties"]
  row c :=
    let info := c.connection.deviceInfo
    [c.target.text, c.connection.productInstanceId, info.manufacturer.label, info.model.label,
     info.version.label, toString c.profiles.length, toString c.properties.length]
  detail := connectionDetail
  json := ConnectionSnapshot.toJson
  plain c := c.target.text

/-! ## Profiles -/

def profileView (color : Bool) : View (Scoped Profile) where
  header := ["MUID", "Profile", "Group", "Address", "State", "Channels"]
  row p :=
    [p.target.text, p.item.profileId.text, p.item.group.text, p.item.address.text,
     enabledLabel color p.item.enabled, toString p.item.channels]
  detail p :=
    [s!"MUID:     {p.target.text}",
     s!"Profile:  {p.item.profileId.text}",
     s!"Group:    {p.item.group.text}",
     s!"Address:  {p.item.address.text}",
     s!"State:    {enabledText p.item.enabled}",
     s!"Channels: {p.item.channels}"]
  json := Scoped.toJson Profile.members
  plain p := p.target.text ++ " " ++ p.item.profileId.text

/-! ## Properties and subscriptions -/

/-- The value of a property, and whether it is subscribed to. -/
structure PropertyRecord where
  target : Muid
  value : PropertyValue
  state : SubscriptionState

/-- The body as text, or how long it is. -/
def bodyText (v : PropertyValue) : String :=
  v.bodyText.getD s!"<{v.body.length} bytes>"

def propertyView : View PropertyRecord where
  header := ["MUID", "Property", "Media Type", "Subscription", "Body"]
  row p := [p.target.text, p.value.id, p.value.mediaType, p.state.text, bodyText p.value]
  json p := .obj
    [("target", p.target.toJson), ("id", .str p.value.id), ("mediaType", .str p.value.mediaType),
     ("subscription", p.state.toJson), ("body", .str (bodyText p.value))]
  plain p := p.target.text ++ " " ++ p.value.id

/-- A subscription of some connection. -/
structure SubscriptionRecord where
  target : Muid
  propertyId : String
  state : SubscriptionState

def subscriptionView : View SubscriptionRecord where
  detail s :=
    [s!"MUID:     {s.target.text}", s!"Property: {s.propertyId}", s!"State:    {s.state.text}"]
  json s := .obj
    [("target", s.target.toJson), ("propertyId", .str s.propertyId), ("state", s.state.toJson)]
  plain s := s.state.text

/-! ## Log entries -/

def logView (color : Bool) : View LogEntry where
  header := ["Time", "Dir", "Message"]
  row e := [e.timestamp.instant.timeText, directionLabel color e.direction, e.message]
  json := LogEntry.toJson
  plain e := e.direction.text ++ " " ++ e.message

/-! ## Endpoints -/

def endpointView : View EndpointRecord where
  header := ["Direction", "ID", "Name", "Selected"]
  row e := [e.direction, e.device.id, e.device.name, if e.selected then "*" else ""]
  json e := .obj
    [("direction", .str e.direction), ("id", .str e.device.id), ("name", .str e.device.name),
     ("selected", .bool e.selected)]
  plain e := e.device.id

/-! ## Notifications -/

/-- What a notification is about, in a line. -/
def notificationDetail : Notification → String
  | .connections all => s!"{all.length} connection(s)"
  | .profiles all =>
    let enabled := (all.filter fun p => p.item.enabled).length
    s!"{all.length} profile(s), {enabled} enabled"
  | .properties all => s!"{all.length} property value(s)"
  | .localProperties all => s!"{all.length} local property(ies)"
  | .log e => e.direction.text ++ " " ++ e.message
  | .logsCleared => ""
  | .diagnostic d => d.kind.text ++ ": " ++ d.message

/-- A notification on a line of its own. -/
def notificationLine (format : OutputFormat) (color : Bool) (n : Notification) : String :=
  let detail := notificationDetail n
  let record := Json.obj [("kind", .str n.kind), ("detail", .str detail)]
  match format with
  | .json | .jsonCompact => String.ofList record.compact
  | .yaml => "---\n" ++ String.ofList (Text.trimRight record.yaml)
  | .table | .plain =>
    let kind := String.ofList (Text.padRight 16 ' ' n.kind.toList)
    (if color then bold kind else kind) ++ " " ++ detail

end MidiCi.CommandLine
