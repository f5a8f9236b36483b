/-
Fjarr.Desktop.Messages — the messages half of
`capabilities/desktop_capability.cpp`: `on_message`, `on_blob_chunk`,
`release_all_input` and `session_detached`, over the screens half.

A message's payload is a JSON object. A field is read with a default, and
reading one that has another type throws; what the handler did before is
done, and the core answers a request with an error (`threw`). A request
and the bytes of its clipboard meet in `incoming`, by blob id.

`Impl` also records, in order, what the driver was called for, what was
answered, and which messages and chunks came. The driver has a clipboard
and virtual monitors, as the mutter backend does; its clipboard answers a
write later (`written`), if at all, and what it answers to `type_text` is
part of the message here. Left out are the cursor, the offer events, the
answer to a `clipboard-read`, the table behind `evdev_for_code` (a
parameter) and the log.
-/
import Fjarr.Blob.Codec
import Fjarr.Desktop.Capability

namespace Fjarr.Desktop

open Lib Blob

/-- `steady_clock::time_point`, in nanoseconds. -/
abbrev Time := Int

/-! ## Messages -/

/-- A field of the payload. -/
inductive Field (α : Type) where
  | absent
  /-- It has another JSON type than the one it is read as. -/
  | mistyped
  | is (v : α)
  deriving DecidableEq, Repr

/-- `value(key, default)`, and what is done with it; `threw` when reading
the field throws. -/
def Field.elim {α β : Type} (f : Field α) (default : α) (threw : β) (next : α → β) : β :=
  match f with
  | .absent => next default
  | .mistyped => threw
  | .is v => next v

theorem Field.elim_induction {α β : Type} {P : β → Prop} {f : Field α} {default : α} {threw : β}
    {next : α → β} (hthrew : P threw) (hnext : ∀ v, P (next v)) :
    P (f.elim default threw next) := by
  cases f with
  | absent => exact hnext default
  | mistyped => exact hthrew
  | is v => exact hnext v

/-- `BlobRef`, of which the type is not read. -/
structure BlobRef where
  id : String
  len : UInt64
  deriving DecidableEq, Repr

/-- The fields `on_message` reads. Of `codes` an element is `none` when it
is no string; `blob` is what `BlobRef::from_json` makes of that field, and
`monitor` is the field `id`. -/
structure Payload where
  seq : Field UInt64 := .absent
  x : Field ℚ := .absent
  y : Field ℚ := .absent
  trackId : Field String := .absent
  button : Field String := .absent
  down : Field Bool := .absent
  dx : Field ℚ := .absent
  dy : Field ℚ := .absent
  code : Field String := .absent
  codes : List (Option String) := []
  type : Field String := .absent
  offerId : Field String := .absent
  blob : Option BlobRef := none
  width : Field Int := .absent
  height : Field Int := .absent
  monitor : Field String := .absent
  text : Field String := .absent
  deriving DecidableEq

/-- What the driver answers to `type_text`. -/
structure Typed where
  error : String := ""
  untypable : List String := []
  deriving DecidableEq, Repr

/-- `Envelope`, for this capability. -/
structure Msg where
  type : String
  request : Bool := true
  id : Nat
  payload : Payload := {}
  typed : Typed := {}
  deriving DecidableEq

def Msg.call (msg : Msg) : Call := ⟨msg.request, msg.id⟩

inductive AnswerData where
  | none
  | tooLarge (limit : Nat)
  | untypable (characters : List String)
  deriving DecidableEq, Repr

inductive Answer where
  | ok
  | error (code message : String) (data : AnswerData := .none)
  /-- The core's answer when the handler threw. -/
  | threw
  deriving DecidableEq, Repr

/-! ## The driver -/

inductive MouseButton where
  | left | middle | right | back | forward
  deriving DecidableEq, Repr

/-- What the driver is called for. -/
inductive DriverCall where
  | pointerMotion (monitor : MonitorId) (x y : ℚ)
  | pointerButton (button : MouseButton) (down : Bool)
  | pointerWheel (dx dy : ℚ)
  | key (code : Nat) (down : Bool)
  | typeText (text : String)
  /-- With the session and the request its callback answers. -/
  | clipboardWrite (type : String) (bytes : Bytes) (session : SessionId) (request : Msg)
  | releaseAllInput
  deriving DecidableEq

/-- `clipboard::max_bytes`. -/
def maxBytes (type : String) : Nat :=
  if type = "text/plain" then 1024 * 1024 else if type = "image/png" then 8 * 1024 * 1024 else 0

/-- `clipboard::MAX_BYTES`. -/
def maxClipboardBytes : Nat := 8 * 1024 * 1024

/-! ## State -/

/-- `Impl::Incoming`. -/
structure Incoming where
  session : SessionId
  request : Option Msg := none
  type : String := ""
  len : UInt64 := 0
  bytes : Bytes := []
  complete : Bool := false
  first : Time
  deriving DecidableEq

/-- How long one half of a write waits for the other. -/
def incomingTtl : Time := 10 * 1000000000

def Incoming.waits (i : Incoming) (now : Time) : Bool := now - i.first < incomingTtl

/-- `DesktopCapability::Impl`; `world` is its screens half. -/
structure Impl where
  world : World := {}
  inputSession : Option SessionId := none
  pointerSeq : Std.ExtTreeMap SessionId UInt64 := {}
  incoming : Std.ExtTreeMap String Incoming := {}
  offerId : String := ""
  offerTypes : List String := []
  /-- The writes the driver's clipboard has not answered. -/
  writing : List (SessionId × Msg) := []
  calls : List DriverCall := []
  replies : List (SessionId × Msg × Answer) := []
  messages : List (SessionId × Msg) := []
  chunks : List (SessionId × BlobChunk) := []

namespace Impl

variable (d : Impl) (id : SessionId)

def call (c : DriverCall) : Impl := { d with calls := d.calls ++ [c] }

/-- `ctx.result`, `ctx.fail`. -/
def reply (msg : Msg) (a : Answer) : Impl :=
  { d with replies := d.replies ++ [(id, msg, a)] }

/-- `if (request) ctx.result(msg, {ok})`. -/
def accept (msg : Msg) : Impl :=
  if msg.request then d.reply id msg .ok else d

def refuse (msg : Msg) (code why : String) : Impl :=
  if msg.request then d.reply id msg (.error code why) else d

/-- The core caught what the handler threw. -/
def threw (d : Impl) (id : SessionId) (msg : Msg) : Impl :=
  if msg.request then d.reply id msg .threw else d

/-! ## The clipboard -/

/-- `try_write`. -/
def tryWrite (blobId : String) : Impl :=
  match d.incoming[blobId]? with
  | none => d
  | some i =>
    match i.request with
    | none => d
    | some request =>
      if !i.complete then d
      else
        let d := { d with incoming := d.incoming.erase blobId }
        if i.session ∈ d.world.sessions then
          { d.call (.clipboardWrite i.type i.bytes i.session request) with
            writing := d.writing ++ [(i.session, request)] }
        else d

/-- The driver's clipboard answers a write. -/
def written (request : Msg) (ok : Bool) (error : String) : Impl :=
  let d := { d with
    writing := d.writing.erase (id, request)
    -- the last offer no longer describes the robot's clipboard
    offerId := if ok then "" else d.offerId
    offerTypes := if ok then [] else d.offerTypes }
  if id ∈ d.world.sessions then
    d.reply id request
      (if ok then .ok else .error "unavailable" ("the robot's clipboard was not set: " ++ error))
  else d

/-- The answers of `expire_incoming`. -/
def expiredReplies (now : Time) : List (SessionId × Msg × Answer) :=
  (d.incoming.toList.filter fun e => !e.2.waits now).filterMap fun e =>
    if e.2.session ∈ d.world.sessions then
      e.2.request.map fun request =>
        (e.2.session, request,
          .error "payload-invalid" "the clipboard's bytes did not all arrive")
    else none

/-- `expire_incoming`: writes whose other half never came. -/
def expireIncoming (now : Time) : Impl :=
  { d with
    incoming := d.incoming.filter fun _ i => i.waits now
    replies := d.replies ++ d.expiredReplies now }

/-- `incoming[blob_id]`. -/
def entry (blobId : String) (now : Time) : Incoming :=
  (d.incoming[blobId]?).getD { session := id, first := now }

def setIncoming (blobId : String) (i : Incoming) : Impl :=
  { d with incoming := d.incoming.insert blobId i }

/-- The end of `clipboard-write`, where the request meets its bytes. -/
def requestWrite (msg : Msg) (type : String) (ref : BlobRef)
    (now : Time) : Impl :=
  let i := d.entry id ref.id now
  if i.session ≠ id then d.refuse id msg "payload-invalid" "that blob belongs to another session"
  else
    (d.setIncoming ref.id { i with
      request := some msg
      type
      len := ref.len
      -- an empty clipboard: no frames will come
      complete := i.complete || ref.len = 0 }).tryWrite ref.id

/-- `clipboard-write`. -/
def clipboardWrite (msg : Msg) (now : Time) : Impl :=
  msg.payload.type.elim "" (d.threw id msg) fun type =>
    if maxBytes type = 0 then
      d.refuse id msg "payload-invalid" "the clipboard takes text/plain or image/png"
    else
      match msg.payload.blob with
      | none => d.refuse id msg "payload-invalid" "clipboard-write needs a blob reference"
      | some ref =>
        -- answered even when it is no request
        if ref.len.toNat > maxBytes type then
          d.reply id msg (.error "unavailable"
            ("larger than the clipboard's " ++ toString (maxBytes type) ++ " bytes")
            (.tooLarge (maxBytes type)))
        else (d.expireIncoming now).requestWrite id msg type ref now

/-- The end of `on_blob_chunk`, where the bytes meet their request. -/
def addChunk (chunk : BlobChunk) (now : Time) : Impl :=
  let i := d.entry id chunk.blobId now
  if i.session ≠ id then d
  else
    let bytes := (if chunk.offset = 0 then [] else i.bytes) ++ chunk.payload
    if bytes.length ≥ chunk.blobLen.toNat then
      (d.setIncoming chunk.blobId { i with bytes, complete := true }).tryWrite chunk.blobId
    else d.setIncoming chunk.blobId { i with bytes }

/-- `on_blob_chunk`. -/
def onBlobChunk (chunk : BlobChunk) (now : Time) : Impl :=
  let d := { d with chunks := d.chunks ++ [(id, chunk)] }
  if chunk.blobLen.toNat > maxClipboardBytes then d
  else (d.expireIncoming now).addChunk id chunk now

/-- `clipboard-read`, up to the driver's answer. -/
def clipboardRead (viewOnly : Bool) (msg : Msg) : Impl :=
  if viewOnly then
    d.refuse id msg "capability-denied" "a view-only session sees no clipboard"
  else
    msg.payload.type.elim "" (d.threw id msg) fun type =>
      msg.payload.offerId.elim "" (d.threw id msg) fun offerId =>
        if offerId ≠ d.offerId ∨ d.offerId = "" then
          d.refuse id msg "payload-invalid" "the robot's clipboard changed since that offer"
        else if type ∉ d.offerTypes then
          d.refuse id msg "payload-invalid" ("the offer has no '" ++ type ++ "'")
        else d

/-- `on_clipboard_changed`, with the id drawn for the offer. -/
def onClipboardChanged (offerId : String) (types : List String) : Impl :=
  { d with offerId, offerTypes := types }

/-! ## Input -/

/-- `monitor_for`: the monitor a track shows. -/
def monitorFor (track : String) : Option MonitorId :=
  (d.world.backend.monitors.find? fun m => "desk-" ++ m.wireId = track).map Monitor.id

def lastSeq : UInt64 := (d.pointerSeq[id]?).getD 0

def setSeq (seq : UInt64) : Impl :=
  { d with pointerSeq := d.pointerSeq.insert id seq }

/-- The motion to a place on a track, if there is one. -/
def moveTo (track : String) (x y : ℚ) : Impl :=
  match d.monitorFor track with
  | none => d
  | some m => if x < 0 ∨ x > 1 ∨ y < 0 ∨ y > 1 then d else d.call (.pointerMotion m x y)

/-- `pointer`. -/
def pointer (msg : Msg) : Impl :=
  msg.payload.seq.elim 0 (d.threw id msg) fun seq =>
    -- stale: realtime is unordered
    if seq ≠ 0 ∧ seq ≤ d.lastSeq id then d
    else
      let d := d.setSeq id seq
      msg.payload.x.elim (-1) (d.threw id msg) fun x =>
        msg.payload.y.elim (-1) (d.threw id msg) fun y =>
          msg.payload.trackId.elim "" (d.threw id msg) fun track => d.moveTo track x y

/-- The names of the buttons. -/
def mouseButton : String → Option MouseButton
  | "left" => some .left
  | "middle" => some .middle
  | "right" => some .right
  | "back" => some .back
  | "forward" => some .forward
  | _ => none

/-- `button`: a press carries where it lands, since its motion may arrive
after it. -/
def button (d : Impl) (id : SessionId) (msg : Msg) : Impl :=
  msg.payload.button.elim "" (d.threw id msg) fun name =>
    match mouseButton name with
    | none =>
      d.refuse id msg "payload-invalid" "button is left, middle, right, back or forward"
    | some b =>
      msg.payload.down.elim false (d.threw id msg) fun down =>
        if down ∧ msg.payload.x ≠ .absent then
          msg.payload.x.elim (-1) (d.threw id msg) fun x =>
            msg.payload.y.elim (-1) (d.threw id msg) fun y =>
              msg.payload.trackId.elim "" (d.threw id msg) fun track =>
                let d := d.moveTo track x y
                msg.payload.seq.elim 0 (d.threw id msg) fun seq =>
                  (d.setSeq id (max (d.lastSeq id) seq)).call (.pointerButton b down)
        else d.call (.pointerButton b down)

/-- `wheel`. -/
def wheel (msg : Msg) : Impl :=
  msg.payload.dx.elim 0 (d.threw id msg) fun dx =>
    msg.payload.dy.elim 0 (d.threw id msg) fun dy => d.call (.pointerWheel dx dy)

/-- `key`. -/
def key (evdevForCode : String → Option Nat) (d : Impl) (id : SessionId) (msg : Msg) : Impl :=
  msg.payload.code.elim "" (d.threw id msg) fun code =>
    match evdevForCode code with
    | none => d.refuse id msg "payload-invalid" "unknown key code"
    | some k => msg.payload.down.elim false (d.threw id msg) fun down => d.call (.key k down)

/-- `key-combo`: pressed in order, let go in reverse. -/
def keyCombo (evdevForCode : String → Option Nat) (d : Impl) (id : SessionId) (msg : Msg) :
    Impl :=
  match msg.payload.codes.mapM fun code => code.bind evdevForCode with
  | none => d.refuse id msg "payload-invalid" "unknown key code in the combo"
  | some keys =>
    { d with
      calls := d.calls ++
        (keys.map (DriverCall.key · true) ++ keys.reverse.map (DriverCall.key · false)) }.accept
      id msg

/-- `text`: typed through the robot's keymap, whole or not at all. -/
def text (d : Impl) (id : SessionId) (msg : Msg) : Impl :=
  msg.payload.text.elim "" (d.threw id msg) fun text =>
    let d := d.call (.typeText text)
    if msg.typed.error ≠ "" then d.refuse id msg "unavailable" msg.typed.error
    else if msg.typed.untypable ≠ [] then
      if msg.request then
        d.reply id msg (.error "unavailable"
          "the robot's keyboard layout cannot type these characters"
          (.untypable msg.typed.untypable))
      else d
    else d.accept id msg

/-- `add-monitor`. -/
def addMonitor (d : Impl) (id : SessionId) (msg : Msg) : Impl :=
  msg.payload.width.elim 0 (d.threw id msg) fun width =>
    msg.payload.height.elim 0 (d.threw id msg) fun height =>
      { d with world := d.world.addMonitor id msg.call width height }

/-- `remove-monitor`. -/
def removeMonitor (d : Impl) (id : SessionId) (msg : Msg) : Impl :=
  msg.payload.monitor.elim "" (d.threw id msg) fun wire =>
    { d with world := d.world.removeMonitor id msg.call wire }

/-- The last part of `on_message`, by type. -/
def onInput (evdevForCode : String → Option Nat) (d : Impl) (id : SessionId) (msg : Msg)
    (now : Time) : Impl :=
  match msg.type with
  | "pointer" => d.pointer id msg
  | "button" => d.button id msg
  | "wheel" => d.wheel id msg
  | "key" => d.key evdevForCode id msg
  | "key-combo" => d.keyCombo evdevForCode id msg
  | "clipboard-write" => d.clipboardWrite id msg now
  | "add-monitor" => d.addMonitor id msg
  | "remove-monitor" => d.removeMonitor id msg
  | "text" => d.text id msg
  | type => d.refuse id msg "payload-invalid" ("fjarr.desktop has no message '" ++ type ++ "'")

/-- `DesktopCapability::release_all_input`: another session's held keys
are not this one's to release. -/
def releaseAllInput (d : Impl) (id : SessionId) : Impl :=
  if d.inputSession.any (· ≠ id) then d
  else { d.call .releaseAllInput with inputSession := none }

/-- The input bookkeeping of `on_message`, done before its type is looked
at: control moved without an end. -/
def takeInput : Impl :=
  { (if d.inputSession.any (· ≠ id) then d.call .releaseAllInput else d) with
    inputSession := some id }

/-- `DesktopCapability::on_message`. -/
def onMessage (evdevForCode : String → Option Nat) (d : Impl) (id : SessionId)
    (viewOnly : Bool) (msg : Msg) (now : Time) : Impl :=
  let d := { d with messages := d.messages ++ [(id, msg)] }
  if msg.type = "resume-sharing" then { d with world := d.world.resumeSharing id msg.call }
  else if msg.type = "clipboard-read" then d.clipboardRead id viewOnly msg
  else if msg.type = "release-all" then (d.releaseAllInput id).accept id msg
  else (d.takeInput id).onInput evdevForCode id msg now

/-! ## Sessions -/

/-- `session_attached`. -/
def sessionAttached (d : Impl) (id : SessionId) : Impl :=
  { d with world := d.world.sessionAttached id }

/-- `session_detached`. -/
def sessionDetached (d : Impl) (id : SessionId) : Impl :=
  { d with
    world := d.world.sessionDetached id
    pointerSeq := d.pointerSeq.erase id
    incoming := d.incoming.filter fun _ i => i.session ≠ id
    inputSession := if d.inputSession = some id then none else d.inputSession }

end Impl

end Fjarr.Desktop
