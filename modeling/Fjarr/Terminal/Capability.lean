/-
Fjarr.Terminal.Capability — `capabilities/terminal_capability.cpp`: one
pty per session, the shell behind it, and the queue its output waits in.

Everything runs on the core loop, one callback at a time. The kernel is
part of the world: every child is running, a zombie or reaped, every pty
master is open or closed, and `forkpty` hands out a pid and a descriptor
it never handed out before. What the kernel and the data channel decide
comes with the action:

* `dies k` is the status the shell exits with just before the `k`-th
  `waitpid` of a takedown, if it does; other children exit by an action of
  their own (`childExits`);
* `accepts k` says whether the `k`-th `send_binary` of a pump is taken.

`log` records, in order, every system call with an effect and every
message to a session, together with what the shell wrote. A session is
attached from `session_attached` to `session_detached`: the core marks a
session closing before it detaches it and routes nothing to it from then
on, so messages and drain callbacks reach attached sessions only.

Payloads whose fields have the wrong JSON type are left out (the router
answers those), and so are the log lines.
-/
import Fjarr.Lib.Transition
import Fjarr.Lib.Bytes

namespace Fjarr.Terminal

open Lib

/-! ## The kernel -/

abbrev Pid := Nat
abbrev Fd := Nat

/-- What `waitpid` reports of a child that ended. -/
inductive Status where
  | exited (code : Nat)
  | signaled (name : String)
  deriving DecidableEq, Repr

/-- A child of the agent. -/
inductive Child where
  | unborn
  | running
  | zombie (status : Status)
  | reaped
  deriving DecidableEq, Repr

/-- The master side of a pty. -/
inductive Descriptor where
  | unused | opened | closed
  deriving DecidableEq, Repr

inductive Signal where
  | hup | kill
  deriving DecidableEq, Repr

/-- What a `waitpid` call returns: zero, the pid with a status, an error. -/
inductive Waited where
  | zero
  | pid (status : Status)
  | error
  deriving DecidableEq, Repr

/-! ## The capability's state -/

def readChunk : Nat := 32 * 1024

def maxPending : Nat := 4 * 1024 * 1024

/-- `Pty`; `pid` is `none` for -1. -/
structure Pty where
  pid : Option Pid
  fd : Fd
  pending : List Bytes := []
  pendingBytes : Nat := 0
  drainArmed : Bool := false
  deriving DecidableEq, Repr

/-- How an `exit` event says the shell ended. -/
inductive ExitPayload where
  | code (code : Nat)
  | signal (name : String)
  deriving DecidableEq, Repr

/-- `WIFEXITED`, `WIFSIGNALED` and `strsignal`. -/
def Status.payload : Status → ExitPayload
  | .exited code => .code code
  | .signaled name => .signal name

inductive Reply where
  | ok
  | error (code message : String)
  deriving DecidableEq, Repr

inductive Event where
  | fork (id : String) (pid : Pid) (fd : Fd)
  | signal (pid : Pid) (s : Signal)
  | reaped (pid : Pid)
  | closed (fd : Fd)
  /-- `read` on the master returned these bytes. -/
  | read (fd : Fd) (bytes : Bytes)
  /-- `send_binary` took this message. -/
  | sent (fd : Fd) (bytes : Bytes)
  | written (fd : Fd) (bytes : Bytes)
  | winsize (fd : Fd) (cols rows : UInt16)
  | exit (id : String) (payload : ExitPayload)
  | reply (id : String) (r : Reply)
  deriving DecidableEq, Repr

/-- `fjarr.terminal`'s settings, and what the account database says. -/
structure Config where
  enabled : Bool
  user : String
  shell : String
  currentUser : String
  loginShellOf : String → String

structure World where
  attached : Std.ExtTreeSet String := {}
  ptys : Std.ExtTreeMap String Pty := {}
  /-- Sessions whose bulk sender holds our drain callback. -/
  drains : Std.ExtTreeSet String := {}
  children : Pid → Child := fun _ => .unborn
  fds : Fd → Descriptor := fun _ => .unused
  log : List Event := []

namespace World

variable (w : World) (id : String)

def emit (e : Event) : World := { w with log := w.log ++ [e] }

/-! ## System calls -/

/-- The child ends, if it still runs and the kernel says so. -/
def exits (pid : Pid) : Option Status → World
  | none => w
  | some status =>
    if w.children pid = .running then
      { w with children := Function.update w.children pid (.zombie status) }
    else w

/-- `waitpid(pid, &status, WNOHANG)`. -/
def waitpid (pid : Pid) : World × Waited :=
  match w.children pid with
  | .running => (w, .zero)
  | .zombie status =>
    ({ w with children := Function.update w.children pid .reaped }.emit (.reaped pid), .pid status)
  | _ => (w, .error)

/-- `kill`: `SIGKILL` ends a running child. -/
def kill (w : World) (pid : Pid) (s : Signal) : World :=
  let w := w.emit (.signal pid s)
  if s = .kill then w.exits pid (some (.signaled "Killed")) else w

/-- The grace period of `close_pty`: at most `n` more polls. -/
def pollExit (w : World) (pid : Pid) (dies : Nat → Option Status) : Nat → World
  | 0 => w
  | n + 1 =>
    match (w.exits pid (dies n)).waitpid pid with
    | (w1, .zero) => w1.pollExit pid dies n
    | (w1, _) => w1

/-- `close_pty`'s half that ends the shell: it does not return until the
child is reaped. -/
def hangUp (pid : Pid) (dies : Nat → Option Status) : World :=
  let w := (w.kill pid .hup).pollExit pid dies 20
  match (w.exits pid (dies 20)).waitpid pid with
  | (w1, .zero) => ((w1.kill pid .kill).waitpid pid).1
  | (w1, _) => w1

/-- `close(fd)`. -/
def closeFd (fd : Fd) : World :=
  { w with fds := Function.update w.fds fd .closed }.emit (.closed fd)

/-! ## Output -/

/-- The loop of `pump`: what the channel takes, and what is left. -/
def pumpLoop (accepts : Nat → Bool) : Nat → List Bytes → List Bytes × List Bytes
  | _, [] => ([], [])
  | k, front :: rest =>
    if accepts k then
      let (taken, left) := pumpLoop accepts (k + 1) rest
      (front :: taken, left)
    else ([], front :: rest)

/-- `pump` on a pty of the map. -/
def pump (p : Pty) (accepts : Nat → Bool) : World :=
  let (taken, left) := pumpLoop accepts 0 p.pending
  { w with
    ptys := w.ptys.insert id { p with
      pending := left
      pendingBytes := p.pendingBytes - (taken.map List.length).sum
      drainArmed := p.drainArmed || !left.isEmpty }
    drains := if left.isEmpty || p.drainArmed then w.drains else w.drains.insert id
    log := w.log ++ taken.map (.sent p.fd) }

/-- The drain callback `pump` registered. -/
def drain (accepts : Nat → Bool) : World :=
  match w.ptys[id]? with
  | none => w
  | some p => w.pump id { p with drainArmed := false } accepts

/-! ## Taking a pty down -/

/-- `close_pty`. -/
def closePty (notify : Bool) (dies : Nat → Option Status) : World :=
  match w.ptys[id]? with
  | none => w
  | some p =>
    let w := { w with ptys := w.ptys.erase id }
    let w := match p.pid with
      | none => w
      | some pid => w.hangUp pid dies
    let w := w.closeFd p.fd
    if notify && w.attached.contains id then w.emit (.exit id (.code 0)) else w

/-- End of file on the master: reap, say how the shell ended, take the
pty down. -/
def shellEnded (p : Pty) (dies : Nat → Option Status) : World :=
  match p.pid with
  | none => (w.emit (.exit id (.code 0))).closePty id false dies
  | some pid =>
    match (w.exits pid (dies 21)).waitpid pid with
    | (w1, .pid status) =>
      ({ w1 with ptys := w1.ptys.insert id { p with pid := none } }.emit
        (.exit id status.payload)).closePty id false dies
    | (w1, _) => (w1.emit (.exit id (.code 0))).closePty id false dies

/-- What `read` on the master returned: data, `EINTR` or `EAGAIN`, or the
end (end of file, `EIO`). -/
inductive Read where
  | data (bytes : Bytes)
  | again
  | ended
  deriving DecidableEq, Repr

/-- The readable callback. -/
def readable (r : Read) (accepts : Nat → Bool)
    (dies : Nat → Option Status) : World :=
  match w.ptys[id]? with
  | none => w
  | some p =>
    match r with
    | .data bytes =>
      let w := w.emit (.read p.fd bytes)
      -- a peer that stopped reading must not grow the robot's memory without bound
      if p.pendingBytes + bytes.length > maxPending then w.closePty id true dies
      else
        w.pump id { p with
          pending := p.pending ++ [bytes]
          pendingBytes := p.pendingBytes + bytes.length } accepts
    | .again => w
    | .ended => w.shellEnded id p dies

/-! ## Messages -/

/-- What `write` on the master did: took `n` bytes, was interrupted, or
would block or failed. -/
inductive Wrote where
  | took (n : Nat)
  | interrupted
  | failed
  deriving DecidableEq, Repr

/-- The loop of `on_binary`: what reaches the shell. -/
def writeLoop : List Wrote → Bytes → Bytes
  | [], _ => []
  | _, [] => []
  | .took n :: rest, bytes => if n = 0 then [] else bytes.take n ++ writeLoop rest (bytes.drop n)
  | .interrupted :: rest, bytes => writeLoop rest bytes
  | .failed :: _, _ => []

/-- `on_binary`. -/
def onBinary (bytes : Bytes) (writes : List Wrote) : World :=
  match w.ptys[id]? with
  | none => w
  | some p => w.emit (.written p.fd (writeLoop writes bytes))

end World

/-- `resolved_shell`. -/
def Config.resolvedShell (c : Config) : String :=
  if c.shell = "" then c.loginShellOf c.user else c.shell

/-- What follows the last slash. -/
def baseName (path : String) : String :=
  String.ofList (path.toList.reverse.takeWhile (· ≠ '/')).reverse

/-- `unavailable_reason`. -/
def Config.unavailableReason (c : Config) : Option String :=
  if !c.enabled || c.user = "" then
    some "no terminal is configured on this robot (capabilities.\"fjarr.terminal\".user)"
  else if c.user ≠ c.currentUser then
    some ("configured for user '" ++ c.user ++ "' but the agent runs as '" ++ c.currentUser ++
      "'; it cannot switch accounts (docs/10#terminal)")
  else if baseName c.resolvedShell = "nologin" ∨ baseName c.resolvedShell = "false" then
    some ("the terminal's shell is " ++ c.resolvedShell ++ ", which refuses logins (" ++ c.user ++
      " is a system account): set shell in capabilities.\"fjarr.terminal\", e.g. /bin/bash (docs/06)")
  else none

/-- What `forkpty` returned: a child with its master, or the error. -/
inductive Forked where
  | child (pid : Pid) (fd : Fd)
  | failed (error : String)
  deriving DecidableEq, Repr

namespace World

/-- `open`. -/
def openPty (c : Config) (w : World) (id : String) (cols rows : UInt16) (forked : Forked) :
    World :=
  if w.ptys.contains id then
    w.emit (.reply id (.error "busy" "a terminal is already open on this session"))
  else
    match c.unavailableReason with
    | some why => w.emit (.reply id (.error "unavailable" why))
    | none =>
      match forked with
      | .failed error => w.emit (.reply id (.error "internal" ("forkpty failed: " ++ error)))
      | .child pid fd =>
        let w := { w with
          children := Function.update w.children pid .running
          fds := Function.update w.fds fd .opened
          ptys := w.ptys.insert id { pid := some pid, fd } }
        { w with log := w.log ++ [.fork id pid fd,
          .winsize fd (if cols = 0 then 80 else cols) (if rows = 0 then 24 else rows),
          .reply id .ok] }

/-- `resize`. -/
def resize (w : World) (id : String) (cols rows : UInt16) : World :=
  match w.ptys[id]? with
  | none =>
    w.emit (.reply id (.error "payload-invalid" "no terminal is open on this session"))
  | some p => { w with log := w.log ++ [.winsize p.fd cols rows, .reply id .ok] }

/-- `session_detached`. -/
def sessionDetached (w : World) (id : String) (dies : Nat → Option Status) : World :=
  let w := w.closePty id false dies
  { w with attached := w.attached.erase id, drains := w.drains.erase id }

/-- The loop of `shutdown`, over the sessions with a pty. -/
def closeAll (w : World) (dies : String → Nat → Option Status) : List String → World
  | [] => w
  | id :: ids => (w.closePty id false (dies id)).closeAll dies ids

/-- `shutdown`. -/
def shutdown (w : World) (dies : String → Nat → Option Status) : World :=
  { w.closeAll dies w.ptys.keys with attached := {}, drains := {} }

end World

/-! ## The system -/

/-- The requests of `on_message`; another type is answered with an error. -/
inductive Request where
  | open (cols rows : UInt16) (forked : Forked)
  | resize (cols rows : UInt16)
  | close (dies : Nat → Option Status)
  | other (type : String)

inductive Act where
  | attach (id : String)
  | request (id : String) (r : Request)
  | binary (id : String) (bytes : Bytes) (writes : List World.Wrote)
  | readable (id : String) (r : World.Read) (accepts : Nat → Bool) (dies : Nat → Option Status)
  | drain (id : String) (accepts : Nat → Bool)
  | releaseAllInput (id : String) (dies : Nat → Option Status)
  | detach (id : String) (dies : Nat → Option Status)
  | shutdown (dies : String → Nat → Option Status)
  | childExits (pid : Pid) (status : Status)

/-- `forkpty` hands out what it never handed out before. -/
def Forked.fresh (w : World) : Forked → Bool
  | .child pid fd => w.children pid = .unborn && w.fds fd = .unused
  | .failed _ => true

/-- A `read` returns at least one byte and at most a buffer full. -/
def World.Read.fits : World.Read → Bool
  | .data bytes => bytes ≠ [] && bytes.length ≤ readChunk
  | _ => true

/-- `on_message`. -/
def World.onMessage (c : Config) (w : World) (id : String) : Request → World
  | .open cols rows forked => w.openPty c id cols rows forked
  | .resize cols rows => w.resize id cols rows
  | .close dies => (w.closePty id false dies).emit (.reply id .ok)
  | .other type =>
    w.emit (.reply id (.error "payload-invalid" ("unknown fjarr.terminal request: " ++ type)))

/-- Which requests the kernel can serve. -/
def Request.fresh (w : World) : Request → Bool
  | .open _ _ forked => forked.fresh w
  | _ => true

/-- One callback, or a child's end. -/
def step (c : Config) (w : World) : Act → Option World
  | .attach id => some { w with attached := w.attached.insert id }
  | .request id r =>
    if w.attached.contains id && r.fresh w then some (w.onMessage c id r) else none
  | .binary id bytes writes =>
    if w.attached.contains id then some (w.onBinary id bytes writes) else none
  | .readable id r accepts dies =>
    if w.ptys.contains id && r.fits then some (w.readable id r accepts dies) else none
  | .drain id accepts =>
    if w.attached.contains id && w.drains.contains id then some (w.drain id accepts) else none
  | .releaseAllInput id dies => some (w.closePty id false dies)
  | .detach id dies => if w.attached.contains id then some (w.sessionDetached id dies) else none
  | .shutdown dies => some (w.shutdown dies)
  | .childExits pid status =>
    if w.children pid = .running then some (w.exits pid (some status)) else none

/-- Any callbacks in any order, from a capability just configured. -/
def system (c : Config) : System World Act where
  init := {}
  step := step c

end Fjarr.Terminal
