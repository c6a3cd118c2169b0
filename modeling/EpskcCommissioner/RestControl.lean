import Mathlib.Logic.Function.Basic
import EpskcCommissioner.BoundedQueue
import EpskcCommissioner.Machine

/-! The switches of the REST API: a requester queues a control message and then writes
the settings flag, the event handler queues a start of its own, the control task of
`otbr_rest.c` works the queue off, and the server's own task applies route updates.
Every enqueue, server start and registration is taken to succeed. -/
namespace EpskcCommissioner.RestControl

/- The two groups of routes that exist only while their feature is on. -/
inductive Route where
  | epskc | logs
  deriving DecidableEq, Repr

/- `rest_control_type_t`, and with it the flags `rest_api`, `rest_epskc`, `rest_logs`. -/
inductive Switch where
  | running
  | routes (r : Route)
  deriving DecidableEq, Repr

/- `rest_control_msg_t` -/
structure Msg where
  type : Switch
  on : Bool
  deriving DecidableEq, Repr

/- `rest_control_task`: at the queue, in `otbr_rest_start`, in `otbr_rest_stop`, or on
its way to a route update. -/
inductive ControlPc where
  | idle
  | startServer | readFlag (r : Route)
  | stopServer | clearServer
  | setFeature (on : Bool) | queueRoutes (r : Route) (on : Bool)
  deriving DecidableEq, Repr

/- `requests` are the requesters that have queued their message and are about to write
their flag; `handler` is the GOT_IP handler that has read `rest_api` and is about to
queue its start. The last two fields are history: the value of the newest request for
a switch, and who made it until it has written its flag. -/
structure Rest where
  flag : Switch → Bool
  control : BoundedQueue Msg 4
  pc : ControlPc
  feature : Bool
  server : Bool
  registered : Route → Bool
  work : List (Route × Bool)
  requests : Nat → Option Msg
  handler : Bool
  wanted : Switch → Bool
  newest : Switch → Option Nat

inductive Label where
  | request (id : Nat) (msg : Msg)
  | write (id : Nat)
  | gotIp
  | gotIpEnqueue
  | control
  | server

/- `queue_routes`: a server that does not run picks the flag up when it starts. -/
def queueRoutes (r : Route) (on : Bool) (s : Rest) : Rest :=
  if s.server then {s with work := s.work ++ [(r,on)]} else s

/- `apply_routes` on the server task. -/
def applyRoutes (r : Route) (on : Bool) (s : Rest) : Rest :=
  if !s.server || on == s.registered r then s
  else {s with registered := Function.update s.registered r on}

def dispatch (msg : Msg) : ControlPc :=
  match msg.type with
  | .running => if msg.on then .startServer else .stopServer
  | .routes .epskc => .setFeature msg.on
  | .routes .logs => .queueRoutes .logs msg.on

def taken (msg : Msg) (control : BoundedQueue Msg 4) (s : Rest) : Rest :=
  {s with control := control, pc := dispatch msg}

/- Stopping the server drops what its task had not applied. -/
def controlStep (s : Rest) : Option Rest :=
  match s.pc with
  | .idle =>
    match s.control.receive with
    | none => none
    | some (msg,control) => some (taken msg control s)
  | .startServer =>
    if s.server then some {s with pc := .idle}
    else some {s with server := true, pc := .readFlag .epskc}
  | .readFlag .epskc =>
    some {queueRoutes .epskc (s.flag (.routes .epskc)) s with pc := .readFlag .logs}
  | .readFlag .logs => some {queueRoutes .logs (s.flag (.routes .logs)) s with pc := .idle}
  | .stopServer =>
    if s.server then some {s with work := [], pc := .clearServer} else some {s with pc := .idle}
  | .clearServer => some {s with server := false, registered := fun _ => false, pc := .idle}
  | .setFeature on => some {s with feature := on, pc := .queueRoutes .epskc on}
  | .queueRoutes r on => some {queueRoutes r on s with pc := .idle}

/- `request_control` has queued the message of a requester. -/
def posted (id : Nat) (msg : Msg) (control : BoundedQueue Msg 4) (s : Rest) : Rest :=
  {s with control := control
          requests := Function.update s.requests id (some msg)
          wanted := Function.update s.wanted msg.type msg.on
          newest := Function.update s.newest msg.type (some id)}

def wrote (id : Nat) (msg : Msg) (s : Rest) : Rest :=
  {s with flag := Function.update s.flag msg.type msg.on
          requests := Function.update s.requests id none
          newest := if s.newest msg.type = some id then Function.update s.newest msg.type none
            else s.newest}

def step (s : Rest) : Label → Option Rest
  | .request id msg =>
    if s.requests id = none then (s.control.send msg).map (fun control => posted id msg control s)
    else none
  | .write id => (s.requests id).map (fun msg => wrote id msg s)
  | .gotIp => if s.flag .running && !s.handler then some {s with handler := true} else none
  | .gotIpEnqueue =>
    if s.handler then
      (s.control.send ⟨.running,true⟩).map (fun control =>
        {s with control := control, handler := false})
    else none
  | .control => controlStep s
  | .server =>
    match s.work with
    | [] => none
    | (r,on) :: rest => some (applyRoutes r on {s with work := rest})

def boot (flag : Switch → Bool) : Rest where
  flag := flag
  control := .empty
  pc := .idle
  feature := flag (.routes .epskc)
  server := false
  registered := fun _ => false
  work := []
  requests := fun _ => none
  handler := false
  wanted := flag
  newest := fun _ => none

def rest : Machine Rest Label := ⟨fun s => ∃ flag, s = boot flag,step⟩

end EpskcCommissioner.RestControl
