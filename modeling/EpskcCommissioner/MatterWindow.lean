import EpskcCommissioner.Machine
import EpskcCommissioner.SoleHolder
import EpskcCommissioner.WifiDriver

/-! `matter.cpp` around its event loop: `matter_init` from `esp_matter::start` on, the events that
the loop hands on, and `matter_open_commissioning_window`, which any task may call. -/
namespace EpskcCommissioner.MatterWindow
open WifiDriver (EspErr espOk espFail)

inductive Status where
  | stopped | starting | commissionable | commissioned | error
  deriving DecidableEq, Repr

inductive ChipError where
  | none | invalidArgument | bufferTooSmall | incorrectState | other
  deriving DecidableEq, Repr

def espErrInvalidArg : EspErr := 0x102
def espErrInvalidState : EspErr := 0x103
def espErrInvalidSize : EspErr := 0x104

def chipErrorToEsp : ChipError → EspErr
  | .none => espOk
  | .invalidArgument => espErrInvalidArg
  | .bufferTooSmall => espErrInvalidSize
  | .incorrectState => espErrInvalidState
  | .other => espFail

def kMinCommissioningWindowSeconds : Nat := 3 * 60
def kMaxCommissioningWindowSeconds : Nat := 15 * 60

/- What waits for the event loop: the work of a request, or an event. -/
inductive Item where
  | openWork (timeout : UInt16)
  | opened | closed
  | fabric
  | other
  deriving DecidableEq, Repr

/- `matter_init`, from the exchange of the status on; the calls before `esp_matter::start` are one
step with it. -/
inductive Init where
  | before | starting | running
  | windowLoad | windowStore (open_ : Bool)
  | fabricLoad | commissionedStore (c : Bool) | statusStore (c : Bool)
  | errorStore | battery | done | failed
  deriving DecidableEq, Repr

def Init.loops : Init → Bool
  | .before | .starting => false
  | _ => true

inductive Loop where
  | idle
  | openTest (timeout : UInt16) | openCall (timeout : UInt16) | openClear (err : ChipError) | openError (err : ChipError)
  | fabricLoad | commissionedStore (c : Bool) | statusStore (c : Bool)
  deriving DecidableEq, Repr

/- A task in `matter_open_commissioning_window`. -/
inductive Requester where
  | idle
  | started (timeout : UInt16) | window (timeout : UInt16) | exchange (timeout : UInt16) | schedule (timeout : UInt16) | giveUp
  deriving DecidableEq, Repr

/- `manager` is CHIP's `IsCommissioningWindowOpen`, `calls` is history: the calls of
`OpenBasicCommissioningWindow`, and whether the window was open then. -/
structure Matter where
  status : Status
  lastError : EspErr
  started : Bool
  commissioned : Bool
  windowOpen : Bool
  pending : Bool
  init : Init
  loop : Loop
  manager : Bool
  fabrics : Nat
  queue : List Item
  requester : Nat → Requester
  calls : List (UInt16 × Bool)

inductive Label where
  | init (err : EspErr)
  | call (id : Nat) (timeout : UInt16)
  | request (id : Nat) (err : ChipError)
  | loop (err : ChipError)
  | window (open_ : Bool)
  | fabrics (n : Nat)

def failInit (err : EspErr) (s : Matter) : Matter := {s with lastError := err, status := .error, init := .failed}

def statusOf (commissioned : Bool) : Status := if commissioned then .commissioned else .commissionable

def initStep (err : EspErr) (s : Matter) : Option Matter :=
  match s.init with
  | .before => some {s with status := .starting, init := .starting}
  | .starting => some (if err = espOk then {s with init := .running} else failInit err s)
  | .running => some (if err = espOk then {s with started := true, init := .windowLoad} else failInit err s)
  | .windowLoad => some {s with init := .windowStore s.manager}
  | .windowStore open_ => some {s with windowOpen := open_, init := .fabricLoad}
  | .fabricLoad => some {s with init := .commissionedStore (s.fabrics != 0)}
  | .commissionedStore c => some {s with commissioned := c, init := .statusStore c}
  | .statusStore c => some {s with status := statusOf c, init := .errorStore}
  | .errorStore => some {s with lastError := espOk, init := .battery}
  | .battery => some (if err = espOk then {s with init := .done} else failInit err s)
  | .done | .failed => none

def goes (id : Nat) (pc : Requester) (s : Matter) : Matter := {s with requester := Function.update s.requester id pc}

/- `err` is what `ScheduleWork` gives. -/
def requestStep (id : Nat) (err : ChipError) (s : Matter) : Option Matter :=
  match s.requester id with
  | .idle => none
  | .started timeout =>
    some (if s.started = false ∨ timeout.toNat < kMinCommissioningWindowSeconds ∨
        kMaxCommissioningWindowSeconds < timeout.toNat then goes id .idle s
      else goes id (.window timeout) s)
  | .window timeout => some (goes id (if s.windowOpen then .idle else .exchange timeout) s)
  | .exchange timeout =>
    some (if s.pending then goes id .idle s else goes id (.schedule timeout) {s with pending := true})
  | .schedule timeout =>
    some (if err = .none then goes id .idle {s with queue := s.queue ++ [.openWork timeout]} else goes id .giveUp s)
  | .giveUp => some (goes id .idle {s with pending := false})

def take (item : Item) (queue : List Item) (s : Matter) : Matter :=
  let s := {s with queue := queue}
  match item with
  | .openWork timeout => {s with loop := .openTest timeout}
  | .opened => {s with windowOpen := true}
  | .closed => {s with windowOpen := false}
  | .fabric => {s with loop := .fabricLoad}
  | .other => s

/- `err` is what `OpenBasicCommissioningWindow` gives. -/
def loopStep (err : ChipError) (s : Matter) : Option Matter :=
  match s.loop with
  | .idle =>
    match s.queue with
    | [] => none
    | item :: rest => some (take item rest s)
  | .openTest timeout => some {s with loop := if s.manager then .openClear .none else .openCall timeout}
  | .openCall timeout =>
    let s := {s with calls := s.calls ++ [(timeout,s.manager)], loop := .openClear err}
    some (if err = .none then {s with manager := true, queue := s.queue ++ [.opened]} else s)
  | .openClear err => some {s with pending := false, loop := .openError err}
  | .openError err => some {s with lastError := if err = .none then s.lastError else chipErrorToEsp err, loop := .idle}
  | .fabricLoad => some {s with loop := .commissionedStore (s.fabrics != 0)}
  | .commissionedStore c => some {s with commissioned := c, loop := .statusStore c}
  | .statusStore c => some {s with status := statusOf c, loop := .idle}

/- The loop does one thing at a time, so that the window and the fabrics change between two. -/
def step (s : Matter) : Label → Option Matter
  | .init err => initStep err s
  | .call id timeout => if s.requester id = .idle then some (goes id (.started timeout) s) else none
  | .request id err => requestStep id err s
  | .loop err => if s.init.loops then loopStep err s else none
  | .window open_ =>
    if s.init.loops ∧ s.loop = .idle ∧ s.manager ≠ open_ then
      some {s with manager := open_, queue := s.queue ++ [if open_ then .opened else .closed]}
    else none
  | .fabrics n =>
    if s.init.loops ∧ s.loop = .idle then some {s with fabrics := n, queue := s.queue ++ [.fabric]} else none

def boot : Matter where
  status := .stopped
  lastError := espOk
  started := false
  commissioned := false
  windowOpen := false
  pending := false
  init := .before
  loop := .idle
  manager := false
  fabrics := 0
  queue := []
  requester := fun _ => .idle
  calls := []

/- The fabrics are those of the flash, and CHIP may open a window while it starts. -/
def matter : Machine Matter Label :=
  ⟨fun s => ∃ fabrics manager, s = {boot with fabrics := fabrics, manager := manager},step⟩

end EpskcCommissioner.MatterWindow
