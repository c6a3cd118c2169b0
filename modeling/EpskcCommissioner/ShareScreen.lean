import EpskcCommissioner.Machine
import EpskcCommissioner.WorkerJobs

/-! The share screen of `ui.c` against its worker: the handlers of the UI thread, one
access to what both read or write a step, the worker's JOB_SHARE and
JOB_SHARE_STOP, and the other users of the job queue. What the screen shows is not
part of this model. -/
namespace EpskcCommissioner.ShareScreen
open WorkerJobs

variable {Fn Arg : Type}

/- Who opened the ephemeral key: a share request by its number, a REST or console
request, or nobody. -/
inductive Key where
  | none
  | share (n : Nat)
  | foreign
  deriving DecidableEq, Repr

def Key.isShare : Key → Bool
  | .share _ => true
  | .none | .foreign => false

/- The locals of `begin_share`. -/
structure Opening where
  previousId : UInt32
  previousStopPending : Bool
  lifetimeMs : UInt32
  deriving DecidableEq, Repr

/- The UI thread: in `begin_share` with its call of `queue_ui_job`, in
`on_share_close`, in `role_timer_cb`, or queueing the job of another screen. -/
inductive UiPc (Fn Arg : Type) where
  | idle
  | publishId (o : Opening) | clearPending (o : Opening) | testBusy (o : Opening)
  | setBusy (o : Opening) | send (o : Opening) | unbusy (o : Opening) | restoreId (o : Opening)
  | restorePending (o : Opening)
  | bump | sendStop | setPending
  | retryClear
  | otherBusy (msg : UiJobMsg Fn Arg) | otherSend (msg : UiJobMsg Fn Arg) | otherUnbusy
  deriving DecidableEq

/- The worker: `n` numbers the share request, `closed` the requests accepted before
the Close that a stop belongs to. -/
inductive Worker (Fn Arg : Type) where
  | idle
  | replace (n : Nat) (id : UInt32)
  | start (n : Nat) (id : UInt32)
  | compare (n : Nat) (id : UInt32) (ok : Bool)
  | cancel (n : Nat)
  | finish
  | stopCompare (closed : Nat) (id : UInt32)
  | stopKey (closed : Nat)
  | other (msg : UiJobMsg Fn Arg)
  deriving DecidableEq

inductive Action where
  | none | opened | closed
  deriving DecidableEq, Repr

/- The last four fields are history that nothing computes from: the share requests
accepted so far and at the last Close, the last action that took effect, and whether
the worker, since `begin_share` published its generation, passed over a stop of the
generation before with a share's key active. -/
structure Screen (Fn Arg : Type) where
  shareRequestId : UInt32
  shareStopPending : Bool
  uiJobBusy : Bool
  jobs : Jobs Fn Arg
  ui : UiPc Fn Arg
  worker : Worker Fn Arg
  key : Key
  opened : Nat
  closedAt : Nat
  last : Action
  passed : Bool

inductive Label (Fn Arg : Type) where
  | tapOpen (attached : Bool) (shareMinutes : UInt32)
  | tapClose
  | roleTimer
  | tapOther (msg : UiJobMsg Fn Arg)
  | ui
  | work (ok : Bool)
  | enqueue (msg : UiJobMsg Fn Arg)
  | outside (foreign : Bool)

/- From the publication of a generation until it stands or is taken back: the one
before it. -/
def window : UiPc Fn Arg → Option UInt32
  | .clearPending o | .testBusy o | .setBusy o | .send o | .unbusy o | .restoreId o =>
    some o.previousId
  | _ => none

/- A message of `on_share_close` or of the retry. -/
def stopMsg (s : Screen Fn Arg) : Queued Fn Arg := ⟨.shareStop s.shareRequestId,s.closedAt⟩

def uiStep (s : Screen Fn Arg) : Option (Screen Fn Arg) :=
  match s.ui with
  | .idle => none
  | .publishId o =>
    some {s with shareRequestId := o.previousId + 1, ui := .clearPending o, passed := false}
  | .clearPending o => some {s with shareStopPending := false, ui := .testBusy o}
  | .testBusy o => some {s with ui := if s.uiJobBusy then .restoreId o else .setBusy o}
  | .setBusy o => some {s with uiJobBusy := true, ui := .send o}
  | .send o =>
    match s.jobs.send ⟨.share o.lifetimeMs (o.previousId + 1),s.opened + 1⟩ with
    | some jobs => some {s with jobs := jobs, ui := .idle, opened := s.opened + 1, last := .opened}
    | none => some {s with ui := .unbusy o}
  | .unbusy o => some {s with uiJobBusy := false, ui := .restoreId o}
  | .restoreId o => some {s with shareRequestId := o.previousId, ui := .restorePending o}
  | .restorePending o => some {s with shareStopPending := o.previousStopPending, ui := .idle}
  | .bump =>
    some {s with shareRequestId := s.shareRequestId + 1, closedAt := s.opened, ui := .sendStop}
  | .sendStop =>
    match s.jobs.send (stopMsg s) with
    | some jobs => some {s with jobs := jobs, ui := .idle, last := .closed}
    | none => some {s with ui := .setPending}
  | .setPending => some {s with shareStopPending := true, ui := .idle, last := .closed}
  | .retryClear => some {s with shareStopPending := false, ui := .idle}
  | .otherBusy msg => some {s with uiJobBusy := true, ui := .otherSend msg}
  | .otherSend msg =>
    match s.jobs.send ⟨msg,0⟩ with
    | some jobs => some {s with jobs := jobs, ui := .idle}
    | none => some {s with ui := .otherUnbusy}
  | .otherUnbusy => some {s with uiJobBusy := false, ui := .idle}

def isShare : UiJobMsg Fn Arg → Bool
  | .share _ _ => true
  | _ => false

def isStop : UiJobMsg Fn Arg → Bool
  | .shareStop _ => true
  | _ => false

/- One job of the loop of `worker`; `ok` is the outcome of `thread_share_start`. -/
def workStep (ok : Bool) (s : Screen Fn Arg) : Option (Screen Fn Arg) :=
  match s.worker with
  | .idle =>
    match s.jobs.receive with
    | none => none
    | some (job,jobs) =>
      match job.msg with
      | .share _ id => some {s with jobs := jobs, worker := .replace job.request id}
      | .shareStop id => some {s with jobs := jobs, worker := .stopCompare job.request id}
      | msg => some {s with jobs := jobs, worker := .other msg}
  | .replace n id => some {s with key := .none, worker := .start n id}
  | .start n id => some {s with key := if ok then .share n else s.key, worker := .compare n id ok}
  | .compare n id started =>
    some {s with worker := if id ≠ s.shareRequestId ∧ started then .cancel n else .finish}
  | .cancel _ => some {s with key := .none, worker := .finish}
  | .finish => some {s with uiJobBusy := false, worker := .idle}
  | .stopCompare closed id =>
    if id = s.shareRequestId then some {s with worker := .stopKey closed}
    else some {s with worker := .idle,
                      passed := s.passed || (window s.ui == some id && s.key.isShare)}
  | .stopKey _ => some {s with key := .none, worker := .idle}
  | .other msg =>
    some {s with uiJobBusy := if isUiJob msg then false else s.uiJobBusy, worker := .idle}

/- A handler starts when the one before it has returned. Tasks other than the UI
thread queue neither screen jobs nor stops; a key may be used, expire, or give way
to one of another origin at any time. -/
def step (s : Screen Fn Arg) : Label Fn Arg → Option (Screen Fn Arg)
  | .tapOpen attached shareMinutes =>
    match s.ui with
    | .idle =>
      if attached && !s.uiJobBusy then
        some {s with ui := .publishId ⟨s.shareRequestId,s.shareStopPending,shareMinutes * 60000⟩}
      else some s
    | _ => none
  | .tapClose =>
    match s.ui with
    | .idle => some {s with ui := .bump}
    | _ => none
  | .roleTimer =>
    match s.ui with
    | .idle =>
      if s.shareStopPending then
        match s.jobs.send (stopMsg s) with
        | some jobs => some {s with jobs := jobs, ui := .retryClear}
        | none => some s
      else some s
    | _ => none
  | .tapOther msg =>
    match s.ui with
    | .idle =>
      if isUiJob msg && !isShare msg && !s.uiJobBusy then some {s with ui := .otherBusy msg} else none
    | _ => none
  | .ui => uiStep s
  | .work ok => workStep ok s
  | .enqueue msg =>
    if isUiJob msg || isStop msg then none
    else (s.jobs.send ⟨msg,0⟩).map (fun jobs => {s with jobs := jobs})
  | .outside foreign => some {s with key := if foreign then .foreign else .none}

def boot : Screen Fn Arg := ⟨0,false,false,.empty,.idle,.idle,.none,0,0,.none,false⟩

def screen : Machine (Screen Fn Arg) (Label Fn Arg) := ⟨fun s => s = boot,step⟩

end EpskcCommissioner.ShareScreen
