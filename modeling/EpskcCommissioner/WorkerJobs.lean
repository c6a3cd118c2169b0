import EpskcCommissioner.BoundedQueue

/-! The jobs of the UI worker of `ui.c`: one queue of four complete requests, served
in order by one task. What a job needs that no modelled function reads (a target,
a network, a name) is left out of its message. -/
namespace EpskcCommissioner.WorkerJobs

/- `ui_job_msg_t`: its constructors are those of `job_t`, with the data of the union. -/
inductive UiJobMsg (Fn Arg : Type) where
  | scan | join | qr | cameraPreview | wifiScan | wifiJoin | wifiLeave | camtest
  | form | brStart
  | share (lifetimeMs requestId : UInt32)
  | shareStop (requestId : UInt32)
  | forget | factoryReset
  | call (fn : Option Fn) (arg : Arg)
  | rename
  deriving DecidableEq, Repr

variable {Fn Arg : Type}

def isUiJob : UiJobMsg Fn Arg → Bool
  | .scan | .join | .qr | .cameraPreview | .wifiScan | .wifiJoin | .wifiLeave | .form | .share _ _
  | .forget | .factoryReset => true
  | _ => false

/- A message on its way, with the number of the request it was made for. Nothing
that is computed reads the number. -/
structure Queued (Fn Arg : Type) where
  msg : UiJobMsg Fn Arg
  request : Nat
  deriving DecidableEq, Repr

/- `s_jobs` -/
abbrev Jobs (Fn Arg : Type) := BoundedQueue (Queued Fn Arg) 4

end EpskcCommissioner.WorkerJobs
