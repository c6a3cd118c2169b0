import EpskcCommissioner.Machine
import EpskcCommissioner.WorkerJobs

/-! The jobs of the touch UI: `queue_ui_job` one access a step, the worker along every path
of every job, and the tasks that send to the same queue on their own. What the screens show
is not part of this model. -/
namespace EpskcCommissioner.UiJobs
open WorkerJobs

variable {Fn Arg : Type}

/- The places that call `queue_ui_job`. A test that one makes before the call decides only
whether it calls. -/
inductive Action where
  | onForget | beginShare (lifetimeMs requestId : UInt32) | onScan | onGenerate | onKeypad
  | onWifiOpen | onWifiLeave | onWpassKb | onQrOpen | onCameraOpen | onFactoryReset
  deriving DecidableEq, Repr

def Action.msg : Action → UiJobMsg Fn Arg
  | .onForget => .forget
  | .beginShare lifetimeMs requestId => .share lifetimeMs requestId
  | .onScan => .scan
  | .onGenerate => .form
  | .onKeypad => .join
  | .onWifiOpen => .wifiScan
  | .onWifiLeave => .wifiLeave
  | .onWpassKb => .wifiJoin
  | .onQrOpen => .qr
  | .onCameraOpen => .cameraPreview
  | .onFactoryReset => .factoryReset

/- The places that call `xQueueSend` themselves: `on_share_close` and `role_timer_cb`,
`on_name_kb`, `ui_defer_br_start`, `ui_run_on_worker` and `ui_run_camtest`. -/
inductive Direct (Fn Arg : Type) where
  | shareStop (requestId : UInt32) | rename | brStart | call (fn : Option Fn) (arg : Arg) | camtest
  deriving DecidableEq, Repr

def Direct.msg : Direct Fn Arg → UiJobMsg Fn Arg
  | .shareStop requestId => .shareStop requestId
  | .rename => .rename
  | .brStart => .brStart
  | .call fn arg => .call fn arg
  | .camtest => .camtest

inductive Call where
  | qrscanStart | qrAbortRequested | qrscanPoll | digitsFromPayload | previewBuffer | cameraAbortRequested
  | threadShareStart | ownGeneration | threadFormNetwork | threadAttached | appWifiJoin | appWifiLeave
  | threadForget | meshcopFetchDataset | threadJoin
  deriving DecidableEq, Repr

inductive Script where
  | done
  | ask (call : Call) (yes no : Script)
  deriving DecidableEq, Repr

def Script.depth : Script → Nat
  | .done => 0
  | .ask _ yes no => max yes.depth no.depth + 1

/- The loop of `run_qr_job`. -/
def qrFrames : (maxFrames : Nat) → Script
  | 0 => .done
  | n + 1 =>
    .ask .qrAbortRequested .done
      (.ask .qrscanPoll (.ask .digitsFromPayload .done (qrFrames n)) (qrFrames n))

/- The loop of `run_camera_preview_job`. -/
def cameraFrames : (maxFrames : Nat) → Script
  | 0 => .done
  | n + 1 => .ask .cameraAbortRequested .done (cameraFrames n)

def untilAttached : (polls : Nat) → Script
  | 0 => .done
  | n + 1 => .ask .threadAttached .done (untilAttached n)

/- The branches of `worker`. A factory reset that reboots ends the run. -/
def script : UiJobMsg Fn Arg → Script
  | .qr => .ask .qrscanStart (qrFrames 400) .done
  | .cameraPreview => .ask .previewBuffer (.ask .qrscanStart (cameraFrames 400) .done) .done
  | .share _ _ => .ask .threadShareStart (.ask .ownGeneration .done .done) .done
  | .shareStop _ => .ask .ownGeneration .done .done
  | .form => .ask .threadFormNetwork (untilAttached 30) .done
  | .wifiJoin => .ask .appWifiJoin .done .done
  | .wifiLeave => .ask .appWifiLeave .done .done
  | .forget => .ask .threadForget .done .done
  | .join => .ask .meshcopFetchDataset (.ask .threadJoin (untilAttached 120) .done) .done
  | .camtest | .call _ _ | .brStart | .wifiScan | .scan | .factoryReset | .rename => .done

inductive UiPc (Fn Arg : Type) where
  | idle
  | test (msg : UiJobMsg Fn Arg) | setBusy (msg : UiJobMsg Fn Arg) | send (msg : UiJobMsg Fn Arg) | unbusy

inductive Worker (Fn Arg : Type) where
  | idle
  | running (msg : UiJobMsg Fn Arg) (path : Script)

/- `created` is whether there is a queue at all. The last two fields are history: the flag
when `queue_ui_job` tested it, and what the call returned. -/
structure Ui (Fn Arg : Type) where
  uiJobBusy : Bool
  created : Bool
  jobs : BoundedQueue (UiJobMsg Fn Arg) 4
  ui : UiPc Fn Arg
  worker : Worker Fn Arg
  tested : Bool
  returned : Option Bool

inductive Label (Fn Arg : Type) where
  | tap (action : Action)
  | ui
  | work (yes : Bool)
  | direct (d : Direct Fn Arg)

def Label.isWork : Label Fn Arg → Bool
  | .work _ => true
  | _ => false

/- `queue_ui_job` -/
def uiStep (s : Ui Fn Arg) : Option (Ui Fn Arg) :=
  match s.ui with
  | .idle => none
  | .test msg =>
    if s.uiJobBusy || !s.created then
      some {s with ui := .idle, tested := s.uiJobBusy, returned := some false}
    else some {s with ui := .setBusy msg, tested := s.uiJobBusy, returned := none}
  | .setBusy msg => some {s with uiJobBusy := true, ui := .send msg}
  | .send msg =>
    match s.jobs.send msg with
    | some jobs => some {s with jobs := jobs, ui := .idle, returned := some true}
    | none => some {s with ui := .unbusy}
  | .unbusy => some {s with uiJobBusy := false, ui := .idle, returned := some false}

/- `worker`. Behind every branch it gives the flag back for the kinds that took it. -/
def workStep (yes : Bool) (s : Ui Fn Arg) : Option (Ui Fn Arg) :=
  match s.worker with
  | .idle =>
    match s.jobs.receive with
    | none => none
    | some (msg,jobs) => some {s with jobs := jobs, worker := .running msg (script msg)}
  | .running msg (.ask _ onYes onNo) =>
    some {s with worker := .running msg (if yes then onYes else onNo)}
  | .running msg .done =>
    some {s with worker := .idle, uiJobBusy := if isUiJob msg then false else s.uiJobBusy}

def step (s : Ui Fn Arg) : Label Fn Arg → Option (Ui Fn Arg)
  | .tap action =>
    match s.ui with
    | .idle => some {s with ui := .test action.msg}
    | _ => none
  | .ui => uiStep s
  | .work yes => workStep yes s
  | .direct d =>
    if s.created then (s.jobs.send d.msg).map (fun jobs => {s with jobs := jobs}) else none

def boot (created : Bool) : Ui Fn Arg := ⟨false,created,.empty,.idle,.idle,false,none⟩

def uiJobs : Machine (Ui Fn Arg) (Label Fn Arg) := ⟨fun s => ∃ created, s = boot created,step⟩

def executing : Worker Fn Arg → Nat
  | .running msg _ => if isUiJob msg then 1 else 0
  | .idle => 0

def inFlight (s : Ui Fn Arg) : Nat := s.jobs.items.countP isUiJob + executing s.worker

def Agrees (s : Ui Fn Arg) : Prop :=
  match s.ui with
  | .idle => inFlight s = s.uiJobBusy.toNat
  | .test msg => inFlight s = s.uiJobBusy.toNat ∧ isUiJob msg = true
  | .setBusy msg => inFlight s = 0 ∧ s.uiJobBusy = false ∧ s.tested = false ∧ isUiJob msg = true
  | .send msg => inFlight s = 0 ∧ s.uiJobBusy = true ∧ s.tested = false ∧ isUiJob msg = true
  | .unbusy => inFlight s = 0 ∧ s.uiJobBusy = true ∧ s.tested = false

variable {s t : Ui Fn Arg} {msg : UiJobMsg Fn Arg}

/- Every kind that is queued by `queue_ui_job` is one that gives the flag back, and no other
kind is. -/
theorem actionGivesBack (action : Action) : isUiJob (action.msg : UiJobMsg Fn Arg) = true := by
  cases action <;> rfl

theorem directIsOther (d : Direct Fn Arg) : isUiJob d.msg = false := by
  cases d <;> rfl

theorem inFlightSent {jobs : BoundedQueue (UiJobMsg Fn Arg) 4} (sent : s.jobs.send msg = some jobs) :
    jobs.items.countP isUiJob = s.jobs.items.countP isUiJob + (isUiJob msg).toNat := by
  rw [BoundedQueue.sendItems sent, List.countP_append, List.countP_singleton]
  cases isUiJob msg <;> rfl

theorem workCases {yes : Bool} (stepped : workStep yes s = some t) :
    (∃ msg jobs, s.worker = .idle ∧ s.jobs.items = msg :: jobs.items ∧
      t = {s with jobs := jobs, worker := .running msg (script msg)}) ∨
    (∃ msg call onYes onNo, s.worker = .running msg (.ask call onYes onNo) ∧
      t = {s with worker := .running msg (if yes then onYes else onNo)}) ∨
    ∃ msg, s.worker = .running msg .done ∧
      t = {s with worker := .idle, uiJobBusy := if isUiJob msg then false else s.uiJobBusy} := by
  unfold workStep at stepped
  cases working : s.worker with
  | idle =>
    rw [working] at stepped
    cases received : s.jobs.receive with
    | none =>
      rw [received] at stepped
      cases stepped
    | some taken =>
      rw [received] at stepped
      exact .inl ⟨taken.1,taken.2,rfl,BoundedQueue.receiveItems received,(Option.some.inj stepped).symm⟩
  | running msg path =>
    rw [working] at stepped
    cases path with
    | done => exact .inr (.inr ⟨msg,rfl,(Option.some.inj stepped).symm⟩)
    | ask call onYes onNo => exact .inr (.inl ⟨msg,call,onYes,onNo,rfl,(Option.some.inj stepped).symm⟩)

theorem workCounts {yes : Bool} (stepped : workStep yes s = some t) :
    t.ui = s.ui ∧ t.tested = s.tested ∧ (t.uiJobBusy = s.uiJobBusy ∧ inFlight t = inFlight s ∨
      t.uiJobBusy = false ∧ inFlight s = inFlight t + 1) := by
  rcases workCases stepped with ⟨msg,jobs,idle,items,rfl⟩ | ⟨msg,call,onYes,onNo,working,rfl⟩ | ⟨msg,working,rfl⟩
  · refine ⟨rfl,rfl,.inl ⟨rfl,?_⟩⟩
    simp only [inFlight,idle,items,executing,List.countP_cons,Nat.add_zero]
  · refine ⟨rfl,rfl,.inl ⟨rfl,?_⟩⟩
    simp only [inFlight,working,executing]
  · refine ⟨rfl,rfl,?_⟩
    cases kind : isUiJob msg with
    | true =>
      refine .inr ⟨rfl,?_⟩
      simp only [inFlight,working,executing,kind,if_true,Nat.add_zero]
    | false =>
      refine .inl ⟨rfl,?_⟩
      simp only [inFlight,working,executing,kind,Bool.false_eq_true,if_false]

theorem workAgrees {yes : Bool} (agrees : Agrees s) (stepped : workStep yes s = some t) : Agrees t := by
  obtain ⟨same,tested,counts⟩ := workCounts stepped
  -- outside of the window the flag is the count; inside of it the worker has no UI job
  have outside : inFlight s = s.uiJobBusy.toNat → inFlight t = t.uiJobBusy.toNat := by
    intro exact
    rcases counts with ⟨flag,count⟩ | ⟨flag,count⟩
    · rw [flag, count]
      exact exact
    · have small := Bool.toNat_le s.uiJobBusy
      rw [flag, Bool.toNat_false]
      omega
  have inside : inFlight s = 0 → inFlight t = 0 ∧ t.uiJobBusy = s.uiJobBusy := by
    intro none
    rcases counts with ⟨flag,count⟩ | ⟨_,count⟩
    · exact ⟨count.trans none,flag⟩
    · omega
  unfold Agrees at agrees ⊢
  rw [same, tested]
  cases here : s.ui with
  | idle =>
    rw [here] at agrees
    exact outside agrees
  | test msg =>
    rw [here] at agrees
    exact ⟨outside agrees.1,agrees.2⟩
  | setBusy msg | send msg | unbusy =>
    rw [here] at agrees
    obtain ⟨none,flag⟩ := inside agrees.1
    simp only [none,flag]
    exact ⟨trivial,agrees.2⟩

theorem directAgrees {d : Direct Fn Arg} (agrees : Agrees s)
    (stepped : step s (.direct d) = some t) : Agrees t := by
  simp only [step] at stepped
  split at stepped
  · obtain ⟨jobs,sent,rfl⟩ := Option.map_eq_some_iff.mp stepped
    have same : inFlight {s with jobs := jobs} = inFlight s := by
      simp only [inFlight,inFlightSent sent,directIsOther,Bool.toNat_false,Nat.add_zero]
    unfold Agrees at agrees ⊢
    rw [same]
    exact agrees
  · cases stepped

theorem uiAgrees (agrees : Agrees s) (stepped : uiStep s = some t) : Agrees t := by
  unfold uiStep at stepped
  unfold Agrees at agrees
  split at stepped
  · cases stepped
  · rename_i msg here
    rw [here] at agrees
    split at stepped
    · cases stepped
      exact agrees.1
    · rename_i free
      cases stepped
      have low : s.uiJobBusy = false := (Bool.or_eq_false_iff.mp (eq_false_of_ne_true free)).1
      rw [low] at agrees
      exact ⟨agrees.1,low,low,agrees.2⟩
  · rename_i msg here
    rw [here] at agrees
    cases stepped
    exact ⟨agrees.1,rfl,agrees.2.2⟩
  · rename_i msg here
    rw [here] at agrees
    obtain ⟨none,high,tested,kind⟩ := agrees
    split at stepped
    · rename_i jobs sent
      cases stepped
      have count := inFlightSent sent
      unfold inFlight at none
      simp only [Agrees,inFlight,high,kind,Bool.toNat_true] at count ⊢
      omega
    · cases stepped
      exact ⟨none,high,tested⟩
  · rename_i here
    rw [here] at agrees
    cases stepped
    exact agrees.1

theorem agreesReached (reached : uiJobs.Reachable s) : Agrees s := by
  refine reachableInvariant Agrees ?_ ?_ reached
  · rintro s ⟨created,rfl⟩
    rfl
  · intro s l t agrees stepped
    cases l with
    | tap action =>
      simp only [uiJobs,step] at stepped
      split at stepped
      · rename_i here
        cases stepped
        unfold Agrees at agrees
        rw [here] at agrees
        exact ⟨agrees,actionGivesBack action⟩
      · cases stepped
    | ui => exact uiAgrees agrees stepped
    | work yes => exact workAgrees agrees stepped
    | direct d => exact directAgrees agrees stepped

theorem othersKeepWorker {l : Label Fn Arg} (other : l.isWork = false) (stepped : step s l = some t) :
    t.worker = s.worker := by
  cases l with
  | work yes => cases other
  | tap action =>
    simp only [step] at stepped
    split at stepped
    · cases stepped
      rfl
    · cases stepped
  | direct d =>
    simp only [step] at stepped
    split at stepped
    · obtain ⟨jobs,_,rfl⟩ := Option.map_eq_some_iff.mp stepped
      rfl
    · cases stepped
  | ui =>
    simp only [step,uiStep] at stepped
    split at stepped
    · cases stepped
    · split at stepped <;> cases stepped <;> rfl
    · cases stepped
      rfl
    · split at stepped <;> cases stepped <;> rfl
    · cases stepped
      rfl

theorem refusedKeeps (agrees : Agrees s) (stepped : uiStep s = some t) (back : t.ui = .idle)
    (refused : t.returned = some false) : t.uiJobBusy = t.tested := by
  unfold uiStep at stepped
  unfold Agrees at agrees
  split at stepped
  · cases stepped
  · split at stepped
    · cases stepped
      rfl
    · cases stepped
      cases back
  · cases stepped
    cases back
  · split at stepped
    · cases stepped
      cases refused
    · cases stepped
      cases back
  · rename_i here
    rw [here] at agrees
    cases stepped
    exact agrees.2.2.symm

/- The worker comes to the end of a job on every path, and has given the flag back there. -/
structure GivesBack (s : Ui Fn Arg) (msg : UiJobMsg Fn Arg) (labels : List (Label Fn Arg)) : Prop where
  finished : ∃ pre l post u v, labels = pre ++ l :: post ∧ uiJobs.run s pre = some u ∧
    u.worker = .running msg .done ∧ uiJobs.step u l = some v ∧ v.worker = .idle ∧ v.uiJobBusy = false

theorem givesBackLater {l : Label Fn Arg} {labels : List (Label Fn Arg)} (stepped : uiJobs.step s l = some t)
    (later : GivesBack t msg labels) : GivesBack s msg (l :: labels) := by
  obtain ⟨pre,last,post,u,v,split,ran,ended⟩ := later.finished
  exact ⟨l :: pre,last,post,u,v,by rw [split]; rfl,by simp only [Machine.run,stepped,Option.bind_some,ran],ended⟩

theorem jobGivesBack {path : Script} {labels : List (Label Fn Arg)} (working : s.worker = .running msg path)
    (kind : isUiJob msg = true) (ran : uiJobs.run s labels = some t)
    (enough : path.depth < labels.countP Label.isWork) : GivesBack s msg labels := by
  induction labels generalizing s path with
  | nil => exact absurd enough (Nat.not_lt_zero _)
  | cons l rest ih =>
    simp only [Machine.run,Option.bind_eq_some_iff] at ran
    obtain ⟨u,stepped,ran⟩ := ran
    cases work : l.isWork with
    | false =>
      rw [List.countP_cons_of_neg (by rw [work]; exact Bool.false_ne_true)] at enough
      exact givesBackLater stepped (ih ((othersKeepWorker work stepped).trans working) ran enough)
    | true =>
      rw [List.countP_cons_of_pos work] at enough
      cases l with
      | work yes =>
        rcases workCases stepped with ⟨_,_,idle,_⟩ | ⟨other,call,onYes,onNo,asking,rfl⟩ | ⟨other,ending,rfl⟩
        · rw [working] at idle
          cases idle
        · rw [working] at asking
          cases asking
          refine givesBackLater stepped (ih rfl ran ?_)
          unfold Script.depth at enough
          split <;> omega
        · rw [working] at ending
          cases ending
          exact ⟨[],.work yes,rest,s,_,rfl,rfl,working,stepped,rfl,if_pos kind⟩
      | tap action | ui | direct d => cases work

/- In every run the flag is exactly whether a UI job is queued or executed, and there is never
a second one; a call that is refused or fails leaves it alone; and every job that took it
gives it back, by every path through the worker. -/
theorem busyExact (reached : uiJobs.Reachable s) :
    inFlight s ≤ 1 ∧ (s.ui = .idle → (s.uiJobBusy = true ↔ inFlight s = 1)) ∧
    (∀ t, uiStep s = some t → t.ui = .idle → t.returned = some false → t.uiJobBusy = t.tested) ∧
    (∀ action : Action, isUiJob (action.msg : UiJobMsg Fn Arg) = true) ∧
    ∀ msg path labels t, s.worker = .running msg path → isUiJob msg = true →
      uiJobs.run s labels = some t → path.depth < labels.countP Label.isWork → GivesBack s msg labels := by
  have agrees := agreesReached reached
  refine ⟨?_,?_,?_,actionGivesBack,?_⟩
  · have small := Bool.toNat_le s.uiJobBusy
    unfold Agrees at agrees
    split at agrees
    · omega
    · omega
    · exact agrees.1 ▸ Nat.zero_le 1
    · exact agrees.1 ▸ Nat.zero_le 1
    · exact agrees.1 ▸ Nat.zero_le 1
  · intro idle
    unfold Agrees at agrees
    rw [idle] at agrees
    rw [agrees]
    cases s.uiJobBusy <;> simp
  · exact fun t stepped back refused => refusedKeeps agrees stepped back refused
  · exact fun msg path labels t working kind ran enough => jobGivesBack working kind ran enough

def forgetting : Ui Unit Unit :=
  ⟨true,true,.empty,.idle,.running .forget (.ask .threadForget .done .done),false,some true⟩

theorem busyExactForget : (forgetting.uiJobBusy = true ↔ inFlight forgetting = 1) ∧
    GivesBack forgetting .forget [.work false,.tap .onScan,.work false] := by
  have ran : uiJobs.run (boot true) [.tap .onForget,.ui,.ui,.ui,.work true] = some forgetting := rfl
  obtain ⟨_,exact,_,_,finishes⟩ := busyExact (reachableRun (.start ⟨true,rfl⟩) ran)
  exact ⟨exact rfl,finishes .forget _ _ _ rfl rfl rfl (by decide)⟩

end EpskcCommissioner.UiJobs
