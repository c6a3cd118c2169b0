import EpskcCommissioner.Machine
import EpskcCommissioner.SoleHolder
import EpskcCommissioner.WorkerJobs

/-! The start of the border router: the Wi-Fi event handlers of `main.c` and the retry of
`app_main`, the job that `ui.c` queues for its worker, and the task that `thread.c` makes
where there is no worker or no room. One access to what several tasks share is a step. The
backbone interface is there before any of them runs. -/
namespace EpskcCommissioner.BorderRouterStart
open WorkerJobs

variable {Fn Arg : Type}

/- Who asks for a start: `app_main`, or an IP event by its number. -/
inductive Requester where
  | appMain
  | handler (n : Nat)
  deriving DecidableEq, Repr

/- The tasks: those that ask, the UI worker, and the task that `thread_start_border_router`
makes for one that asks. -/
inductive Party where
  | requester (r : Requester)
  | worker
  | task (r : Requester)
  deriving DecidableEq, Repr

inductive Pc where
  | idle
  -- `app_main`
  | threadInit | getBits
  -- `on_wifi`
  | setBit
  -- `ui_defer_br_start`
  | defer | send
  -- `thread_start_border_router`
  | fallback | claimFallback | create | uncreated
  -- `worker`, and `thread_run_border_router_start`
  | otherJob | run | claimRun
  -- `run_border_router_start_claimed`
  | ready | setName | init | finish (started : Bool)
  deriving DecidableEq, Repr

/- `threadReady` and `uiReady` are the `s_ready` of `thread.c` and of `ui.c`, and `backbone`
is WIFI_BACKBONE_READY_BIT. -/
structure Startup (Fn Arg : Type) where
  threadReady : Bool
  uiReady : Bool
  backbone : Bool
  started : Bool
  starting : Bool
  jobs : BoundedQueue (UiJobMsg Fn Arg) 4
  pc : Party → Pc

/- An event that names the backbone's address: GOT_IP, or GOT_IP6 of the interface given. -/
inductive IpEvent where
  | gotIp
  | gotIp6 (ofBackbone : Bool)
  deriving DecidableEq, Repr

/- `step` is the next step of a task; `ok` is whether what it calls there works. -/
inductive Label (Fn Arg : Type) where
  | ipEvent (n : Nat) (event : IpEvent)
  | disconnected
  | uiReady
  | enqueue (msg : UiJobMsg Fn Arg)
  | step (p : Party) (ok : Bool)

def goTo (p : Party) (pc : Pc) (s : Startup Fn Arg) : Startup Fn Arg :=
  {s with pc := Function.update s.pc p pc}

/- `claim_border_router_start`, and where its caller goes with a claim. -/
def claim (p : Party) (claimed : Pc) (s : Startup Fn Arg) : Startup Fn Arg :=
  if !s.started && !s.starting then goTo p claimed {s with starting := true} else goTo p .idle s

/- `finish_border_router_start` -/
def finish (p : Party) (started : Bool) (s : Startup Fn Arg) : Startup Fn Arg :=
  goTo p .idle {s with started := started, starting := false}

def receive (s : Startup Fn Arg) : Option (Startup Fn Arg) :=
  if s.uiReady then
    match s.jobs.receive with
    | none => none
    | some (.brStart,jobs) => some (goTo .worker .run {s with jobs := jobs})
    | some (_,jobs) => some (goTo .worker .otherJob {s with jobs := jobs})
  else none

/- `xTaskCreate` hands the claim on to the new task. -/
def create (r : Requester) (ok : Bool) (s : Startup Fn Arg) : Startup Fn Arg :=
  if ok then goTo (.task r) .ready (goTo (.requester r) .idle s)
  else goTo (.requester r) .uncreated s

def partyStep (p : Party) (ok : Bool) (s : Startup Fn Arg) : Option (Startup Fn Arg) :=
  match s.pc p with
  | .idle => if p = .worker then receive s else none
  | .threadInit => some (goTo p .getBits {s with threadReady := s.threadReady || ok})
  | .getBits => some (goTo p (if s.backbone then .defer else .idle) s)
  | .setBit => some (goTo p .defer {s with backbone := true})
  | .defer => some (goTo p (if s.uiReady then .send else .fallback) s)
  | .send =>
    match s.jobs.send .brStart with
    | some jobs => some (goTo p .idle {s with jobs := jobs})
    | none => some (goTo p .fallback s)
  | .fallback => some (goTo p (if s.threadReady then .claimFallback else .idle) s)
  | .claimFallback => some (claim p .create s)
  | .create =>
    match p with
    | .requester r => some (create r ok s)
    | _ => none
  | .uncreated => some (finish p false s)
  | .otherJob => some (goTo p .idle s)
  | .run => some (goTo p (if s.threadReady then .claimRun else .idle) s)
  | .claimRun => some (claim p .ready s)
  | .ready => some (goTo p (if s.threadReady then .setName else .finish false) s)
  | .setName => some (goTo p (if ok then .init else .finish false) s)
  | .init => some (goTo p (.finish ok) s)
  | .finish started => some (finish p started s)

/- A number stands for one event: it is not used again while the event is handled, or a
task made for it runs. -/
def ipEvent (n : Nat) (event : IpEvent) (s : Startup Fn Arg) : Option (Startup Fn Arg) :=
  if s.pc (.requester (.handler n)) = .idle ∧ s.pc (.task (.handler n)) = .idle then
    match event with
    | .gotIp | .gotIp6 true => some (goTo (.requester (.handler n)) .setBit s)
    | .gotIp6 false => some s
  else none

def isBrStart : UiJobMsg Fn Arg → Bool
  | .brStart => true
  | _ => false

def step (s : Startup Fn Arg) : Label Fn Arg → Option (Startup Fn Arg)
  | .ipEvent n event => ipEvent n event s
  | .disconnected => some {s with backbone := false}
  | .uiReady => some {s with uiReady := true}
  | .enqueue msg =>
    if isBrStart msg then none else (s.jobs.send msg).map (fun jobs => {s with jobs := jobs})
  | .step p ok => partyStep p ok s

def boot (uiReady : Bool) : Startup Fn Arg :=
  ⟨false,uiReady,false,false,false,.empty,fun p => if p = .requester .appMain then .threadInit else .idle⟩

def startup : Machine (Startup Fn Arg) (Label Fn Arg) := ⟨fun s => ∃ uiReady, s = boot uiReady,step⟩

def Pc.claimed : Pc → Bool
  | .create | .uncreated | .ready | .setName | .init | .finish _ => true
  | _ => false

def holds (s : Startup Fn Arg) (p : Party) : Bool := (s.pc p).claimed

structure Claimed (s : Startup Fn Arg) : Prop where
  sole : Sole (holds s) s.starting
  fresh : s.starting = true → s.started = false

variable {s t u : Startup Fn Arg} {p : Party} {pc : Pc}

theorem holdsGoTo (p : Party) (pc : Pc) (s : Startup Fn Arg) :
    holds (goTo p pc s) = Function.update (holds s) p pc.claimed :=
  Function.comp_update Pc.claimed s.pc p pc

theorem claimedKept (claimed : Claimed s) (same : (s.pc p).claimed = pc.claimed) (pcs : t.pc = s.pc)
    (starting : t.starting = s.starting) (started : t.started = s.started) : Claimed (goTo p pc t) := by
  have held : holds t = holds s := by
    funext q
    rw [holds, pcs]
    rfl
  refine ⟨?_,?_⟩
  · rw [holdsGoTo, held]
    show Sole _ t.starting
    rw [starting]
    exact claimed.sole.same same
  · show t.starting = true → t.started = false
    rw [starting, started]
    exact claimed.fresh

theorem claimClaimed {taken : Pc} (claimed : Claimed s) (without : (s.pc p).claimed = false)
    (takes : taken.claimed = true) : Claimed (claim p taken s) := by
  unfold claim
  split
  · rename_i free
    simp only [Bool.and_eq_true,Bool.not_eq_true'] at free
    have sole := claimed.sole
    rw [free.2] at sole
    refine ⟨?_,fun _ => free.1⟩
    rw [holdsGoTo, takes]
    exact sole.take p
  · exact claimedKept claimed without rfl rfl rfl

theorem finishClaimed (claimed : Claimed s) (held : (s.pc p).claimed = true) (started : Bool) :
    Claimed (finish p started s) := by
  refine ⟨?_,fun wrong => absurd wrong Bool.false_ne_true⟩
  unfold finish
  rw [holdsGoTo]
  exact claimed.sole.give held

theorem createClaimed {r : Requester} {ok : Bool} (claimed : Claimed s)
    (here : s.pc (.requester r) = .create) : Claimed (create r ok s) := by
  have held : holds s (.requester r) = true := by rw [holds, here]; rfl
  unfold create
  cases ok with
  | false => exact claimedKept claimed (by rw [here]; rfl) rfl rfl rfl
  | true =>
    have starting := claimed.sole.taken held
    refine ⟨?_,claimed.fresh⟩
    simp only [if_true]
    rw [holdsGoTo, holdsGoTo]
    show Sole _ s.starting
    rw [starting]
    exact claimed.sole.pass held (.task r)

theorem receiveCases (stepped : receive s = some t) : ∃ msg jobs, s.jobs.items = msg :: jobs.items ∧
    t = goTo .worker (if isBrStart msg then .run else .otherJob) {s with jobs := jobs} := by
  unfold receive at stepped
  split at stepped
  · split at stepped
    · cases stepped
    · rename_i jobs received
      cases stepped
      exact ⟨_,jobs,BoundedQueue.receiveItems received,rfl⟩
    · rename_i msg jobs other received
      cases stepped
      refine ⟨msg,jobs,BoundedQueue.receiveItems received,?_⟩
      have plain : isBrStart msg = false := by
        cases msg with
        | brStart => exact (other rfl).elim
        | _ => rfl
      rw [plain]
      rfl
  · cases stepped

/- What a step of a task does with the claim: nothing, or it asks for it, gives it back, or
makes a task for it. -/
inductive ClaimStep (p : Party) (ok : Bool) (s : Startup Fn Arg) : Startup Fn Arg → Prop where
  | keeps {pc : Pc} {u : Startup Fn Arg} (same : (s.pc p).claimed = pc.claimed) (pcs : u.pc = s.pc)
    (starting : u.starting = s.starting) (started : u.started = s.started) : ClaimStep p ok s (goTo p pc u)
  | asks {taken : Pc} (without : (s.pc p).claimed = false) (takes : taken.claimed = true) :
    ClaimStep p ok s (claim p taken s)
  | gives {started : Bool} (held : (s.pc p).claimed = true) : ClaimStep p ok s (finish p started s)
  | creates {r : Requester} (self : p = .requester r) (here : s.pc p = .create) :
    ClaimStep p ok s (create r ok s)

theorem partyCases {ok : Bool} (stepped : partyStep p ok s = some t) : ClaimStep p ok s t := by
  unfold partyStep at stepped
  cases here : s.pc p with
  | idle =>
    simp only [here] at stepped
    split at stepped
    · rename_i worker
      subst worker
      obtain ⟨msg,jobs,_,rfl⟩ := receiveCases stepped
      exact .keeps (by rw [here]; cases isBrStart msg <;> rfl) rfl rfl rfl
    · cases stepped
  | create =>
    simp only [here] at stepped
    split at stepped
    · cases stepped
      exact .creates rfl here
    · cases stepped
  | send =>
    simp only [here] at stepped
    split at stepped <;> cases stepped <;> exact .keeps (by rw [here]; rfl) rfl rfl rfl
  | claimFallback | claimRun =>
    simp only [here] at stepped
    cases stepped
    exact .asks (by rw [here]; rfl) rfl
  | uncreated | finish started =>
    simp only [here] at stepped
    cases stepped
    exact .gives (by rw [here]; rfl)
  | getBits | defer | fallback | run | ready | setName =>
    simp only [here] at stepped
    cases stepped
    exact .keeps (by rw [here]; split <;> rfl) rfl rfl rfl
  | threadInit | setBit | otherJob | init =>
    simp only [here] at stepped
    cases stepped
    exact .keeps (by rw [here]; rfl) rfl rfl rfl

theorem partyClaimed {ok : Bool} (claimed : Claimed s) (stepped : partyStep p ok s = some t) : Claimed t := by
  cases partyCases stepped with
  | keeps same pcs starting started => exact claimedKept claimed same pcs starting started
  | asks without takes => exact claimClaimed claimed without takes
  | gives held => exact finishClaimed claimed held _
  | creates self here =>
    subst self
    exact createClaimed claimed here

theorem ipEventClaimed {n : Nat} {event : IpEvent} (claimed : Claimed s)
    (stepped : ipEvent n event s = some t) : Claimed t := by
  unfold ipEvent at stepped
  split at stepped
  · rename_i free
    split at stepped
    · cases stepped
      exact claimedKept claimed (by rw [free.1]; rfl) rfl rfl rfl
    · cases stepped
      exact claimedKept claimed (by rw [free.1]; rfl) rfl rfl rfl
    · cases stepped
      exact claimed
  · cases stepped

theorem claimedStep {l : Label Fn Arg} (claimed : Claimed s) (stepped : step s l = some t) : Claimed t := by
  cases l with
  | ipEvent n event => exact ipEventClaimed claimed stepped
  | disconnected =>
    cases stepped
    exact ⟨claimed.sole,claimed.fresh⟩
  | uiReady =>
    cases stepped
    exact ⟨claimed.sole,claimed.fresh⟩
  | enqueue msg =>
    simp only [step] at stepped
    split at stepped
    · cases stepped
    · obtain ⟨jobs,_,rfl⟩ := Option.map_eq_some_iff.mp stepped
      exact ⟨claimed.sole,claimed.fresh⟩
  | step p ok => exact partyClaimed claimed stepped

theorem bootClaimed (uiReady : Bool) : Claimed (boot uiReady : Startup Fn Arg) := by
  refine ⟨.none fun p => ?_,fun _ => rfl⟩
  show (if p = .requester .appMain then Pc.threadInit else .idle).claimed = false
  split <;> rfl

theorem claimedReached (reached : startup.Reachable s) : Claimed s := by
  refine reachableInvariant Claimed ?_ (fun s l t claimed stepped => claimedStep claimed stepped) reached
  rintro s ⟨uiReady,rfl⟩
  exact bootClaimed uiReady

theorem initHolds (claimed : Claimed s) (here : s.pc p = .init) : s.starting = true :=
  claimed.sole.taken (p := p) (by rw [holds, here]; rfl)

theorem startedStays {l : Label Fn Arg} (claimed : Claimed s) (started : s.started = true)
    (stepped : step s l = some t) : t.started = true := by
  cases l with
  | ipEvent n event =>
    simp only [step,ipEvent] at stepped
    split at stepped
    · split at stepped <;> cases stepped <;> exact started
    · cases stepped
  | disconnected | uiReady =>
    cases stepped
    exact started
  | enqueue msg =>
    simp only [step] at stepped
    split at stepped
    · cases stepped
    · obtain ⟨jobs,_,rfl⟩ := Option.map_eq_some_iff.mp stepped
      exact started
  | step p ok =>
    cases partyCases stepped with
    | keeps _ _ _ same => exact same.trans started
    | asks _ _ =>
      unfold claim
      split <;> exact started
    | gives held =>
      rw [claimed.fresh (claimed.sole.taken held)] at started
      cases started
    | creates _ _ =>
      unfold create
      split <;> exact started

theorem startedForever {labels : List (Label Fn Arg)} (claimed : Claimed s) (started : s.started = true)
    (ran : startup.run s labels = some t) : t.started = true ∧ Claimed t := by
  induction labels generalizing s with
  | nil =>
    cases Option.some.inj ran
    exact ⟨started,claimed⟩
  | cons l rest ih =>
    simp only [Machine.run,Option.bind_eq_some_iff] at ran
    obtain ⟨u,stepped,ran⟩ := ran
    exact ih (claimedStep claimed stepped) (startedStays claimed started stepped) ran

theorem startedNoInit (claimed : Claimed s) (started : s.started = true) (p : Party) : s.pc p ≠ .init := by
  intro here
  rw [claimed.fresh (initHolds claimed here)] at started
  cases started

end EpskcCommissioner.BorderRouterStart
