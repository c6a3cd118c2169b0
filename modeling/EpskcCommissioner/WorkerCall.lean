import EpskcCommissioner.Machine
import EpskcCommissioner.WorkerJobs

/-! `ui_run_on_worker`: any number of callers share one lock, one completion and the
job queue. Every call is a caller of its own; a task that calls again is the next
one. Each wait may expire whenever its caller stands in it. -/
namespace EpskcCommissioner.WorkerCall
open WorkerJobs

variable {Fn Arg : Type}

inductive CallPc (Fn Arg : Type) where
  | outside
  | takeLock (fn : Fn) (arg : Arg)
  | clearDone (fn : Fn) (arg : Arg)
  | send (fn : Fn) (arg : Arg)
  | waitDone (fn : Fn) (arg : Arg)
  | waitSafe (fn : Fn) (arg : Arg)
  | giveLock (fn : Fn) (arg : Arg) (accepted : Bool)
  | returned (fn : Option Fn) (arg : Arg) (result : Bool)
  deriving DecidableEq

/- The worker task: between jobs, about to look at a call's function, inside it,
about to give the completion, or in a job of another kind. -/
inductive Worker (Fn Arg : Type) where
  | idle
  | got (id : Nat) (fn : Option Fn) (arg : Arg)
  | inside (id : Nat) (fn : Fn) (arg : Arg)
  | give (id : Nat)
  | other (msg : UiJobMsg Fn Arg)
  deriving DecidableEq

/- One execution of a caller's function: the call it was queued by, and what ran. -/
structure Run (Fn Arg : Type) where
  id : Nat
  fn : Fn
  arg : Arg
  deriving DecidableEq

/- What the callers share with the worker: `s_jobs`, the completion `s_call_done`,
the worker itself. The executions begun and finished so far stand newest first;
no one reads them. -/
structure Desk (Fn Arg : Type) where
  jobs : Jobs Fn Arg
  done : Bool
  worker : Worker Fn Arg
  begun : List (Run Fn Arg)
  finished : List (Run Fn Arg)

/- `lock` is the holder of `s_call_lock`. -/
structure Calls (Fn Arg : Type) where
  ready : Bool
  lock : Option Nat
  calls : Nat → CallPc Fn Arg
  desk : Desk Fn Arg

inductive Label (Fn Arg : Type) where
  | start
  | enter (id : Nat) (fn : Option Fn) (arg : Arg)
  | proceed (id : Nat)
  | expire (id : Nat)
  | enqueue (msg : UiJobMsg Fn Arg)
  | work

def moveTo (s : Calls Fn Arg) (id : Nat) (pc : CallPc Fn Arg) : Calls Fn Arg :=
  {s with calls := fun other => if other = id then pc else s.calls other}

/- The checks at the top of `ui_run_on_worker`. -/
def enter (s : Calls Fn Arg) (id : Nat) (fn : Option Fn) (arg : Arg) : Calls Fn Arg :=
  match fn with
  | some f => if s.ready then moveTo s id (.takeLock f arg) else moveTo s id (.returned fn arg false)
  | none => moveTo s id (.returned fn arg false)

def proceed (s : Calls Fn Arg) (id : Nat) : Option (Calls Fn Arg) :=
  match s.calls id with
  | .takeLock fn arg =>
    match s.lock with
    | none => some (moveTo {s with lock := some id} id (.clearDone fn arg))
    | some _ => none
  | .clearDone fn arg => some (moveTo {s with desk := {s.desk with done := false}} id (.send fn arg))
  | .send fn arg =>
    (s.desk.jobs.send ⟨.call (some fn) arg,id⟩).map
      (fun jobs => moveTo {s with desk := {s.desk with jobs := jobs}} id (.waitDone fn arg))
  | .waitDone fn arg | .waitSafe fn arg =>
    if s.desk.done then
      some (moveTo {s with desk := {s.desk with done := false}} id (.giveLock fn arg true))
    else none
  | .giveLock fn arg accepted =>
    some (moveTo {s with lock := none} id (.returned (some fn) arg accepted))
  | .outside | .returned _ _ _ => none

/- The wait in which a caller stands ends with nothing. -/
def expire (s : Calls Fn Arg) (id : Nat) : Option (Calls Fn Arg) :=
  match s.calls id with
  | .takeLock fn arg => some (moveTo s id (.returned (some fn) arg false))
  | .send fn arg => some (moveTo s id (.giveLock fn arg false))
  | .waitDone fn arg => some (moveTo s id (.waitSafe fn arg))
  | _ => none

/- The loop of `worker`, with JOB_CALL in steps and every other job in two. -/
def work (d : Desk Fn Arg) : Option (Desk Fn Arg) :=
  match d.worker with
  | .idle =>
    match d.jobs.receive with
    | none => none
    | some (job,jobs) =>
      match job.msg with
      | .call fn arg => some {d with jobs := jobs, worker := .got job.request fn arg}
      | msg => some {d with jobs := jobs, worker := .other msg}
  | .got id fn arg =>
    match fn with
    | some f => some {d with worker := .inside id f arg, begun := ⟨id,f,arg⟩ :: d.begun}
    | none => some {d with worker := .give id}
  | .inside id f arg => some {d with worker := .give id, finished := ⟨id,f,arg⟩ :: d.finished}
  | .give _ => some {d with worker := .idle, done := true}
  | .other _ => some {d with worker := .idle}

def isCall : UiJobMsg Fn Arg → Bool
  | .call _ _ => true
  | _ => false

/- Calls are queued by `ui_run_on_worker` alone. -/
def step (s : Calls Fn Arg) : Label Fn Arg → Option (Calls Fn Arg)
  | .start => some {s with ready := true}
  | .enter id fn arg =>
    match s.calls id with
    | .outside => some (enter s id fn arg)
    | _ => none
  | .proceed id => proceed s id
  | .expire id => expire s id
  | .enqueue msg =>
    if isCall msg then none
    else (s.desk.jobs.send ⟨msg,0⟩).map (fun jobs => {s with desk := {s.desk with jobs := jobs}})
  | .work => (work s.desk).map (fun desk => {s with desk := desk})

def boot : Calls Fn Arg := ⟨false,none,fun _ => .outside,⟨.empty,false,.idle,[],[]⟩⟩

def calls : Machine (Calls Fn Arg) (Label Fn Arg) := ⟨fun s => s = boot,step⟩

def runs (log : List (Run Fn Arg)) (id : Nat) : List (Run Fn Arg) := log.filter (fun r => r.id == id)

def Never (d : Desk Fn Arg) (id : Nat) : Prop := runs d.begun id = [] ∧ runs d.finished id = []

def Once (d : Desk Fn Arg) (id : Nat) (fn : Fn) (arg : Arg) : Prop :=
  runs d.begun id = [⟨id,fn,arg⟩] ∧ runs d.finished id = [⟨id,fn,arg⟩]

def holds : CallPc Fn Arg → Bool
  | .clearDone _ _ | .send _ _ | .waitDone _ _ | .waitSafe _ _ | .giveLock _ _ _ => true
  | .outside | .takeLock _ _ | .returned _ _ _ => false

def waits : CallPc Fn Arg → Option (Fn × Arg)
  | .waitDone fn arg | .waitSafe fn arg => some (fn,arg)
  | _ => none

def calling : Worker Fn Arg → Bool
  | .got _ _ _ | .inside _ _ _ | .give _ => true
  | .idle | .other _ => false

def pending (jobs : Jobs Fn Arg) : List (Queued Fn Arg) := jobs.items.filter (fun job => isCall job.msg)

def Past (d : Desk Fn Arg) (id : Nat) : CallPc Fn Arg → Prop
  | .waitDone _ _ | .waitSafe _ _ => True
  | .giveLock fn arg true => Once d id fn arg
  | .returned fn arg true => ∃ f, fn = some f ∧ Once d id f arg
  | _ => Never d id

/- Where an accepted call is: it passes through these five places in order, and the
completion is clear until the last. -/
inductive Flight (d : Desk Fn Arg) (id : Nat) (fn : Fn) (arg : Arg) : Prop where
  | queued (jobs : pending d.jobs = [⟨.call (some fn) arg,id⟩]) (worker : calling d.worker = false)
      (done : d.done = false) (never : Never d id)
  | got (jobs : pending d.jobs = []) (worker : d.worker = .got id (some fn) arg)
      (done : d.done = false) (never : Never d id)
  | inside (jobs : pending d.jobs = []) (worker : d.worker = .inside id fn arg)
      (done : d.done = false) (begun : runs d.begun id = [⟨id,fn,arg⟩])
      (finished : runs d.finished id = [])
  | give (jobs : pending d.jobs = []) (worker : d.worker = .give id) (done : d.done = false)
      (once : Once d id fn arg)
  | ready (jobs : pending d.jobs = []) (worker : calling d.worker = false) (done : d.done = true)
      (once : Once d id fn arg)

/- No call is anywhere: this is what the lock hands over. -/
structure Quiet (d : Desk Fn Arg) : Prop where
  jobs : pending d.jobs = []
  worker : calling d.worker = false
  done : d.done = false

structure Orderly (s : Calls Fn Arg) : Prop where
  holder : ∀ id, holds (s.calls id) = true ↔ s.lock = some id
  past : ∀ id, Past s.desk id (s.calls id)
  flight : ∀ id fn arg, waits (s.calls id) = some (fn,arg) → Flight s.desk id fn arg
  quiet : (∀ id, waits (s.calls id) = none) → Quiet s.desk

theorem waitsHolds {pc : CallPc Fn Arg} {w} (h : waits pc = some w) : holds pc = true := by
  cases pc <;> first | rfl | exact nomatch h

theorem alone {s : Calls Fn Arg} {id other} (h : Orderly s) (one : holds (s.calls id) = true)
    (two : holds (s.calls other) = true) : other = id := by
  have first := (h.holder id).mp one
  have second := (h.holder other).mp two
  exact Option.some.inj (second.symm.trans first)

theorem nobodyWaits {s : Calls Fn Arg} {id} (h : Orderly s) (one : holds (s.calls id) = true)
    (none : waits (s.calls id) = none) (other : Nat) : waits (s.calls other) = .none := by
  cases found : waits (s.calls other) with
  | none => rfl
  | some w =>
    have same := alone h one (waitsHolds found)
    rw [same,none] at found
    exact found.symm

theorem movedAt {s : Calls Fn Arg} {id pc} (other : Nat) :
    (moveTo s id pc).calls other = if other = id then pc else s.calls other := rfl

theorem movedAll {s : Calls Fn Arg} {id pc} {p : Nat → CallPc Fn Arg → Prop} (here : p id pc)
    (rest : ∀ other, other ≠ id → p other (s.calls other)) (other : Nat) :
    p other ((moveTo s id pc).calls other) := by
  rw [movedAt]
  split
  · rename_i same
    exact same ▸ here
  · rename_i different
    exact rest other different

theorem orderlyMove {s : Calls Fn Arg} {id pc} (h : Orderly s) (held : holds pc = holds (s.calls id))
    (waiting : waits pc = waits (s.calls id)) (past : Past s.desk id pc) :
    Orderly (moveTo s id pc) := by
  refine ⟨?_,?_,?_,fun none => h.quiet (fun other => ?_)⟩
  · refine movedAll (p := fun other pc => holds pc = true ↔ s.lock = some other) ?_
      (fun other _ => h.holder other)
    rw [held]
    exact h.holder id
  · exact movedAll past (fun other _ => h.past other)
  · refine movedAll (p := fun other pc => ∀ fn arg, waits pc = some (fn,arg) →
      Flight s.desk other fn arg) ?_ (fun other _ => h.flight other)
    rw [waiting]
    exact h.flight id
  · by_cases same : other = id
    · have here := none id
      rw [movedAt,if_pos rfl,waiting] at here
      exact same ▸ here
    · have here := none other
      rw [movedAt,if_neg same] at here
      exact here

theorem orderlyEnter {s : Calls Fn Arg} {id fn arg} (h : Orderly s) (outside : s.calls id = .outside) :
    Orderly (enter s id fn arg) := by
  have never : Never s.desk id := by
    have past := h.past id
    rw [outside] at past
    exact past
  unfold enter
  split
  · split <;> exact orderlyMove h (by rw [outside]; rfl) (by rw [outside]; rfl) never
  · exact orderlyMove h (by rw [outside]; rfl) (by rw [outside]; rfl) never

theorem orderlyExpire {s t : Calls Fn Arg} {id} (h : Orderly s) (expired : expire s id = some t) :
    Orderly t := by
  have past := h.past id
  unfold expire at expired
  split at expired <;> try contradiction
  all_goals rename_i fn arg here
  all_goals cases Option.some.inj expired
  all_goals rw [here] at past
  all_goals exact orderlyMove h (by rw [here]; rfl) (by rw [here]; rfl) past

theorem orderlyTake {s : Calls Fn Arg} {id fn arg} (h : Orderly s) (free : s.lock = none)
    (here : s.calls id = .takeLock fn arg) :
    Orderly (moveTo {s with lock := some id} id (.clearDone fn arg)) := by
  have nobody : ∀ other, holds (s.calls other) = false := by
    intro other
    cases held : holds (s.calls other) with
    | false => rfl
    | true => exact nomatch free.symm.trans ((h.holder other).mp held)
  have still : ∀ other, waits (s.calls other) = none := by
    intro other
    cases found : waits (s.calls other) with
    | none => rfl
    | some w => exact absurd (waitsHolds found) (ne_true_of_eq_false (nobody other))
  have past := h.past id
  rw [here] at past
  refine ⟨?_,?_,?_,fun _ => h.quiet still⟩
  · refine movedAll (p := fun other pc => holds pc = true ↔ some id = some other) ?_ ?_
    · simp [holds]
    · intro other different
      simp [nobody other,Ne.symm different]
  · exact movedAll past (fun other _ => h.past other)
  · refine movedAll (p := fun other pc => ∀ fn arg, waits pc = some (fn,arg) →
      Flight s.desk other fn arg) (fun _ _ waiting => nomatch waiting) (fun other _ => h.flight other)

theorem orderlyClear {s : Calls Fn Arg} {id fn arg} (h : Orderly s)
    (here : s.calls id = .clearDone fn arg) :
    Orderly (moveTo {s with desk := {s.desk with done := false}} id (.send fn arg)) := by
  have still := nobodyWaits h (by rw [here]; rfl) (by rw [here]; rfl)
  have clear : {s.desk with done := false} = s.desk := by rw [← (h.quiet still).done]
  have past := h.past id
  rw [here] at past
  rw [clear]
  exact orderlyMove h (by rw [here]; rfl) (by rw [here]; rfl) past

/- The step of a holder between waiting and not waiting: the other callers are none
of those that wait, so only its own flight changes. -/
theorem orderlyDesk {s : Calls Fn Arg} {id pc d} (h : Orderly s)
    (holding : holds (s.calls id) = true) (held : holds pc = true)
    (past : ∀ other, other ≠ id → Past s.desk other (s.calls other) → Past d other (s.calls other))
    (here : Past d id pc) (flight : ∀ fn arg, waits pc = some (fn,arg) → Flight d id fn arg)
    (quiet : waits pc = none → Quiet d) : Orderly (moveTo {s with desk := d} id pc) := by
  refine ⟨?_,?_,?_,fun none => quiet ?_⟩
  · refine movedAll (p := fun other pc => holds pc = true ↔ s.lock = some other) ?_
      (fun other _ => h.holder other)
    simp [held,(h.holder id).mp holding]
  · exact movedAll here (fun other different => past other different (h.past other))
  · refine movedAll (p := fun other pc => ∀ fn arg, waits pc = some (fn,arg) →
      Flight d other fn arg) flight (fun other different fn arg waiting => ?_)
    exact absurd (alone h holding (waitsHolds waiting)) different
  · have here := none id
    rwa [movedAt,if_pos rfl] at here

theorem pastSame {s : Calls Fn Arg} {d : Desk Fn Arg} (begun : d.begun = s.desk.begun)
    (finished : d.finished = s.desk.finished) {id pc} (h : Past s.desk id pc) : Past d id pc := by
  unfold Past Never Once at h ⊢
  rw [begun,finished]
  exact h

theorem sendPending {jobs sent : Jobs Fn Arg} {job} (h : jobs.send job = some sent) :
    pending sent = pending jobs ++ if isCall job.msg then [job] else [] := by
  rw [pending,pending,BoundedQueue.sendItems h,List.filter_append]
  cases kind : isCall job.msg <;> simp [kind]

theorem orderlySend {s : Calls Fn Arg} {id fn arg jobs} (h : Orderly s)
    (here : s.calls id = .send fn arg) (sent : s.desk.jobs.send ⟨.call (some fn) arg,id⟩ = some jobs) :
    Orderly (moveTo {s with desk := {s.desk with jobs := jobs}} id (.waitDone fn arg)) := by
  have holding : holds (s.calls id) = true := by rw [here]; rfl
  have quiet := h.quiet (nobodyWaits h holding (by rw [here]; rfl))
  have never : Never s.desk id := by
    have past := h.past id
    rw [here] at past
    exact past
  have one : pending jobs = [⟨.call (some fn) arg,id⟩] := by
    simpa [quiet.jobs,isCall] using sendPending sent
  refine orderlyDesk h holding rfl (fun other _ past => pastSame rfl rfl past) trivial ?_ nofun
  intro f a waiting
  obtain ⟨rfl,rfl⟩ := Prod.mk.inj (Option.some.inj waiting)
  exact .queued one quiet.worker quiet.done never

theorem orderlyDone {s : Calls Fn Arg} {id fn arg} (h : Orderly s)
    (waiting : waits (s.calls id) = some (fn,arg)) (done : s.desk.done = true) :
    Orderly (moveTo {s with desk := {s.desk with done := false}} id (.giveLock fn arg true)) := by
  have flight := h.flight id fn arg waiting
  have ready : pending s.desk.jobs = [] ∧ calling s.desk.worker = false ∧ Once s.desk id fn arg := by
    cases flight with
    | queued jobs worker clear never => exact absurd done (ne_true_of_eq_false clear)
    | got jobs worker clear never => exact absurd done (ne_true_of_eq_false clear)
    | inside jobs worker clear begun finished => exact absurd done (ne_true_of_eq_false clear)
    | give jobs worker clear once => exact absurd done (ne_true_of_eq_false clear)
    | ready jobs worker done once => exact ⟨jobs,worker,once⟩
  obtain ⟨jobs,worker,once⟩ := ready
  exact orderlyDesk h (waitsHolds waiting) rfl (fun other _ past => pastSame rfl rfl past) once
    (fun _ _ waiting => nomatch waiting) (fun _ => ⟨jobs,worker,rfl⟩)

theorem orderlyGive {s : Calls Fn Arg} {id fn arg accepted} (h : Orderly s)
    (here : s.calls id = .giveLock fn arg accepted) :
    Orderly (moveTo {s with lock := none} id (.returned (some fn) arg accepted)) := by
  have holding : holds (s.calls id) = true := by rw [here]; rfl
  have still := nobodyWaits h holding (by rw [here]; rfl)
  have past := h.past id
  rw [here] at past
  refine ⟨?_,?_,?_,fun _ => h.quiet still⟩
  · refine movedAll (p := fun other pc => holds pc = true ↔ none = some other) (by simp [holds]) ?_
    intro other different
    have free : ¬holds (s.calls other) = true := fun held => different (alone h holding held)
    simp [free]
  · refine movedAll ?_ (fun other _ => h.past other)
    cases accepted with
    | true => exact ⟨fn,rfl,past⟩
    | false => exact past
  · exact movedAll (p := fun other pc => ∀ fn arg, waits pc = some (fn,arg) →
      Flight s.desk other fn arg) (fun _ _ waiting => nomatch waiting) (fun other _ => h.flight other)

theorem orderlyProceed {s t : Calls Fn Arg} {id} (h : Orderly s) (moved : proceed s id = some t) :
    Orderly t := by
  unfold proceed at moved
  split at moved <;> try contradiction
  · rename_i fn arg here
    split at moved <;> try contradiction
    rename_i free
    cases Option.some.inj moved
    exact orderlyTake h free here
  · rename_i fn arg here
    cases Option.some.inj moved
    exact orderlyClear h here
  · rename_i fn arg here
    obtain ⟨jobs,sent,rfl⟩ := Option.map_eq_some_iff.mp moved
    exact orderlySend h here sent
  · rename_i fn arg here
    split at moved <;> try contradiction
    cases Option.some.inj moved
    exact orderlyDone h (by rw [here]; rfl) (by assumption)
  · rename_i fn arg here
    split at moved <;> try contradiction
    cases Option.some.inj moved
    exact orderlyDone h (by rw [here]; rfl) (by assumption)
  · rename_i fn arg accepted here
    cases Option.some.inj moved
    exact orderlyGive h here

theorem orderlyAt {s : Calls Fn Arg} {d} (h : Orderly s)
    (past : ∀ id, Past s.desk id (s.calls id) → Past d id (s.calls id))
    (flight : ∀ id fn arg, waits (s.calls id) = some (fn,arg) → Flight s.desk id fn arg →
      Flight d id fn arg) (quiet : Quiet s.desk → Quiet d) : Orderly {s with desk := d} :=
  ⟨h.holder,fun id => past id (h.past id),
    fun id fn arg waiting => flight id fn arg waiting (h.flight id fn arg waiting),
    fun none => quiet (h.quiet none)⟩

theorem orderlyEnqueue {s : Calls Fn Arg} {msg jobs} (h : Orderly s) (other : isCall msg = false)
    (sent : s.desk.jobs.send ⟨msg,0⟩ = some jobs) :
    Orderly {s with desk := {s.desk with jobs := jobs}} := by
  have same : pending jobs = pending s.desk.jobs := by simpa [other] using sendPending sent
  refine orderlyAt h (fun id past => pastSame rfl rfl past) (fun id fn arg _ flight => ?_) ?_
  · cases flight with
    | queued jobs worker done never => exact .queued (same.trans jobs) worker done never
    | got jobs worker done never => exact .got (same.trans jobs) worker done never
    | inside jobs worker done begun finished =>
      exact .inside (same.trans jobs) worker done begun finished
    | give jobs worker done once => exact .give (same.trans jobs) worker done once
    | ready jobs worker done once => exact .ready (same.trans jobs) worker done once
  · exact fun quiet => ⟨same.trans quiet.jobs,quiet.worker,quiet.done⟩

theorem callerWaits {s : Calls Fn Arg} (h : Orderly s) (busy : ¬Quiet s.desk) :
    ∃ id fn arg, waits (s.calls id) = some (fn,arg) ∧ Flight s.desk id fn arg := by
  by_contra nobody
  refine busy (h.quiet (fun id => ?_))
  cases found : waits (s.calls id) with
  | none => rfl
  | some w => exact absurd ⟨id,w.1,w.2,found,h.flight id w.1 w.2 found⟩ nobody

theorem runsOwn {log : List (Run Fn Arg)} (r : Run Fn Arg) : runs (r :: log) r.id = r :: runs log r.id := by
  simp [runs]

theorem runsOther {log : List (Run Fn Arg)} {r : Run Fn Arg} {id} (other : id ≠ r.id) :
    runs (r :: log) id = runs log id := by
  simp [runs,Ne.symm other]

theorem pastWaiting {d : Desk Fn Arg} {id pc w} (waiting : waits pc = some w) : Past d id pc := by
  cases pc <;> trivial

theorem pastLogged {s : Calls Fn Arg} {d : Desk Fn Arg} {id w} (waiting : waits (s.calls id) = some w)
    (begun : ∀ other, other ≠ id → runs d.begun other = runs s.desk.begun other)
    (finished : ∀ other, other ≠ id → runs d.finished other = runs s.desk.finished other)
    (other : Nat) (past : Past s.desk other (s.calls other)) : Past d other (s.calls other) := by
  by_cases same : other = id
  · exact same ▸ pastWaiting waiting
  · unfold Past Never Once at past ⊢
    rw [begun other same,finished other same]
    exact past

theorem receivePending {jobs rest : Jobs Fn Arg} {job} (h : jobs.receive = some (job,rest)) :
    pending jobs = (if isCall job.msg then [job] else []) ++ pending rest := by
  rw [pending,pending,BoundedQueue.receiveItems h]
  cases kind : isCall job.msg <;> simp [kind]

theorem orderlyReceiveCall {s : Calls Fn Arg} {job jobs fn arg} (h : Orderly s)
    (idle : s.desk.worker = .idle) (received : s.desk.jobs.receive = some (job,jobs))
    (call : job.msg = .call fn arg) :
    Orderly {s with desk := {s.desk with jobs := jobs, worker := .got job.request fn arg}} := by
  have split : pending s.desk.jobs = job :: pending jobs := by
    simpa [call,isCall] using receivePending received
  refine orderlyAt h (fun id past => pastSame rfl rfl past) (fun id f a _ flight => ?_) ?_
  · cases flight with
    | queued one worker done never =>
      obtain ⟨rfl,rest⟩ := List.cons.inj (split.symm.trans one)
      obtain ⟨rfl,rfl⟩ := UiJobMsg.call.inj call
      exact .got rest rfl done never
    | got one worker => exact nomatch idle.symm.trans worker
    | inside one worker => exact nomatch idle.symm.trans worker
    | give one worker => exact nomatch idle.symm.trans worker
    | ready one worker => exact nomatch split.symm.trans one
  · exact fun quiet => nomatch split.symm.trans quiet.jobs

theorem orderlyReceive {s : Calls Fn Arg} {job jobs} (h : Orderly s)
    (idle : s.desk.worker = .idle) (received : s.desk.jobs.receive = some (job,jobs))
    (other : isCall job.msg = false) :
    Orderly {s with desk := {s.desk with jobs := jobs, worker := .other job.msg}} := by
  have same : pending jobs = pending s.desk.jobs := by simpa [other] using (receivePending received).symm
  refine orderlyAt h (fun id past => pastSame rfl rfl past) (fun id f a _ flight => ?_) ?_
  · cases flight with
    | queued one worker done never => exact .queued (same.trans one) rfl done never
    | got one worker => exact nomatch idle.symm.trans worker
    | inside one worker => exact nomatch idle.symm.trans worker
    | give one worker => exact nomatch idle.symm.trans worker
    | ready one worker done once => exact .ready (same.trans one) rfl done once
  · exact fun quiet => ⟨same.trans quiet.jobs,rfl,quiet.done⟩

theorem orderlyBegin {s : Calls Fn Arg} {id fn arg} (h : Orderly s)
    (got : s.desk.worker = .got id (some fn) arg) :
    Orderly {s with desk := {s.desk with
      worker := .inside id fn arg, begun := ⟨id,fn,arg⟩ :: s.desk.begun}} := by
  have busy : calling s.desk.worker = true := by rw [got]; rfl
  have loud : ¬Quiet s.desk := fun quiet => absurd busy (ne_true_of_eq_false quiet.worker)
  obtain ⟨caller,f,a,waiting,flight⟩ := callerWaits h loud
  cases flight with
  | queued jobs worker => exact absurd busy (ne_true_of_eq_false worker)
  | inside jobs worker => exact nomatch got.symm.trans worker
  | give jobs worker => exact nomatch got.symm.trans worker
  | ready jobs worker => exact absurd busy (ne_true_of_eq_false worker)
  | got jobs worker done never =>
    obtain ⟨rfl,same,rfl⟩ := Worker.got.inj (got.symm.trans worker)
    cases Option.some.inj same
    refine orderlyAt h (pastLogged waiting (fun other different => runsOther different)
      (fun _ _ => rfl)) (fun other f a found _ => ?_) (fun quiet => absurd quiet loud)
    cases alone h (waitsHolds waiting) (waitsHolds found)
    obtain ⟨rfl,rfl⟩ := Prod.mk.inj (Option.some.inj (waiting.symm.trans found))
    exact .inside jobs rfl done ((runsOwn _).trans (by rw [never.1])) never.2

theorem orderlyFinish {s : Calls Fn Arg} {id fn arg} (h : Orderly s)
    (inside : s.desk.worker = .inside id fn arg) :
    Orderly {s with desk := {s.desk with
      worker := .give id, finished := ⟨id,fn,arg⟩ :: s.desk.finished}} := by
  have busy : calling s.desk.worker = true := by rw [inside]; rfl
  have loud : ¬Quiet s.desk := fun quiet => absurd busy (ne_true_of_eq_false quiet.worker)
  obtain ⟨caller,f,a,waiting,flight⟩ := callerWaits h loud
  cases flight with
  | queued jobs worker => exact absurd busy (ne_true_of_eq_false worker)
  | got jobs worker => exact nomatch inside.symm.trans worker
  | give jobs worker => exact nomatch inside.symm.trans worker
  | ready jobs worker => exact absurd busy (ne_true_of_eq_false worker)
  | inside jobs worker done begun finished =>
    obtain ⟨rfl,rfl,rfl⟩ := Worker.inside.inj (inside.symm.trans worker)
    refine orderlyAt h (pastLogged waiting (fun _ _ => rfl)
      (fun other different => runsOther different)) (fun other f a found _ => ?_)
      (fun quiet => absurd quiet loud)
    cases alone h (waitsHolds waiting) (waitsHolds found)
    obtain ⟨rfl,rfl⟩ := Prod.mk.inj (Option.some.inj (waiting.symm.trans found))
    exact .give jobs rfl done ⟨begun,(runsOwn _).trans (by rw [finished])⟩

theorem orderlyComplete {s : Calls Fn Arg} {id} (h : Orderly s) (give : s.desk.worker = .give id) :
    Orderly {s with desk := {s.desk with worker := .idle, done := true}} := by
  have busy : calling s.desk.worker = true := by rw [give]; rfl
  refine orderlyAt h (fun id past => pastSame rfl rfl past) (fun other f a _ flight => ?_)
    (fun quiet => absurd busy (ne_true_of_eq_false quiet.worker))
  cases flight with
  | queued jobs worker => exact absurd busy (ne_true_of_eq_false worker)
  | got jobs worker => exact nomatch give.symm.trans worker
  | inside jobs worker => exact nomatch give.symm.trans worker
  | give jobs worker done once => exact .ready jobs rfl rfl once
  | ready jobs worker => exact absurd busy (ne_true_of_eq_false worker)

theorem orderlyOther {s : Calls Fn Arg} {msg} (h : Orderly s) (job : s.desk.worker = .other msg) :
    Orderly {s with desk := {s.desk with worker := .idle}} := by
  refine orderlyAt h (fun id past => pastSame rfl rfl past) (fun other f a _ flight => ?_)
    (fun quiet => ⟨quiet.jobs,rfl,quiet.done⟩)
  cases flight with
  | queued jobs worker done never => exact .queued jobs rfl done never
  | got jobs worker => exact nomatch job.symm.trans worker
  | inside jobs worker => exact nomatch job.symm.trans worker
  | give jobs worker => exact nomatch job.symm.trans worker
  | ready jobs worker done once => exact .ready jobs rfl done once

theorem gotSome {s : Calls Fn Arg} {id arg} (h : Orderly s) : s.desk.worker ≠ .got id none arg := by
  intro got
  have busy : calling s.desk.worker = true := by rw [got]; rfl
  obtain ⟨caller,f,a,waiting,flight⟩ :=
    callerWaits h (fun quiet => absurd busy (ne_true_of_eq_false quiet.worker))
  cases flight with
  | queued jobs worker => exact absurd busy (ne_true_of_eq_false worker)
  | got jobs worker => exact nomatch got.symm.trans worker
  | inside jobs worker => exact nomatch got.symm.trans worker
  | give jobs worker => exact nomatch got.symm.trans worker
  | ready jobs worker => exact absurd busy (ne_true_of_eq_false worker)

theorem orderlyWork {s : Calls Fn Arg} {d} (h : Orderly s) (worked : work s.desk = some d) :
    Orderly {s with desk := d} := by
  unfold work at worked
  split at worked
  · rename_i idle
    split at worked <;> try contradiction
    rename_i job jobs received
    split at worked
    · rename_i fn arg call
      cases Option.some.inj worked
      exact orderlyReceiveCall h idle received call
    · rename_i other
      cases Option.some.inj worked
      refine orderlyReceive h idle received ?_
      cases kind : job.msg <;> first | rfl | exact absurd kind (other _ _)
  · rename_i id fn arg got
    split at worked
    · cases Option.some.inj worked
      exact orderlyBegin h got
    · exact absurd got (gotSome h)
  · rename_i id fn arg inside
    cases Option.some.inj worked
    exact orderlyFinish h inside
  · rename_i id give
    cases Option.some.inj worked
    exact orderlyComplete h give
  · rename_i msg job
    cases Option.some.inj worked
    exact orderlyOther h job

theorem orderlyStep {s t : Calls Fn Arg} {l} (h : Orderly s) (stepped : step s l = some t) :
    Orderly t := by
  cases l with
  | start =>
    cases Option.some.inj stepped
    exact ⟨h.holder,h.past,h.flight,h.quiet⟩
  | enter id fn arg =>
    simp only [step] at stepped
    split at stepped <;> try contradiction
    cases Option.some.inj stepped
    exact orderlyEnter h (by assumption)
  | proceed id => exact orderlyProceed h stepped
  | expire id => exact orderlyExpire h stepped
  | enqueue msg =>
    simp only [step] at stepped
    split at stepped <;> try contradiction
    rename_i other
    obtain ⟨jobs,sent,rfl⟩ := Option.map_eq_some_iff.mp stepped
    exact orderlyEnqueue h (by simpa using other) sent
  | work =>
    obtain ⟨d,worked,rfl⟩ := Option.map_eq_some_iff.mp stepped
    exact orderlyWork h worked

theorem orderlyRun {s : Calls Fn Arg} (reached : calls.Reachable s) : Orderly s := by
  refine reachableInvariant Orderly ?_ (fun s l t => orderlyStep) reached
  rintro s rfl
  exact ⟨fun id => ⟨nofun,nofun⟩,fun id => ⟨rfl,rfl⟩,nofun,fun _ => ⟨rfl,rfl,rfl⟩⟩

theorem callRunsOnce {s : Calls Fn Arg} {id fn arg result} (reached : calls.Reachable s)
    (returned : s.calls id = .returned fn arg result) :
    if result then ∃ f, fn = some f ∧ Once s.desk id f arg else Never s.desk id := by
  have past := (orderlyRun reached).past id
  rw [returned] at past
  cases result with
  | true => exact past
  | false => exact past

/- Two callers at once: the first is served, the second gives up waiting for the lock. -/
def twoCallers : List (Label Nat Nat) :=
  [.start,.enter 0 (some 7) 1,.enter 1 (some 8) 2,.proceed 0,.proceed 0,.enqueue .scan,.expire 1,
    .proceed 0,.work,.expire 0,.work,.work,.work,.work,.work,.proceed 0,.proceed 0]

def bothReturned (s : Calls Nat Nat) : Bool :=
  s.calls 0 = .returned (some 7) 1 true && s.calls 1 = .returned (some 8) 2 false

theorem callRunsTwo : ∃ s : Calls Nat Nat, calls.Reachable s ∧
    (∃ f, some 7 = some f ∧ Once s.desk 0 f 1) ∧ Never s.desk 1 := by
  have ran : (calls.run boot twoCallers).any bothReturned = true := by decide
  obtain ⟨s,reached,ends⟩ := runEnds rfl ran
  obtain ⟨first,second⟩ : s.calls 0 = .returned (some 7) 1 true ∧
      s.calls 1 = .returned (some 8) 2 false := by simpa [bothReturned] using ends
  exact ⟨s,reached,callRunsOnce reached first,callRunsOnce reached second⟩

end EpskcCommissioner.WorkerCall
