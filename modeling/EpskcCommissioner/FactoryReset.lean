import EpskcCommissioner.Machine
import EpskcCommissioner.ThreadJoin

/-! `app_factory_reset`: the worker erases four stores one after the other and then asks
Matter to reset itself, or erases Matter's partition in its place, while `app_main` may
still be starting Matter. -/
namespace EpskcCommissioner.FactoryReset
open WifiDriver ThreadJoin

def espErrInvalidState : EspErr := 0x103

/- `nvs_open`, `nvs_erase_all` and `nvs_commit` of one namespace. -/
structure NvsErase where
  opened : EspErr
  erased : EspErr
  committed : EspErr
  deriving DecidableEq, Repr

def NvsErase.result (o : NvsErase) : EspErr :=
  if o.opened ≠ espOk then o.opened else if o.erased = espOk then o.committed else o.erased

/- Without an OpenThread instance its namespace is erased from outside. -/
inductive Forget where
  | offline (o : NvsErase)
  | online (erased : Bool)
  deriving DecidableEq, Repr

def threadForget (o : Forget) (s : Thread) : Thread × EspErr :=
  match o with
  | .offline o =>
    let s := eraseInfo (o.opened = espOk ∧ o.erased = espOk) s
    if o.result = espOk then ({s with topology := .never},espOk) else (s,o.result)
  | .online erased =>
    (eraseInfo erased (disable (forgetTopology s)),if erased then espOk else espFail)

/- `app_wifi_leave`: the lock, the storage of the driver, the empty configuration. -/
structure Leave where
  locked : Bool
  storage : EspErr
  config : EspErr
  deriving DecidableEq, Repr

def appWifiLeave (o : Leave) : EspErr :=
  if !o.locked then espErrInvalidState else if o.storage = espOk then o.config else o.storage

structure Erasures where
  thread : Forget
  wifi : Leave
  epskc : NvsErase
  cfg : NvsErase
  deriving DecidableEq, Repr

inductive CallPc where
  | idle
  | forget
  | leave (thread : Forget)
  | eraseNetwork (thread : Forget) (wifi : Leave)
  | eraseSettings (thread : Forget) (wifi : Leave) (epskc : NvsErase)
  | resetMatter (e : Erasures)
  | erasePartition (e : Erasures)
  | reboot (e : Erasures)
  | rebooting
  deriving DecidableEq, Repr

def CallPc.atPartition : CallPc → Bool
  | .erasePartition _ => true
  | _ => false

/- `matter_init` around `esp_matter::start` and the store to `s_started`. -/
inductive InitPc where
  | before | starting | done | failed
  deriving DecidableEq, Repr

/- `running` is the stack itself; the others are `s_started`,
`s_factory_reset_pending` and `s_last_error`. -/
structure Matter where
  init : InitPc
  running : Bool
  started : Bool
  factoryResetPending : Bool
  lastError : EspErr
  deriving DecidableEq, Repr

/- What a reset did to Matter or to the device, with the erasures behind it. -/
inductive Event where
  | matterAsked (e : Erasures)
  | resetScheduled (e : Erasures)
  | partitionErased (e : Erasures) (running : Bool)
  | rebootRequested (e : Erasures)
  deriving DecidableEq, Repr

structure Appliance where
  thread : Thread
  matter : Matter
  call : CallPc
  status : String
  log : List Event
  deriving DecidableEq, Repr

inductive Label where
  | matterStart (err : EspErr)
  | matterStarted (err : EspErr)
  | call
  | forget (o : Forget)
  | leave (o : Leave)
  | eraseNetwork (o : NvsErase)
  | eraseSettings (o : NvsErase)
  | resetMatter (cleanup : EspErr)
  | erasePartition (err : EspErr)
  | reboot
  | restart
  deriving DecidableEq, Repr

def aborted (status : String) (s : Appliance) : Appliance := {s with call := .idle, status := status}

def threadRemains : String := "Factory reset failed - Thread data remains"
def tryAgain : String := "Factory reset failed - try again"
def incomplete : String := "Factory reset incomplete - try again"
def matterRemains : String := "Factory reset incomplete - Matter data remains"

def note (event : Event) (s : Appliance) : Appliance := {s with log := event :: s.log}

/- `esp_matter::factory_reset` schedules the reset whatever it returns. -/
def matterFactoryReset (cleanup : EspErr) (m : Matter) : Matter × EspErr :=
  if !m.started || m.factoryResetPending then (m,espErrInvalidState)
  else
    ({m with factoryResetPending := true
             lastError := if cleanup = espOk then m.lastError else cleanup},espOk)

/- `matter_factory_reset` has two answers: with the second the partition is next. -/
def resetMatter (e : Erasures) (cleanup : EspErr) (s : Appliance) : Appliance :=
  let (m,err) := matterFactoryReset cleanup s.matter
  let s := note (.matterAsked e) {s with matter := m}
  if err = espErrInvalidState then {s with call := .erasePartition e}
  else note (.resetScheduled e) {s with call := .idle}

/- After a restart everything but the log and what is in flash starts anew. -/
def bootMatter : Matter := ⟨.before,false,false,false,espOk⟩

def boot (thread : Thread) (log : List Event) : Appliance := ⟨thread,bootMatter,.idle,"",log⟩

def callStep (s : Appliance) : Label → Option Appliance
  | .forget o =>
    match s.call with
    | .forget =>
      let (thread,err) := threadForget o s.thread
      let s := {s with thread := thread}
      if err ≠ espOk then some (aborted threadRemains s) else some {s with call := .leave o}
    | _ => none
  | .leave o =>
    match s.call with
    | .leave thread =>
      if appWifiLeave o ≠ espOk then some (aborted tryAgain s)
      else some {s with call := .eraseNetwork thread o}
    | _ => none
  | .eraseNetwork o =>
    match s.call with
    | .eraseNetwork thread wifi =>
      if o.result ≠ espOk then some (aborted incomplete s)
      else some {s with call := .eraseSettings thread wifi o}
    | _ => none
  | .eraseSettings o =>
    match s.call with
    | .eraseSettings thread wifi epskc =>
      if o.result ≠ espOk then some (aborted incomplete s)
      else some {s with call := .resetMatter ⟨thread,wifi,epskc,o⟩}
    | _ => none
  | .resetMatter cleanup =>
    match s.call with
    | .resetMatter e => some (resetMatter e cleanup s)
    | _ => none
  | .erasePartition err =>
    match s.call with
    | .erasePartition e =>
      let s := note (.partitionErased e s.matter.running) s
      if err = espOk then some {s with call := .reboot e} else some (aborted matterRemains s)
    | _ => none
  | .reboot =>
    match s.call with
    | .reboot e => some (note (.rebootRequested e) {s with call := .rebooting})
    | _ => none
  | _ => none

/- `matter_init` runs once in a boot. A restart comes at any time. -/
def step (s : Appliance) : Label → Option Appliance
  | .matterStart err =>
    if s.matter.init = .before then
      if err = espOk then some {s with matter := {s.matter with init := .starting, running := true}}
      else some {s with matter := {s.matter with init := .failed, lastError := err}}
    else none
  | .matterStarted err =>
    if s.matter.init = .starting then
      if err = espOk then
        some {s with matter := {s.matter with init := .done, started := true, lastError := espOk}}
      else some {s with matter := {s.matter with init := .failed, lastError := err}}
    else none
  | .call => if s.call = .idle then some {s with call := .forget} else none
  | .restart => some (boot s.thread s.log)
  | l => callStep s l

def factoryReset : Machine Appliance Label := ⟨fun s => ∃ thread, s = boot thread [],step⟩

def NvsErase.Clean (o : NvsErase) : Prop :=
  o.opened = espOk ∧ o.erased = espOk ∧ o.committed = espOk

def Forget.Clean : Forget → Prop
  | .offline o => o.Clean
  | .online erased => erased = true

def Leave.Clean (o : Leave) : Prop := o.locked = true ∧ o.storage = espOk ∧ o.config = espOk

/- Each of the four stores was erased without an error. -/
structure Erasures.Clean (e : Erasures) : Prop where
  thread : e.thread.Clean
  wifi : e.wifi.Clean
  epskc : e.epskc.Clean
  cfg : e.cfg.Clean

def Event.erasures : Event → Erasures
  | .matterAsked e | .resetScheduled e | .rebootRequested e | .partitionErased e _ => e

/- The partition is erased only where Matter never ran. -/
def Event.Spares : Event → Prop
  | .partitionErased _ running => running = false
  | _ => True

/- The behaviour that is asked for: nothing happens to Matter or to the device before
all four stores are clean, and a partition in use is left alone. -/
def Safe (s : Appliance) : Prop := ∀ event ∈ s.log, event.erasures.Clean ∧ event.Spares

/- A reset comes to Matter where it does not run, or where it has finished starting and
no reset is pending; and Matter is not started while a reset stands before the partition. -/
def Orderly (s : Appliance) : Label → Prop
  | .resetMatter _ =>
    s.matter.running = true → s.matter.started = true ∧ s.matter.factoryResetPending = false
  | .matterStart err => err = espOk → s.call.atPartition = false
  | _ => True

instance (s : Appliance) : (l : Label) → Decidable (Orderly s l)
  | .resetMatter _ => inferInstanceAs (Decidable (_ → _ ∧ _))
  | .matterStart _ => inferInstanceAs (Decidable (_ → _))
  | .matterStarted _ | .call | .forget _ | .leave _ | .eraseNetwork _ | .eraseSettings _
  | .erasePartition _ | .reboot | .restart => inferInstanceAs (Decidable True)

def CallPc.Clean : CallPc → Prop
  | .idle | .forget | .rebooting => True
  | .leave thread => thread.Clean
  | .eraseNetwork thread wifi => thread.Clean ∧ wifi.Clean
  | .eraseSettings thread wifi epskc => thread.Clean ∧ wifi.Clean ∧ epskc.Clean
  | .resetMatter e | .erasePartition e | .reboot e => e.Clean

structure Closed (s : Appliance) : Prop where
  call : s.call.Clean
  log : ∀ event ∈ s.log, event.erasures.Clean

structure Spared (s : Appliance) : Prop where
  partition : ∀ e, s.call = .erasePartition e → s.matter.running = false
  log : ∀ event ∈ s.log, event.Spares

theorem nvsClean {o : NvsErase} (ok : o.result = espOk) : o.Clean := by
  unfold NvsErase.result at ok
  split at ok
  · contradiction
  · rename_i opened
    split at ok
    · rename_i erased
      exact ⟨Decidable.not_not.mp opened,erased,ok⟩
    · contradiction

theorem forgetClean {o : Forget} {s : Thread} (ok : (threadForget o s).2 = espOk) : o.Clean := by
  cases o with
  | offline o =>
    simp only [threadForget] at ok
    split at ok
    · rename_i erased
      exact nvsClean erased
    · contradiction
  | online erased =>
    cases erased with
    | false => exact absurd ok failNotOk
    | true => rfl

theorem leaveClean {o : Leave} (ok : appWifiLeave o = espOk) : o.Clean := by
  unfold appWifiLeave at ok
  split at ok
  · exact absurd ok (by decide)
  · rename_i locked
    split at ok
    · rename_i storage
      exact ⟨by simpa using locked,storage,ok⟩
    · contradiction

/- What one step can do: a reset gives up, goes on behind a store it has erased, asks
Matter, erases the partition or reboots; or it stays where it is. -/
inductive Took (s t : Appliance) : Label → Prop where
  | gaveUp {l} (call : t.call = .idle ∨ t.call = .forget) (log : t.log = s.log) : Took s t l
  | forgot {o} (here : s.call = .forget) (ok : (threadForget o s.thread).2 = espOk)
      (call : t.call = .leave o) (log : t.log = s.log) : Took s t (.forget o)
  | left {o thread} (here : s.call = .leave thread) (ok : appWifiLeave o = espOk)
      (call : t.call = .eraseNetwork thread o) (log : t.log = s.log) : Took s t (.leave o)
  | network {o thread wifi} (here : s.call = .eraseNetwork thread wifi) (ok : o.result = espOk)
      (call : t.call = .eraseSettings thread wifi o) (log : t.log = s.log) : Took s t (.eraseNetwork o)
  | settings {o thread wifi epskc} (here : s.call = .eraseSettings thread wifi epskc)
      (ok : o.result = espOk) (call : t.call = .resetMatter ⟨thread,wifi,epskc,o⟩)
      (log : t.log = s.log) : Took s t (.eraseSettings o)
  | asked {cleanup e} (here : s.call = .resetMatter e) (now : t = resetMatter e cleanup s) :
      Took s t (.resetMatter cleanup)
  | erased {err e} (here : s.call = .erasePartition e) (call : t.call = .reboot e ∨ t.call = .idle)
      (log : t.log = .partitionErased e s.matter.running :: s.log) : Took s t (.erasePartition err)
  | rebooted {e} (here : s.call = .reboot e) (call : t.call = .rebooting)
      (log : t.log = .rebootRequested e :: s.log) : Took s t .reboot
  | elsewhere {l} (call : t.call = s.call) (log : t.log = s.log)
      (running : t.matter.running = s.matter.running ∨ l = .matterStart espOk) : Took s t l

theorem callTook {s t : Appliance} {l : Label} (stepped : callStep s l = some t) : Took s t l := by
  cases l with
  | forget o =>
    simp only [callStep] at stepped
    split at stepped <;> try contradiction
    rename_i here
    split at stepped <;> cases Option.some.inj stepped
    · exact .gaveUp (.inl rfl) rfl
    · rename_i ok
      exact .forgot here (Decidable.not_not.mp ok) rfl rfl
  | leave o =>
    simp only [callStep] at stepped
    split at stepped <;> try contradiction
    rename_i thread here
    split at stepped <;> cases Option.some.inj stepped
    · exact .gaveUp (.inl rfl) rfl
    · rename_i ok
      exact .left here (Decidable.not_not.mp ok) rfl rfl
  | eraseNetwork o =>
    simp only [callStep] at stepped
    split at stepped <;> try contradiction
    rename_i thread wifi here
    split at stepped <;> cases Option.some.inj stepped
    · exact .gaveUp (.inl rfl) rfl
    · rename_i ok
      exact .network here (Decidable.not_not.mp ok) rfl rfl
  | eraseSettings o =>
    simp only [callStep] at stepped
    split at stepped <;> try contradiction
    rename_i thread wifi epskc here
    split at stepped <;> cases Option.some.inj stepped
    · exact .gaveUp (.inl rfl) rfl
    · rename_i ok
      exact .settings here (Decidable.not_not.mp ok) rfl rfl
  | resetMatter cleanup =>
    simp only [callStep] at stepped
    split at stepped <;> try contradiction
    rename_i e here
    cases Option.some.inj stepped
    exact .asked here rfl
  | erasePartition err =>
    simp only [callStep] at stepped
    split at stepped <;> try contradiction
    rename_i e here
    split at stepped <;> cases Option.some.inj stepped
    · exact .erased here (.inl rfl) rfl
    · exact .erased here (.inr rfl) rfl
  | reboot =>
    simp only [callStep] at stepped
    split at stepped <;> try contradiction
    rename_i e here
    cases Option.some.inj stepped
    exact .rebooted here rfl rfl
  | matterStart | matterStarted | call | restart => contradiction

theorem stepTook {s t : Appliance} {l : Label} (stepped : step s l = some t) : Took s t l := by
  cases l with
  | matterStart err =>
    simp only [step] at stepped
    split at stepped <;> try contradiction
    split at stepped <;> cases Option.some.inj stepped
    · rename_i ok
      exact .elsewhere rfl rfl (.inr (by rw [ok]))
    · exact .elsewhere rfl rfl (.inl rfl)
  | matterStarted err =>
    simp only [step] at stepped
    split at stepped <;> try contradiction
    split at stepped <;> cases Option.some.inj stepped <;> exact .elsewhere rfl rfl (.inl rfl)
  | call =>
    simp only [step] at stepped
    split at stepped <;> try contradiction
    cases Option.some.inj stepped
    exact .gaveUp (.inr rfl) rfl
  | restart =>
    cases Option.some.inj stepped
    exact .gaveUp (.inl rfl) rfl
  | _ => exact callTook stepped

theorem resetMatterLog (e : Erasures) (cleanup : EspErr) (s : Appliance) :
    ((resetMatter e cleanup s).call = .erasePartition e ∧
      (resetMatter e cleanup s).log = .matterAsked e :: s.log ∧
      (s.matter.started = false ∨ s.matter.factoryResetPending = true)) ∨
    (resetMatter e cleanup s).call = .idle ∧
      (resetMatter e cleanup s).log = .resetScheduled e :: .matterAsked e :: s.log := by
  unfold resetMatter matterFactoryReset
  by_cases refused : (!s.matter.started || s.matter.factoryResetPending) = true
  · rw [if_pos refused]
    exact .inl ⟨rfl,rfl,by simpa using refused⟩
  · rw [if_neg refused]
    exact .inr ⟨rfl,rfl⟩

theorem resetMatterRunning (e : Erasures) (cleanup : EspErr) (s : Appliance) :
    (resetMatter e cleanup s).matter.running = s.matter.running := by
  unfold resetMatter matterFactoryReset
  by_cases refused : (!s.matter.started || s.matter.factoryResetPending) = true
  · rw [if_pos refused]; rfl
  · rw [if_neg refused]; rfl

theorem stepClosed {s t : Appliance} {l : Label} (h : Closed s) (stepped : step s l = some t) :
    Closed t := by
  obtain ⟨clean,log⟩ := h
  cases stepTook stepped with
  | gaveUp call same =>
    refine ⟨?_,same ▸ log⟩
    rcases call with call | call <;> exact call ▸ trivial
  | forgot here ok call same => exact ⟨call ▸ forgetClean ok,same ▸ log⟩
  | left here ok call same =>
    rw [here] at clean
    exact ⟨call ▸ ⟨clean,leaveClean ok⟩,same ▸ log⟩
  | network here ok call same =>
    rw [here] at clean
    exact ⟨call ▸ ⟨clean.1,clean.2,nvsClean ok⟩,same ▸ log⟩
  | settings here ok call same =>
    rw [here] at clean
    exact ⟨call ▸ ⟨clean.1,clean.2.1,clean.2.2,nvsClean ok⟩,same ▸ log⟩
  | @asked cleanup e here now =>
    rw [here] at clean
    subst now
    rcases resetMatterLog e cleanup s with ⟨call,same,_⟩ | ⟨call,same⟩
    · exact ⟨call ▸ clean,same ▸ List.forall_mem_cons.mpr ⟨clean,log⟩⟩
    · exact ⟨call ▸ trivial,
        same ▸ List.forall_mem_cons.mpr ⟨clean,List.forall_mem_cons.mpr ⟨clean,log⟩⟩⟩
  | erased here call same =>
    rw [here] at clean
    refine ⟨?_,same ▸ List.forall_mem_cons.mpr ⟨clean,log⟩⟩
    rcases call with call | call
    · exact call ▸ clean
    · exact call ▸ trivial
  | rebooted here call same =>
    rw [here] at clean
    exact ⟨call ▸ trivial,same ▸ List.forall_mem_cons.mpr ⟨clean,log⟩⟩
  | elsewhere call same => exact ⟨call ▸ clean,same ▸ log⟩

theorem reachableClosed {s : Appliance} (reached : factoryReset.Reachable s) : Closed s := by
  refine reachableInvariant Closed ?_ (fun s l t => stepClosed) reached
  rintro s ⟨thread,rfl⟩
  exact ⟨trivial,List.forall_mem_nil _⟩

/- Where Matter runs in order it takes the reset itself, so a reset that stands before the
partition found it not running. -/
theorem stepSpared {s t : Appliance} {l : Label} (h : Spared s) (orderly : Orderly s l)
    (stepped : step s l = some t) : Spared t := by
  obtain ⟨partition,log⟩ := h
  have elsewhere {e} (now : t.call ≠ .erasePartition e) :
      t.call = .erasePartition e → t.matter.running = false := fun here => absurd here now
  cases stepTook stepped with
  | gaveUp call same =>
    exact ⟨fun e => elsewhere (by rcases call with call | call <;> rw [call] <;> nofun),same ▸ log⟩
  | forgot _ _ call same => exact ⟨fun e => elsewhere (by rw [call]; nofun),same ▸ log⟩
  | left _ _ call same => exact ⟨fun e => elsewhere (by rw [call]; nofun),same ▸ log⟩
  | network _ _ call same => exact ⟨fun e => elsewhere (by rw [call]; nofun),same ▸ log⟩
  | settings _ _ call same => exact ⟨fun e => elsewhere (by rw [call]; nofun),same ▸ log⟩
  | @asked cleanup e here now =>
    have running := resetMatterRunning e cleanup s
    rw [← now] at running
    rcases resetMatterLog e cleanup s with ⟨_,same,refused⟩ | ⟨call,same⟩
    · rw [← now] at same
      refine ⟨fun _ _ => running.trans ?_,same ▸ List.forall_mem_cons.mpr ⟨trivial,log⟩⟩
      cases runs : s.matter.running with
      | false => rfl
      | true =>
        obtain ⟨started,pending⟩ := orderly runs
        rw [started, pending] at refused
        simp at refused
    · rw [← now] at call same
      exact ⟨fun e => elsewhere (by rw [call]; nofun),
        same ▸ List.forall_mem_cons.mpr ⟨trivial,List.forall_mem_cons.mpr ⟨trivial,log⟩⟩⟩
  | @erased err e here call same =>
    refine ⟨fun e => elsewhere (by rcases call with call | call <;> rw [call] <;> nofun),?_⟩
    exact same ▸ List.forall_mem_cons.mpr ⟨partition e here,log⟩
  | rebooted _ call same =>
    exact ⟨fun e => elsewhere (by rw [call]; nofun),same ▸ List.forall_mem_cons.mpr ⟨trivial,log⟩⟩
  | elsewhere call same running =>
    refine ⟨fun e here => ?_,same ▸ log⟩
    rw [call] at here
    rcases running with running | starts
    · exact running.trans (partition e here)
    · subst starts
      exact Bool.noConfusion ((orderly rfl).symm.trans (congrArg CallPc.atPartition here))

theorem orderlySpared {s : Appliance} (orderly : factoryReset.Under Orderly s) : Spared s := by
  refine underInvariant Spared ?_ (fun s l t => stepSpared) orderly
  rintro s ⟨thread,rfl⟩
  exact ⟨fun e here => CallPc.noConfusion here,List.forall_mem_nil _⟩

theorem atPartition {pc : CallPc} (here : pc.atPartition = true) : ∃ e, pc = .erasePartition e := by
  cases pc with
  | erasePartition e => exact ⟨e,rfl⟩
  | _ => contradiction

theorem runningErased {s : Appliance} {e : Erasures} (here : s.call = .erasePartition e)
    (running : s.matter.running = true) :
    ∃ t, step s (.erasePartition espOk) = some t ∧ ¬Safe t := by
  have stepped : step s (.erasePartition espOk) =
      some {note (.partitionErased e s.matter.running) s with call := .reboot e} := by
    simp only [step,callStep,here,if_true]
  refine ⟨_,stepped,fun safe => ?_⟩
  have spared := (safe (.partitionErased e s.matter.running) List.mem_cons_self).2
  exact Bool.noConfusion (running.symm.trans spared)

theorem disorderErases {s t : Appliance} {l : Label} (stepped : step s l = some t)
    (disorder : ¬Orderly s l) : ∃ u, step t (.erasePartition espOk) = some u ∧ ¬Safe u := by
  cases l with
  | resetMatter cleanup =>
    obtain ⟨running,refused⟩ := Classical.not_imp.mp disorder
    simp only [step,callStep] at stepped
    split at stepped <;> try contradiction
    rename_i e here
    cases Option.some.inj stepped
    have still := (resetMatterRunning e cleanup s).trans running
    refine runningErased (e := e) ?_ still
    have answer : (!s.matter.started || s.matter.factoryResetPending) = true := by
      cases started : s.matter.started with
      | false => rfl
      | true =>
        cases pending : s.matter.factoryResetPending with
        | false => exact absurd ⟨started,pending⟩ refused
        | true => rfl
    unfold resetMatter matterFactoryReset
    rw [if_pos answer]
    rfl
  | matterStart err =>
    obtain ⟨ok,partition⟩ := Classical.not_imp.mp disorder
    obtain ⟨e,here⟩ := atPartition (eq_true_of_ne_false partition)
    simp only [step,ok,if_true] at stepped
    split at stepped <;> try contradiction
    cases Option.some.inj stepped
    exact runningErased here rfl
  | _ => exact absurd trivial disorder

/- No reset touches Matter or the device before its four stores are clean; and as long as
every step is in order, the partition is erased only where Matter never ran. A step out
of order leads straight to the opposite. -/
theorem factoryResetSafe (s : Appliance) :
    (factoryReset.Reachable s → ∀ event ∈ s.log, event.erasures.Clean) ∧
    (factoryReset.Under Orderly s → Safe s) ∧
    ∀ l t, step s l = some t → ¬Orderly s l →
      ∃ u, step t (.erasePartition espOk) = some u ∧ ¬Safe u := by
  refine ⟨fun reached => (reachableClosed reached).log,fun orderly event mem => ?_,
    fun l t => disorderErases⟩
  have closed := reachableClosed (underReachable orderly)
  exact ⟨closed.log event mem,(orderlySpared orderly).log event mem⟩

def detached : Thread := ⟨true,none,true,true,false,.never⟩

def wholeReset : List Label :=
  [.call,.forget (.online true),.leave ⟨true,espOk,espOk⟩,.eraseNetwork ⟨espOk,espOk,espOk⟩,
    .eraseSettings ⟨espOk,espOk,espOk⟩,.resetMatter espOk]

def matterUp : List Label := [.matterStart espOk,.matterStarted espOk]

theorem detachedBoots : factoryReset.start (boot detached []) := ⟨detached,rfl⟩

theorem factoryResetSafeOne : ∃ s, factoryReset.Reachable s ∧ s.log.length = 2 ∧ Safe s := by
  have all : factoryReset.Meets Orderly (boot detached []) (matterUp ++ wholeReset) := by decide
  have ran : (factoryReset.run (boot detached []) (matterUp ++ wholeReset)).any
      (fun s => s.log.length == 2) = true := by decide
  obtain ⟨s,orderly,two⟩ := underEnds Orderly detachedBoots all ran
  exact ⟨s,underReachable orderly,by simpa using two,(factoryResetSafe s).2.1 orderly⟩

def erasesRunning : Event → Bool
  | .partitionErased _ running => running
  | _ => false

/- A second reset while the first one's reboot is pending. -/
theorem resetErasesRunning : ∃ s, factoryReset.Reachable s ∧ ¬Safe s := by
  have ran : (factoryReset.run (boot detached [])
      (matterUp ++ wholeReset ++ wholeReset ++ [.erasePartition espOk])).any
      (fun s => s.log.any erasesRunning) = true := by decide
  obtain ⟨s,reached,found⟩ := runEnds detachedBoots ran
  obtain ⟨event,mem,running⟩ := List.any_eq_true.mp found
  refine ⟨s,reached,fun safe => ?_⟩
  have spared := (safe event mem).2
  cases event with
  | partitionErased e runs => exact Bool.noConfusion (running.symm.trans spared)
  | _ => contradiction

end EpskcCommissioner.FactoryReset
