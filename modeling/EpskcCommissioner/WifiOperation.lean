import EpskcCommissioner.Machine
import EpskcCommissioner.WifiSupervisor

/-! `app_wifi_join` and `app_wifi_leave` as the task that holds the operation lock
runs them: one shared access or driver call a step, in source order, while the
handlers of the supervisor run between any two steps. -/
namespace EpskcCommissioner.WifiOperation
open WifiDriver WifiSupervisor

/- The program points of `wifi_disconnect_for_config_switch`. -/
inductive SwitchPc where
  | raiseHold | clearDisconnected | disconnect | awaitDisconnected
  deriving DecidableEq, Repr

def setHold (hold : Bool) (s : Station) : Station := {s with hold := hold}

/- No next point is the return. The wait ends with the bit or after 1500 ms, and
a bit that is set is cleared on exit. -/
def switchStep (err : EspErr) (s : Station) : SwitchPc → Option SwitchPc × Station
  | .raiseHold => (some .clearDisconnected, setHold true s)
  | .clearDisconnected =>
    (some .disconnect, {s with bits := {s.bits with disconnected := false}})
  | .disconnect => (if err = espOk then some .awaitDisconnected else none, s)
  | .awaitDisconnected => (none, {s with bits := {s.bits with disconnected := false}})

/- esp_wifi_set_config. An accepted configuration is no rejected candidate. -/
def setConfig (cfg : WifiConfig) (err : EspErr) (s : Station) : Station :=
  {s with driver := espWifiSetConfig cfg err s.driver,
          seen := {s.seen with rejected := s.seen.rejected && err != espOk}}

def setStorage (which : Storage) (err : EspErr) (s : Station) : Station :=
  {s with driver := espWifiSetStorage which err s.driver}

/- The locals of one join, and what it did so far: the driver at entry, the
generation its candidate was staged under, whether the rollback's set_config was
accepted, whether flash storage was requested at the end, and the unlocks. -/
structure JoinFrame where
  cfg : WifiConfig
  err : EspErr
  previous : WifiConfig
  bits : EventBits
  entry : Driver
  staged : Option Nat
  restored : Bool
  flashRequested : Bool
  unlocks : Nat
  deriving DecidableEq

def JoinFrame.enter (cfg : WifiConfig) (entry : Driver) : JoinFrame :=
  ⟨cfg,espOk,.empty,⟨false,false,false,false⟩,entry,none,false,false,0⟩

/- What the rollback puts back: the snapshot, or nothing when it had no SSID. -/
def JoinFrame.restore (f : JoinFrame) : WifiConfig :=
  if f.previous.hasSsid then f.previous else .empty

inductive JoinPc where
  | setJoinActive | cancelReconnect | storageRam | snapshot
  | switchOver (p : SwitchPc) | clearVerdict | stage | zeroRetries | dropHold | connect
  | waitVerdict | verdict | commitStorage | commitConfig | noteSaved
  | rollback (p : SwitchPc) | restore | keepHold | zeroRetriesAgain | clearVerdictAgain
  | releaseHold | notePrevious | reconnect | holdIdle | forgetCredentials
  | restoreStorage | clearJoinActive | unlock | returned
  deriving DecidableEq, Repr

def clearVerdictBits (s : Station) : Station :=
  {s with bits := {s.bits with connected := false, fail := false}}

/- `err` is the outcome of the driver call made at this point, if there is one.
The wait for a verdict may end at any time, with the bits of that moment. -/
def joinStep (f : JoinFrame) (err : EspErr) (s : Station) : JoinPc → JoinFrame × JoinPc × Station
  | .setJoinActive => (f, .cancelReconnect, {s with joinActive := true})
  | .cancelReconnect => (f, .storageRam, WifiSupervisor.cancelReconnect s)
  | .storageRam =>
    ({f with err := err}, if err = espOk then .snapshot else .restoreStorage, setStorage .ram err s)
  | .snapshot =>
    if err = espOk then
      ({f with err := err, previous := s.driver.current}, .switchOver .raiseHold, s)
    else ({f with err := err}, .restoreStorage, s)
  | .switchOver p =>
    match switchStep err s p with
    | (some q, t) => (f, .switchOver q, t)
    | (none, t) => (f, .clearVerdict, t)
  | .clearVerdict =>
    (f, .stage, {clearVerdictBits s with bits := {(clearVerdictBits s).bits with disconnected := false}})
  | .stage =>
    let t := setConfig f.cfg err s
    if err = espOk then ({f with err := err, staged := some t.driver.generation}, .zeroRetries, t)
    else ({f with err := err}, .rollback .raiseHold, t)
  | .zeroRetries => (f, .dropHold, {s with retries := 0})
  | .dropHold => (f, .connect, setHold false s)
  | .connect =>
    ({f with err := err}, if err = espOk then .waitVerdict else .rollback .raiseHold,
      espWifiConnect err s)
  | .waitVerdict => ({f with bits := s.bits}, .verdict, s)
  | .verdict =>
    if f.bits.connected then (f, .commitStorage, s)
    else ({f with err := espFail}, .rollback .raiseHold, s)
  | .commitStorage =>
    ({f with err := err}, if err = espOk then .commitConfig else .restoreStorage,
      setStorage .flash err s)
  | .commitConfig =>
    if err = espOk then (f, .noteSaved, setConfig f.cfg err s)
    else ({f with err := err}, .restoreStorage, setConfig f.cfg err s)
  | .noteSaved => ({f with err := espOk}, .restoreStorage, {s with haveCredentials := true})
  | .rollback p =>
    match switchStep err s p with
    | (some q, t) => (f, .rollback q, t)
    | (none, t) => (f, .restore, t)
  | .restore =>
    let t := setConfig f.restore err s
    if err = espOk then ({f with restored := true}, .zeroRetriesAgain, t)
    else (f, .keepHold, {t with seen := {t.seen with rejected := t.seen.rejected || f.staged.isSome}})
  | .keepHold => (f, .restoreStorage, setHold true s)
  | .zeroRetriesAgain => (f, .clearVerdictAgain, {s with retries := 0})
  | .clearVerdictAgain =>
    (f, if f.previous.hasSsid then .releaseHold else .holdIdle, clearVerdictBits s)
  | .releaseHold => (f, .notePrevious, setHold false s)
  | .notePrevious => (f, .reconnect, {s with haveCredentials := true})
  | .reconnect => (f, .restoreStorage, espWifiConnect err s)
  | .holdIdle => (f, .forgetCredentials, setHold true s)
  | .forgetCredentials => (f, .restoreStorage, {s with haveCredentials := false})
  | .restoreStorage =>
    ({f with err := if err ≠ espOk ∧ f.err = espOk then err else f.err, flashRequested := true},
      .clearJoinActive, setStorage .flash err s)
  | .clearJoinActive => (f, .unlock, {s with joinActive := false})
  | .unlock => ({f with unlocks := f.unlocks + 1}, .returned, {s with opLock := false})
  | .returned => (f, .returned, s)

inductive LeavePc where
  | switchOver (p : SwitchPc) | storageFlash | erase | forgetCredentials | cancelReconnect
  | unlock | returned
  deriving DecidableEq, Repr

def leaveStep (held : EspErr) (err : EspErr) (s : Station) : LeavePc → EspErr × LeavePc × Station
  | .switchOver p =>
    match switchStep err s p with
    | (some q, t) => (held, .switchOver q, t)
    | (none, t) => (held, .storageFlash, t)
  | .storageFlash =>
    (err, if err = espOk then .erase else .cancelReconnect, setStorage .flash err s)
  | .erase =>
    (err, if err = espOk then .forgetCredentials else .cancelReconnect, setConfig .empty err s)
  | .forgetCredentials => (held, .cancelReconnect, {s with haveCredentials := false})
  | .cancelReconnect => (held, .unlock, WifiSupervisor.cancelReconnect s)
  | .unlock => (held, .returned, {s with opLock := false})
  | .returned => (held, .returned, s)

inductive Op where
  | idle
  | join (f : JoinFrame) (pc : JoinPc)
  | leave (err : EspErr) (pc : LeavePc)
  deriving DecidableEq

/- The holder of the operation lock has returned, or there was none yet. -/
def Op.done : Op → Bool
  | .idle | .join _ .returned | .leave _ .returned => true
  | _ => false

structure Wifi where
  station : Station
  inFlight : List Event
  op : Op
  deriving DecidableEq

/- The argument checks of `app_wifi_join`; a missing string is NULL. -/
def joinArgs : Option CString → Option CString → Except EspErr WifiConfig
  | some ssid, some pass =>
    if ssid.bytes = [] ∨ ssid.bytes.length > 32 ∨ pass.bytes.length > 64 then
      .error espErrInvalidArg
    else .ok (.of ssid pass)
  | _, _ => .error espErrInvalidArg

inductive Label where
  | join (ssid pass : Option CString)
  | leave
  | proceed (err : EspErr)
  | raise (e : Event)
  | deliver (n : Nat) (err : EspErr)
  | timer (err : EspErr)
  | watchdog (getErr err : EspErr)
  | supervisor (on : Bool)
  | retry (err : EspErr)
  deriving DecidableEq

def mayRaise (w : Wifi) : Event → Bool
  | .gotIp used => used ∈ w.station.seen.attempts
  | _ => true

def locked (s : Station) : Station := {s with opLock := true}

/- A second join gives up after its timeout and a second leave waits; the events
in flight are handled in any order. -/
def step (w : Wifi) : Label → Option Wifi
  | .join ssid pass =>
    match joinArgs ssid pass with
    | .error _ => some w
    | .ok cfg =>
      if w.station.opLock then some w
      else some {w with station := locked w.station,
                        op := .join (.enter cfg w.station.driver) .setJoinActive}
  | .leave =>
    if w.station.opLock then none
    else some {w with station := locked w.station, op := .leave espOk (.switchOver .raiseHold)}
  | .proceed err =>
    match w.op with
    | .idle | .join _ .returned | .leave _ .returned => none
    | .join f pc =>
      let (g, next, s) := joinStep f err w.station pc
      some {w with station := s, op := .join g next}
    | .leave held pc =>
      let (e, next, s) := leaveStep held err w.station pc
      some {w with station := s, op := .leave e next}
  | .raise e => if mayRaise w e then some {w with inFlight := w.inFlight ++ [e]} else none
  | .deliver n err =>
    match w.inFlight[n]? with
    | none => none
    | some e =>
      some {w with station := onWifi e err w.station, inFlight := w.inFlight.eraseIdx n}
  | .timer err =>
    if w.station.timer.isSome then
      some {w with station := reconnectTimerCb err {w.station with timer := none}}
    else none
  | .watchdog getErr err => some {w with station := wifiWatchdogCb getErr err w.station}
  | .supervisor on => some {w with station := linkSupervisor on w.station}
  | .retry err => some {w with station := linkRetry err w.station}

/- After app_main brought the driver up: nothing runs, nothing happened yet, and
the driver holds any configuration. -/
structure Booted (w : Wifi) : Prop where
  idle : w.op = .idle
  quiet : w.inFlight = []
  bits : w.station.bits = ⟨false,false,false,false⟩
  hold : w.station.hold = false
  joinActive : w.station.joinActive = false
  opLock : w.station.opLock = false
  backoffStep : w.station.backoffStep = 0
  timer : w.station.timer = none
  seen : w.station.seen = ⟨[],[],false,[],false⟩

def wifi : Machine Wifi Label := ⟨Booted,step⟩

def bootWifi (d : Driver) : Wifi :=
  ⟨⟨d,⟨false,false,false,false⟩,false,false,true,d.current.hasSsid,false,0,0,0,0,true,none,
    ⟨[],[],false,[],false⟩⟩,[],.idle⟩

theorem bootBooted (d) : wifi.start (bootWifi d) := ⟨rfl,rfl,rfl,rfl,rfl,rfl,rfl,rfl,rfl⟩

def smooth (steps : Nat) : List Label := List.replicate steps (.proceed espOk)

/- Every way a step can go: an operation enters, the running one proceeds, an
address is handled, or something else happens that leaves the operation alone. -/
inductive Moved (w : Wifi) (l : Label) (t : Wifi) : Prop where
  | entered (cfg : WifiConfig) (free : w.station.opLock = false)
      (station : t.station = locked w.station) (inFlight : t.inFlight = w.inFlight)
      (op : t.op = .join (.enter cfg w.station.driver) .setJoinActive)
  | leaving (free : w.station.opLock = false) (station : t.station = locked w.station)
      (inFlight : t.inFlight = w.inFlight) (op : t.op = .leave espOk (.switchOver .raiseHold))
  | joined (f : JoinFrame) (pc : JoinPc) (err : EspErr) (label : l = .proceed err)
      (op : w.op = .join f pc) (running : pc ≠ .returned)
      (next : t.op = .join (joinStep f err w.station pc).1 (joinStep f err w.station pc).2.1)
      (station : t.station = (joinStep f err w.station pc).2.2) (inFlight : t.inFlight = w.inFlight)
  | left (held : EspErr) (pc : LeavePc) (err : EspErr) (label : l = .proceed err)
      (op : w.op = .leave held pc) (running : pc ≠ .returned)
      (next : t.op = .leave (leaveStep held err w.station pc).1 (leaveStep held err w.station pc).2.1)
      (station : t.station = (leaveStep held err w.station pc).2.2)
      (inFlight : t.inFlight = w.inFlight)
  | addressed (used : Attempt) (n : Nat) (err : EspErr) (label : l = .deliver n err)
      (found : w.inFlight[n]? = some (.gotIp used)) (op : t.op = w.op)
      (station : t.station = onGotIp used w.station) (inFlight : ∀ e ∈ t.inFlight, e ∈ w.inFlight)
  | around (op : t.op = w.op) (calm : Calm w.station t.station)
      (inFlight : ∀ e ∈ t.inFlight, e ∈ w.inFlight ∨ mayRaise w e = true)

theorem aroundSame {w l t} (op : t.op = w.op) (calm : Calm w.station t.station)
    (inFlight : t.inFlight = w.inFlight) : Moved w l t :=
  .around op calm (fun _ raised => .inl (inFlight ▸ raised))

theorem moved {w l t} (stepped : step w l = some t) : Moved w l t := by
  cases l with
  | join ssid pass =>
    simp only [step] at stepped
    split at stepped
    · cases Option.some.inj stepped
      exact aroundSame rfl (calmRefl _) rfl
    · rename_i cfg _
      split at stepped
      · cases Option.some.inj stepped
        exact aroundSame rfl (calmRefl _) rfl
      · rename_i free
        cases Option.some.inj stepped
        exact .entered cfg (by simpa using free) rfl rfl rfl
  | leave =>
    simp only [step] at stepped
    split at stepped <;> try contradiction
    rename_i free
    cases Option.some.inj stepped
    exact .leaving (by simpa using free) rfl rfl rfl
  | proceed err =>
    simp only [step] at stepped
    split at stepped <;> try contradiction
    · rename_i f pc running op
      cases Option.some.inj stepped
      exact .joined f pc err rfl op running rfl rfl rfl
    · rename_i held pc running op
      cases Option.some.inj stepped
      exact .left held pc err rfl op running rfl rfl rfl
  | raise e =>
    simp only [step] at stepped
    split at stepped <;> try contradiction
    rename_i may
    cases Option.some.inj stepped
    refine .around rfl (calmRefl _) (fun d raised => ?_)
    rcases List.mem_append.mp raised with old | new
    · exact .inl old
    · exact .inr (List.mem_singleton.mp new ▸ may)
  | deliver n err =>
    simp only [step] at stepped
    split at stepped <;> try contradiction
    rename_i e found
    cases Option.some.inj stepped
    have fewer : ∀ d ∈ w.inFlight.eraseIdx n, d ∈ w.inFlight := fun _ => List.mem_of_mem_eraseIdx
    by_cases address : ∃ used, e = .gotIp used
    · obtain ⟨used,rfl⟩ := address
      exact .addressed used n err rfl found rfl rfl fewer
    · exact .around rfl (handlerCalm (fun used eq => address ⟨used,eq⟩) err _)
        (fun d raised => .inl (fewer d raised))
  | timer err =>
    simp only [step] at stepped
    split at stepped <;> try contradiction
    cases Option.some.inj stepped
    exact aroundSame rfl (calmAfter (timerCalm err _) rfl rfl rfl id) rfl
  | watchdog getErr err =>
    cases Option.some.inj stepped
    exact aroundSame rfl (watchdogCalm getErr err _) rfl
  | supervisor on =>
    cases Option.some.inj stepped
    exact aroundSame rfl (supervisorCalm on _) rfl
  | retry err =>
    cases Option.some.inj stepped
    exact aroundSame rfl (retryCalm err _) rfl

end EpskcCommissioner.WifiOperation
