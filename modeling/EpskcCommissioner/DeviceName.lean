import EpskcCommissioner.BoundedQueue
import EpskcCommissioner.Durable
import EpskcCommissioner.RestNode
import EpskcCommissioner.ShareRecord

/-! The name of the device: `on_name_kb` and `cmd_name` store it and hand it to the worker, whose
`app_apply_device_name` gives it to the border router and to Matter. The start of the border
router and `matter_init` read it from the flash. What mdns advertises changes under the
OpenThread lock only, also where the prebuilt library does it. The factory reset, behind which
the device boots, is not part of this. -/
namespace EpskcCommissioner.DeviceName
open WifiDriver (EspErr espOk espFail)
open RestNode (espErrInvalidSize)
open ShareRecord (KeyState)

def espErrNvsNotFound : EspErr := 0x1102
def espErrNvsInvalidLength : EspErr := 0x110c

def settingsDeviceNameMaxLen : Nat := 32

/- What `settings_set_device_name` takes, and `thread_set_border_router_name` and
`matter_set_border_router_name` after it. -/
abbrev Name := {text : List UInt8 // text ≠ [] ∧ text.length ≤ settingsDeviceNameMaxLen}

def settingsDefaultDeviceName : Name :=
  ⟨[0x63,0x6f,0x72,0x65,0x73,0x33,0x2d,0x74,0x68,0x72,0x65,0x61,0x64,0x2d,0x62,0x72],by decide⟩

/- `nvs_get_str` of "host" into a buffer of SETTINGS_DEVICE_NAME_BUFFER_SIZE. -/
def nvsGetStr (stored : Option (List UInt8)) : Except EspErr (List UInt8) :=
  match stored with
  | none => .error espErrNvsNotFound
  | some text => if text.length ≤ settingsDeviceNameMaxLen then .ok text else .error espErrNvsInvalidLength

/- The buffer of every caller has SETTINGS_DEVICE_NAME_BUFFER_SIZE bytes. -/
def settingsGetDeviceName (opened : EspErr) (got : Except EspErr (List UInt8)) : Name × EspErr :=
  if opened = espErrNvsNotFound then (settingsDefaultDeviceName,espOk)
  else if opened ≠ espOk then (settingsDefaultDeviceName,opened)
  else
    match got with
    | .error err => (settingsDefaultDeviceName,if err = espErrNvsNotFound then espOk else err)
    | .ok text =>
      if fits : text ≠ [] ∧ text.length ≤ settingsDeviceNameMaxLen then (⟨text,fits⟩,espOk)
      else (settingsDefaultDeviceName,espErrInvalidSize)

abbrev Flash := Durable Unit (Option (List UInt8))

def saved (flash : Flash) : Name := (settingsGetDeviceName espOk (nvsGetStr (flash.seen ()))).1

/- `on_name_kb` on the task of LVGL, and `cmd_name` on that of the console. -/
inductive Who where
  | ui | console
  deriving DecidableEq, Repr

/- On its way through `settings_set_device_name`, at the queue, or in `ui_run_on_worker`. -/
inductive Saver where
  | idle | setting (n : Name) | committing (n : Name) | sending (n : Name) | waiting
  deriving DecidableEq, Repr

/- JOB_RENAME or the JOB_CALL of `do_apply_name`, JOB_BR_START, and any other. -/
inductive Job where
  | rename (who : Who) (n : Name) | brStart | other
  deriving DecidableEq, Repr

/- Where `app_apply_device_name` is: before the store of `s_border_router_name`, before the
OpenThread lock, before `SetThreadBorderRouterName`, before `apply_node_label`. -/
inductive Place where
  | buffer | mesh | delegate | label
  deriving DecidableEq, Repr

inductive Worker where
  | idle | starting | applying (who : Who) (n : Name) (place : Place)
  deriving DecidableEq, Repr

/- `run_border_router_start_claimed`: behind the claim, the name, `esp_openthread_set_meshcop_instance_name`
and the part under the lock. -/
inductive Starting where
  | none | claimed | loaded | named | ready
  deriving DecidableEq, Repr

/- `matter_init`: behind the name, and behind `s_started`. -/
inductive Matter where
  | before | atWork (n : Name) | labelling (n : Name) | done | failed
  deriving DecidableEq, Repr

/- `s_started` of `matter.cpp`. -/
def Matter.started : Matter → Bool
  | .labelling _ | .done => true
  | .before | .atWork _ | .failed => false

/- What `thread.c`, OpenThread and mdns have. `instanceName` is the library's, `record` and
`shareRecord` are the names of `_meshcop` and of `_meshcop-e` while mdns advertises them, and
`shareRecord.isSome` is `s_meshcop_e_published`. -/
structure Border where
  ready : Bool
  starting : Starting
  started : Bool
  borderRouterName : Name
  instanceName : Name
  record : Option Name
  shareRecord : Option Name
  attached : Bool
  agent : Bool
  key : KeyState

structure Device where
  booted : Bool
  flash : Flash
  savers : Who → Saver
  jobs : BoundedQueue Job 4
  worker : Worker
  border : Border
  matter : Matter
  tbrName : Name
  nodeLabel : Name

/- `ok` is whether what the step calls works. `fallback` is the task that `thread.c` makes where
`ui_defer_br_start` fails, and `controller` is a write of the attribute over Matter. -/
inductive Label where
  | boot (instanceName : Name)
  | threadInit
  | matterInit (ok : Bool)
  | matterStep (ok : Bool)
  | save (who : Who) (text : List UInt8)
  | saveStep (who : Who) (ok : Bool)
  | enqueue (start : Bool)
  | fallback
  | startStep (ok : Bool)
  | receive
  | work (ok published : Bool)
  | role (attached agent : Bool)
  | library (publishes : Bool)
  | serviceChanged (ok : Bool)
  | key (next : KeyState)
  | shareChanged
  | controller (n : Name)
  | cut (kept : Unit → Bool) (nodeLabel : Name)

def borderOff : Border where
  ready := false
  starting := .none
  started := false
  borderRouterName := settingsDefaultDeviceName
  instanceName := settingsDefaultDeviceName
  record := none
  shareRecord := none
  attached := false
  agent := false
  key := .disabled

def off (flash : Flash) (nodeLabel : Name) : Device :=
  ⟨false,flash,fun _ => .idle,.empty,.idle,borderOff,.before,settingsDefaultDeviceName,nodeLabel⟩

def Device.saver (who : Who) (now : Saver) (s : Device) : Device := {s with savers := Function.update s.savers who now}

/- The checks of `settings_set_device_name`. -/
def save (who : Who) (text : List UInt8) (s : Device) : Device :=
  if fits : text ≠ [] ∧ text.length ≤ settingsDeviceNameMaxLen then s.saver who (.setting ⟨text,fits⟩) else s

/- A queue without room is no success either. `cmd_name` waits for the worker. -/
def saveStep (who : Who) (ok : Bool) (s : Device) : Option Device :=
  match s.savers who with
  | .idle | .waiting => none
  | .setting n =>
    if ok then some ({s with flash := s.flash.write () (some n.1)}.saver who (.committing n))
    else some (s.saver who .idle)
  | .committing n =>
    if ok then some ({s with flash := s.flash.commit}.saver who (.sending n)) else some (s.saver who .idle)
  | .sending n =>
    if ok then (s.jobs.send (.rename who n)).map fun jobs =>
      {s with jobs := jobs}.saver who (if who = Who.console then .waiting else .idle)
    else some (s.saver who .idle)

def shareStateCb (b : Border) : Border :=
  if b.key.active ∧ b.shareRecord = none then {b with shareRecord := some b.instanceName}
  else if (b.key = .stopped ∨ b.key = .disabled) ∧ b.shareRecord ≠ none then {b with shareRecord := none}
  else b

/- The part of `thread_set_border_router_name` under the lock. -/
def publishName (ok published : Bool) (b : Border) : Border :=
  let named := if ok then b.borderRouterName else b.instanceName
  let record := if ok ∧ b.attached ∧ published then some b.borderRouterName else none
  shareStateCb {b with shareRecord := none, instanceName := named, record := record}

/- The worker is through with a job of `who`, and gives `s_call_done` where it is a JOB_CALL. -/
def finishRename (who : Who) (s : Device) : Device :=
  let given := who = .console ∧ s.savers .console = .waiting
  {s with worker := .idle, savers := if given then Function.update s.savers .console .idle else s.savers}

/- `app_apply_device_name` -/
def work (ok published : Bool) (s : Device) : Option Device :=
  match s.worker with
  | .idle | .starting => none
  | .applying who n .buffer =>
    some {s with border := {s.border with borderRouterName := n}, worker := .applying who n .mesh}
  | .applying who n .mesh =>
    let border := if !s.border.ready || !s.border.started then s.border else publishName ok published s.border
    some {s with border := border, worker := .applying who n .delegate}
  | .applying who n .delegate =>
    if s.matter.started then some {s with tbrName := n, worker := .applying who n .label}
    else some (finishRename who s)
  | .applying who n .label => some (finishRename who (if ok then {s with nodeLabel := n} else s))

/- `claim_border_router_start` behind its callers' check. -/
def claims (b : Border) : Bool := b.ready && !b.started && b.starting == .none

def receive (s : Device) : Option Device :=
  match s.worker,s.jobs.receive with
  | .idle,some (.rename who n,jobs) => some {s with jobs := jobs, worker := .applying who n .buffer}
  | .idle,some (.brStart,jobs) =>
    if claims s.border then
      some {s with jobs := jobs, worker := .starting, border := {s.border with starting := .claimed}}
    else some {s with jobs := jobs}
  | .idle,some (.other,jobs) => some {s with jobs := jobs}
  | _,_ => none

/- `finish_border_router_start`, and its caller returns. -/
def finishStart (started : Bool) (s : Device) : Device :=
  {s with border := {s.border with started := started, starting := .none}
          worker := if s.worker = .starting then .idle else s.worker}

/- `run_border_router_start_claimed` -/
def startStep (ok : Bool) (s : Device) : Option Device :=
  match s.border.starting with
  | .none => none
  | .claimed =>
    let (n,_) := settingsGetDeviceName (if ok then espOk else espFail) (nvsGetStr (s.flash.seen ()))
    some {s with border := {s.border with borderRouterName := n, starting := .loaded}}
  | .loaded =>
    if ok then some {s with border := {s.border with instanceName := s.border.borderRouterName, starting := .named}}
    else some (finishStart false s)
  | .named =>
    if ok then some {s with border := {s.border with record := none, starting := .ready}} else some (finishStart false s)
  | .ready => some (finishStart true s)

/- `meshcop_service_changed_cb`, which the start has set. -/
def serviceChanged (ok : Bool) (b : Border) : Border :=
  if (b.starting = .ready ∨ b.started) ∧ b.agent ∧ b.record = none ∧ ok then
    {b with record := some b.borderRouterName}
  else b

def matterStep (ok : Bool) (s : Device) : Option Device :=
  match s.matter with
  | .atWork n => if ok then some {s with tbrName := n, matter := .labelling n} else some {s with matter := .failed}
  | .labelling n => some {s with nodeLabel := if ok then n else s.nodeLabel, matter := .done}
  | .before | .done | .failed => none

/- A key begins only where the border router has been started. -/
def step (s : Device) : Label → Option Device
  | .boot instanceName =>
    if s.booted then none
    else some {s with booted := true, border := {s.border with instanceName := instanceName}}
  | .cut kept nodeLabel => some (off (s.flash.cut kept) nodeLabel)
  | l =>
    if !s.booted then none
    else
      match l with
      | .threadInit => some {s with border := {s.border with ready := true}}
      | .matterInit ok =>
        if s.matter = .before then
          let (n,_) := settingsGetDeviceName (if ok then espOk else espFail) (nvsGetStr (s.flash.seen ()))
          some {s with matter := .atWork n}
        else none
      | .matterStep ok => matterStep ok s
      | .save who text => if s.savers who = .idle then some (save who text s) else none
      | .saveStep who ok => saveStep who ok s
      | .enqueue start => (s.jobs.send (if start then .brStart else .other)).map fun jobs => {s with jobs := jobs}
      | .fallback => if claims s.border then some {s with border := {s.border with starting := .claimed}} else none
      | .startStep ok => startStep ok s
      | .receive => receive s
      | .work ok published => work ok published s
      | .role attached agent => some {s with border := {s.border with attached := attached, agent := agent}}
      | .library publishes =>
        some {s with border := {s.border with record := if publishes then some s.border.instanceName else none}}
      | .serviceChanged ok => some {s with border := serviceChanged ok s.border}
      | .key next =>
        if next.active && !s.border.started then none else some {s with border := {s.border with key := next}}
      | .shareChanged => some {s with border := shareStateCb s.border}
      | .controller n => if s.matter.started then some {s with nodeLabel := n} else none
      | .boot _ | .cut _ _ => none

def device : Machine Device Label := ⟨fun s => ∃ content nodeLabel, s = off (.settled content) nodeLabel,step⟩

/- The border router is started by the worker, and what the start and the worker call works. -/
def served : Label → Bool
  | .startStep ok | .work ok _ => ok
  | .fallback => false
  | _ => true

def Served (_ : Device) (l : Label) : Prop := served l = true

instance (s : Device) (l : Label) : Decidable (Served s l) := inferInstanceAs (Decidable (_ = _))

/- mdns advertises the name of `thread.c`. -/
structure Published (b : Border) : Prop where
  named : b.instanceName = b.borderRouterName
  records : ∀ n, b.record = some n ∨ b.shareRecord = some n → n = b.borderRouterName

def Worker.moving : Worker → Bool
  | .applying _ _ .mesh => true
  | _ => false

/- Nobody renames while the border router starts, and no key is there before it has started. -/
structure Advertised (booted : Bool) (worker : Worker) (b : Border) : Prop where
  down : booted = false → b.started = false ∧ b.starting = .none
  going : b.starting ≠ .none → worker = .starting ∧ b.ready = true ∧ b.started = false
  ready : b.started = true → b.ready = true
  early : b.started = false → b.key.active = false ∧ b.shareRecord = none
  named : b.starting = .named → b.instanceName = b.borderRouterName
  published : b.starting = .ready ∨ b.started = true → worker.moving = false → Published b

variable {s t : Device} {l : Label} {who : Who} {n : Name} {b : Border} {booted : Bool} {worker : Worker}

theorem savedWritten (flash : Flash) (n : Name) : saved (flash.write () (some n.1)) = n := by
  simp [saved,settingsGetDeviceName,Durable.write,nvsGetStr,n.2,espOk,espErrNvsNotFound]

theorem shareStateRecord (b : Border) : ∃ r, shareStateCb b = {b with shareRecord := r} ∧
    (r = b.shareRecord ∨ r = none ∨ r = some b.instanceName ∧ b.key.active = true) := by
  unfold shareStateCb
  split
  · rename_i active
    exact ⟨_,rfl,.inr (.inr ⟨rfl,active.1⟩)⟩
  · split
    · exact ⟨_,rfl,.inr (.inl rfl)⟩
    · exact ⟨_,rfl,.inl rfl⟩

theorem publishedShare (published : Published b) : Published (shareStateCb b) := by
  obtain ⟨r,same,cases⟩ := shareStateRecord b
  rw [same]
  refine ⟨published.named,fun n shown => ?_⟩
  rcases shown with record | share
  · exact published.records n (.inl record)
  · rcases cases with old | none | ⟨fresh,_⟩
    · exact published.records n (.inr (old.symm.trans share))
    · cases none.symm.trans share
    · cases fresh.symm.trans share
      exact published.named

theorem namePublished (published : Bool) (b : Border) : Published (publishName true published b) := by
  refine publishedShare ⟨rfl,fun n shown => ?_⟩
  rcases shown with record | share
  · dsimp only at record
    split at record
    · exact (Option.some.inj record).symm
    · cases record
  · cases share

theorem publishNameKept (ok published : Bool) (b : Border) :
    (publishName ok published b).starting = b.starting ∧ (publishName ok published b).started = b.started ∧
      (publishName ok published b).ready = b.ready ∧
      (publishName ok published b).borderRouterName = b.borderRouterName := by
  obtain ⟨r,same,_⟩ := shareStateRecord {b with
    shareRecord := none
    instanceName := if ok then b.borderRouterName else b.instanceName
    record := if ok ∧ b.attached ∧ published then some b.borderRouterName else none}
  unfold publishName
  dsimp only
  rw [same]
  exact ⟨rfl,rfl,rfl,rfl⟩

theorem advertisedOff : Advertised false .idle borderOff where
  down _ := ⟨rfl,rfl⟩
  going begun := absurd rfl begun
  ready := nofun
  early _ := ⟨rfl,rfl⟩
  named := nofun
  published up := up.elim nofun nofun

theorem advertisedRecords {record shareRecord : Option Name} (adv : Advertised booted worker b)
    (early : b.started = false → shareRecord = none)
    (good : Published b → Published {b with record := record, shareRecord := shareRecord}) :
    Advertised booted worker {b with record := record, shareRecord := shareRecord} where
  down := adv.down
  going := adv.going
  ready := adv.ready
  early fresh := ⟨(adv.early fresh).1,early fresh⟩
  named := adv.named
  published up still := good (adv.published up still)

theorem advertisedShare (adv : Advertised booted worker b) : Advertised booted worker (shareStateCb b) := by
  have good := @publishedShare b
  obtain ⟨r,same,cases⟩ := shareStateRecord b
  rw [same] at good ⊢
  refine advertisedRecords adv (fun fresh => ?_) good
  rcases cases with old | none | ⟨_,active⟩
  · exact old.trans (adv.early fresh).2
  · exact none
  · exact absurd ((adv.early fresh).1.symm.trans active) Bool.false_ne_true

theorem advertisedChanged (adv : Advertised booted worker b) (ok : Bool) :
    Advertised booted worker (serviceChanged ok b) := by
  unfold serviceChanged
  split
  · refine advertisedRecords adv (fun fresh => (adv.early fresh).2) fun published => ?_
    refine ⟨published.named,fun n shown => ?_⟩
    rcases shown with record | share
    · exact (Option.some.inj record).symm
    · exact published.records n (.inr share)
  · exact adv

theorem advertisedLibrary (adv : Advertised booted worker b) (publishes : Bool) :
    Advertised booted worker {b with record := if publishes then some b.instanceName else none} := by
  refine advertisedRecords adv (fun fresh => (adv.early fresh).2) fun published => ?_
  refine ⟨published.named,fun n shown => ?_⟩
  rcases shown with record | share
  · cases publishes with
    | true =>
      cases Option.some.inj record
      exact published.named
    | false => cases record
  · exact published.records n (.inr share)

theorem advertisedWorker {next : Worker} (adv : Advertised booted worker b) (free : worker ≠ .starting)
    (still : next.moving = false → worker.moving = false) : Advertised booted next b where
  down := adv.down
  going begun := absurd (adv.going begun).1 free
  ready := adv.ready
  early := adv.early
  named := adv.named
  published up quiet := adv.published up (still quiet)

theorem claimsFree (claimed : claims b = true) : b.ready = true ∧ b.started = false ∧ b.starting = .none := by
  simp only [claims,Bool.and_eq_true,Bool.not_eq_true',beq_iff_eq] at claimed
  exact ⟨claimed.1.1,claimed.1.2,claimed.2⟩

theorem advertisedGoing {c : Border} (adv : Advertised booted worker b) (up : booted = true)
    (begun : b.starting ≠ .none) (ready : c.ready = b.ready) (started : c.started = b.started)
    (key : c.key = b.key ∧ c.shareRecord = b.shareRecord)
    (named : c.starting = .named → c.instanceName = c.borderRouterName)
    (published : c.starting = .ready → Published c) : Advertised booted worker c := by
  obtain ⟨here,set,fresh⟩ := adv.going begun
  have none := started.trans fresh
  refine ⟨fun down => absurd (up.symm.trans down) (by decide),fun _ => ⟨here,ready.trans set,none⟩,fun _ =>
    ready.trans set,fun _ => ?_,named,fun done _ => ?_⟩
  · rw [key.1, key.2]
    exact adv.early fresh
  · exact published (done.resolve_right fun wrong => absurd (none.symm.trans wrong) Bool.false_ne_true)

theorem advertisedFinish (adv : Advertised s.booted s.worker s.border) (up : s.booted = true)
    (done : s.border.starting = .ready) :
    Advertised s.booted (finishStart true s).worker (finishStart true s).border := by
  obtain ⟨here,set,_⟩ := adv.going (by rw [done]; exact Starting.noConfusion)
  have published := adv.published (.inl done) (by rw [here]; rfl)
  refine ⟨fun down => absurd (up.symm.trans down) (by decide),fun going => absurd rfl going,fun _ => set,nofun,nofun,
    fun _ _ => ⟨published.named,published.records⟩⟩

theorem advertisedStart (adv : Advertised s.booted s.worker s.border) (up : s.booted = true)
    (taken : startStep true s = some t) : Advertised t.booted t.worker t.border := by
  have begun : ∀ {place}, s.border.starting = place → place ≠ .none → s.border.starting ≠ .none :=
    fun here some => here ▸ some
  unfold startStep at taken
  cases place : s.border.starting with
  | none =>
    rw [place] at taken
    cases taken
  | claimed =>
    rw [place] at taken
    cases Option.some.inj taken
    exact advertisedGoing adv up (begun place nofun) rfl rfl ⟨rfl,rfl⟩ nofun nofun
  | loaded =>
    rw [place] at taken
    cases Option.some.inj taken
    exact advertisedGoing adv up (begun place nofun) rfl rfl ⟨rfl,rfl⟩ (fun _ => rfl) nofun
  | named =>
    rw [place] at taken
    cases Option.some.inj taken
    refine advertisedGoing adv up (begun place nofun) rfl rfl ⟨rfl,rfl⟩ nofun fun _ => ?_
    obtain ⟨_,_,fresh⟩ := adv.going (begun place nofun)
    refine ⟨adv.named place,fun n shown => shown.elim nofun fun share => ?_⟩
    cases (adv.early fresh).2.symm.trans share
  | ready =>
    rw [place] at taken
    cases Option.some.inj taken
    exact advertisedFinish adv up place

theorem advertisedWork {published : Bool} (adv : Advertised s.booted s.worker s.border)
    (taken : work true published s = some t) : Advertised t.booted t.worker t.border := by
  unfold work at taken
  cases here : s.worker with
  | idle | starting =>
    rw [here] at taken
    cases taken
  | applying who n place =>
    rw [here] at taken adv
    have rests : s.border.starting = .none := by
      by_contra going
      cases (adv.going going).1
    have ends : place ≠ .mesh → Advertised s.booted .idle s.border := by
      intro else_
      refine advertisedWorker adv Worker.noConfusion fun _ => ?_
      cases place with
      | mesh => exact absurd rfl else_
      | buffer | delegate | label => rfl
    cases place with
    | buffer =>
      cases Option.some.inj taken
      refine ⟨adv.down,fun going => absurd rests going,adv.ready,adv.early,fun wrong => ?_,nofun⟩
      cases rests.symm.trans wrong
    | mesh =>
      cases Option.some.inj taken
      dsimp only
      split
      · rename_i skipped
        refine ⟨adv.down,fun going => absurd rests going,adv.ready,adv.early,adv.named,fun up _ => ?_⟩
        have up := up.resolve_left fun wrong => nomatch rests.symm.trans wrong
        rw [adv.ready up, up] at skipped
        cases skipped
      · rename_i runs
        have started : s.border.started = true := by
          cases up : s.border.started with
          | true => rfl
          | false =>
            rw [up] at runs
            simp at runs
        obtain ⟨place,up,set,_⟩ := publishNameKept true published s.border
        refine ⟨fun down => ?_,fun going => ?_,fun _ => ?_,fun fresh => ?_,fun wrong => ?_,
          fun _ _ => namePublished ..⟩
        · cases (adv.down down).1.symm.trans started
        · exact absurd (place.trans rests) going
        · exact set.trans (adv.ready started)
        · cases fresh.symm.trans (up.trans started)
        · cases (place.trans rests).symm.trans wrong
    | delegate =>
      dsimp only at taken
      split at taken
      · cases Option.some.inj taken
        exact advertisedWorker adv Worker.noConfusion fun _ => rfl
      · cases Option.some.inj taken
        exact ends nofun
    | label =>
      cases Option.some.inj taken
      exact ends nofun

theorem advertisedReceive (adv : Advertised s.booted s.worker s.border) (up : s.booted = true)
    (taken : receive s = some t) : Advertised t.booted t.worker t.border := by
  unfold receive at taken
  split at taken
  · rename_i idle _
    cases Option.some.inj taken
    rw [idle] at adv
    exact advertisedWorker adv Worker.noConfusion fun _ => rfl
  · rename_i idle _
    rw [idle] at adv
    split at taken
    · rename_i claimed
      cases Option.some.inj taken
      obtain ⟨ready,fresh,_⟩ := claimsFree claimed
      refine ⟨fun down => absurd (up.symm.trans down) (by decide),fun _ => ⟨rfl,ready,fresh⟩,fun _ => ready,
        fun _ => adv.early fresh,nofun,fun done => ?_⟩
      exact absurd (done.resolve_left nofun) (by rw [fresh]; decide)
    · cases Option.some.inj taken
      rw [idle]
      exact adv
  · rename_i idle _
    cases Option.some.inj taken
    exact adv
  · cases taken

theorem bootedStep {next : Option Device} (taken : (if !s.booted then none else next) = some t) :
    s.booted = true ∧ next = some t := by
  cases up : s.booted with
  | false =>
    rw [up] at taken
    cases taken
  | true =>
    rw [up] at taken
    exact ⟨rfl,taken⟩

theorem saveFront {ok : Bool} (taken : saveStep who ok s = some t) :
    t.booted = s.booted ∧ t.worker = s.worker ∧ t.border = s.border := by
  unfold saveStep at taken
  cases saver : s.savers who with
  | idle | waiting =>
    rw [saver] at taken
    cases taken
  | setting n | committing n =>
    rw [saver] at taken
    cases ok <;> cases Option.some.inj taken <;> exact ⟨rfl,rfl,rfl⟩
  | sending n =>
    rw [saver] at taken
    cases ok with
    | true =>
      obtain ⟨jobs,_,rfl⟩ := Option.map_eq_some_iff.mp taken
      exact ⟨rfl,rfl,rfl⟩
    | false =>
      cases Option.some.inj taken
      exact ⟨rfl,rfl,rfl⟩

theorem matterFront {ok : Bool} (taken : matterStep ok s = some t) :
    t.booted = s.booted ∧ t.worker = s.worker ∧ t.border = s.border := by
  unfold matterStep at taken
  cases matter : s.matter with
  | before | done | failed =>
    rw [matter] at taken
    cases taken
  | atWork n =>
    rw [matter] at taken
    cases ok <;> cases Option.some.inj taken <;> exact ⟨rfl,rfl,rfl⟩
  | labelling n =>
    rw [matter] at taken
    cases Option.some.inj taken
    exact ⟨rfl,rfl,rfl⟩

theorem advertisedStep (adv : Advertised s.booted s.worker s.border) (good : Served s l) (taken : step s l = some t) :
    Advertised t.booted t.worker t.border := by
  cases l with
  | boot instanceName =>
    obtain ⟨down,same⟩ := Option.ite_none_left_eq_some.mp taken
    cases Option.some.inj same
    obtain ⟨fresh,rests⟩ := adv.down (Bool.eq_false_iff.mpr down)
    refine ⟨nofun,adv.going,adv.ready,adv.early,fun wrong => ?_,fun up => ?_⟩
    · cases rests.symm.trans wrong
    · rcases up with up | up
      · cases rests.symm.trans up
      · cases fresh.symm.trans up
  | cut kept nodeLabel =>
    cases Option.some.inj taken
    exact advertisedOff
  | threadInit =>
    obtain ⟨up,same⟩ := bootedStep taken
    cases Option.some.inj same
    refine ⟨adv.down,fun going => ?_,fun _ => rfl,adv.early,adv.named,fun up still => ?_⟩
    · obtain ⟨here,_,fresh⟩ := adv.going going
      exact ⟨here,rfl,fresh⟩
    · have published := adv.published up still
      exact ⟨published.named,published.records⟩
  | matterInit ok =>
    obtain ⟨up,same⟩ := bootedStep taken
    obtain ⟨_,same⟩ := Option.ite_none_right_eq_some.mp same
    cases Option.some.inj same
    exact adv
  | matterStep ok =>
    obtain ⟨up,same⟩ := bootedStep taken
    obtain ⟨booted,worker,border⟩ := matterFront same
    rw [booted, worker, border]
    exact adv
  | save who text =>
    obtain ⟨up,same⟩ := bootedStep taken
    obtain ⟨_,same⟩ := Option.ite_none_right_eq_some.mp same
    cases Option.some.inj same
    unfold save
    split <;> exact adv
  | saveStep who ok =>
    obtain ⟨up,same⟩ := bootedStep taken
    obtain ⟨booted,worker,border⟩ := saveFront same
    rw [booted, worker, border]
    exact adv
  | enqueue start =>
    obtain ⟨up,same⟩ := bootedStep taken
    obtain ⟨jobs,_,rfl⟩ := Option.map_eq_some_iff.mp same
    exact adv
  | fallback => cases good
  | startStep ok =>
    cases good
    obtain ⟨up,same⟩ := bootedStep taken
    exact advertisedStart adv up same
  | receive =>
    obtain ⟨up,same⟩ := bootedStep taken
    exact advertisedReceive adv up same
  | work ok published =>
    obtain rfl : ok = true := good
    obtain ⟨up,same⟩ := bootedStep taken
    exact advertisedWork adv same
  | role attached agent =>
    obtain ⟨up,same⟩ := bootedStep taken
    cases Option.some.inj same
    refine ⟨adv.down,adv.going,adv.ready,adv.early,adv.named,fun up still => ?_⟩
    have published := adv.published up still
    exact ⟨published.named,published.records⟩
  | library publishes =>
    obtain ⟨up,same⟩ := bootedStep taken
    cases Option.some.inj same
    exact advertisedLibrary adv publishes
  | serviceChanged ok =>
    obtain ⟨up,same⟩ := bootedStep taken
    cases Option.some.inj same
    exact advertisedChanged adv ok
  | key next =>
    obtain ⟨up,same⟩ := bootedStep taken
    obtain ⟨begun,same⟩ := Option.ite_none_left_eq_some.mp same
    cases Option.some.inj same
    refine ⟨adv.down,adv.going,adv.ready,fun fresh => ?_,adv.named,fun up still => ?_⟩
    · rw [show s.border.started = false from fresh] at begun
      exact ⟨by simpa using begun,(adv.early fresh).2⟩
    · have published := adv.published up still
      exact ⟨published.named,published.records⟩
  | shareChanged =>
    obtain ⟨up,same⟩ := bootedStep taken
    cases Option.some.inj same
    exact advertisedShare adv
  | controller n =>
    obtain ⟨up,same⟩ := bootedStep taken
    obtain ⟨_,same⟩ := Option.ite_none_right_eq_some.mp same
    cases Option.some.inj same
    exact adv

theorem reachedAdvertised (reached : device.Under Served s) : Advertised s.booted s.worker s.border := by
  refine underInvariant (fun s => Advertised s.booted s.worker s.border) ?_ ?_ reached
  · rintro s ⟨content,nodeLabel,rfl⟩
    exact advertisedOff
  · exact fun s l t adv good taken => advertisedStep adv good taken

/- In every run in which the worker starts the border router: behind the start, and while the
worker is not between the store of a new name and the OpenThread lock, whatever mdns advertises
of the border router carries the name of `thread.c`. -/
theorem publishedOne (reached : device.Under Served s) (started : s.border.started = true)
    (still : s.worker.moving = false) :
    s.border.instanceName = s.border.borderRouterName ∧
    ∀ n, s.border.record = some n ∨ s.border.shareRecord = some n → n = s.border.borderRouterName := by
  have published := (reachedAdvertised reached).published (.inr started) still
  exact ⟨published.named,published.records⟩

def porch : Name := ⟨[0x70,0x6f,0x72,0x63,0x68],by decide⟩

def blank : Device := off (.settled fun _ => none) settingsDefaultDeviceName

theorem blankStart : device.start blank := ⟨_,_,rfl⟩

def bringUp : List Label :=
  [.boot settingsDefaultDeviceName,.matterInit true,.matterStep true,.matterStep true,.threadInit,.enqueue true,
    .receive] ++ List.replicate 4 (.startStep true) ++ [.role true true,.library true]

def saving (who : Who) (n : Name) : List Label := [.save who n.1,.saveStep who true,.saveStep who true,.saveStep who true]

/- Shared, renamed, and not yet told to Matter. -/
theorem publishedOneShared : ∃ s, device.Under Served s ∧ s.border.shareRecord = some porch ∧
    s.border.instanceName = porch := by
  have all : device.Meets Served blank (bringUp ++ [.key .started,.shareChanged] ++ saving .ui porch ++
      [.receive,.work true true,.work true true]) := by decide +kernel
  have ran : (device.run blank (bringUp ++ [.key .started,.shareChanged] ++ saving .ui porch ++
      [.receive,.work true true,.work true true])).any
      (fun s => s.border.started && !s.worker.moving && s.border.shareRecord == some porch) = true := by
    decide +kernel
  obtain ⟨s,under,ends⟩ := underEnds Served blankStart all ran
  simp only [Bool.and_eq_true,Bool.not_eq_true',beq_iff_eq] at ends
  obtain ⟨⟨started,still⟩,shared⟩ := ends
  obtain ⟨named,records⟩ := publishedOne under started still
  exact ⟨s,under,shared,named.trans (records porch (.inr shared)).symm⟩

end EpskcCommissioner.DeviceName
