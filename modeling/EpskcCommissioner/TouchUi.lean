import EpskcCommissioner.BoundedQueue
import EpskcCommissioner.Machine
import EpskcCommissioner.WifiScan

/-! The touch UI: every button of every panel with its handler, and the worker on its way
through the scans and the QR job. A handler holds the LVGL lock; `rest` is what is left of it
behind its last access to what the worker shares. -/
namespace EpskcCommissioner.TouchUi
open WifiScan (ScanRec ApRecord)

/- `ba_entry_t` -/
structure BaEntry where
  name : List UInt8
  ip : List UInt8
  port : UInt16
  deriving DecidableEq, Repr

/- An entry of `s_aps`. Its string fits in its field. -/
abbrev ApEntry := {rec : ScanRec // rec.ssid.length ≤ 32}

def apEntry (ap : ApRecord) : ApEntry := ⟨ap.scanned,List.length_take_le _ _⟩

inductive Panel where
  | main | list | keypad | result | qr | camera | wifi | wpass | net | activity | share | dsqr
  | settings | screen | power | tset | name | about
  deriving DecidableEq, Repr

/- `ui_job_msg_t`, with what the two joins carry. `control` stands for the kinds that are not
the UI's own; what the others carry is not read here. -/
inductive Job where
  | scan | join (target : BaEntry) (code : List UInt8) | qr | cameraPreview | wifiScan | wifiJoin (ssid : List UInt8)
  | wifiLeave | form | share | forget | factoryReset
  | control
  deriving DecidableEq, Repr

def isUiJob : Job → Bool
  | .control => false
  | _ => true

/- The buttons by their panel. `other` is any other widget: a switch, a roller, a letter of a
keyboard. A row of a list is given by its place. -/
inductive Button where
  | homeJoin | create | manage | settings
  | wifiRow | screenRow | cameraRow | powerRow | threadRow | nameRow | aboutRow | reboot | factoryReset | settingsBack
  | screenBack | powerBack | tsetBack | aboutBack | nameCancel | nameReady
  | activity | share | dataset | forget | netBack | refreshMesh | activityBack
  | newCode | close | dsqrBack
  | wifiRescan | leave | wifiBack | ap (place : Nat) | wpassCancel | wpassReady
  | listRescan | listBack | ba (place : Nat)
  | digit (d : Fin 10) | backspace | ok | qrOpen | keypadBack
  | qrRetry | qrCancel | cameraRepeat | cameraBack | done
  | other (panel : Panel)
  deriving DecidableEq, Repr

def Button.panel : Button → Panel
  | .homeJoin | .create | .manage | .settings => .main
  | .wifiRow | .screenRow | .cameraRow | .powerRow | .threadRow | .nameRow | .aboutRow | .reboot | .factoryReset
  | .settingsBack => .settings
  | .screenBack => .screen
  | .powerBack => .power
  | .tsetBack => .tset
  | .aboutBack => .about
  | .nameCancel | .nameReady => .name
  | .activity | .share | .dataset | .forget | .netBack => .net
  | .refreshMesh | .activityBack => .activity
  | .newCode | .close => .share
  | .dsqrBack => .dsqr
  | .wifiRescan | .leave | .wifiBack | .ap _ => .wifi
  | .wpassCancel | .wpassReady => .wpass
  | .listRescan | .listBack | .ba _ => .list
  | .digit _ | .backspace | .ok | .qrOpen | .keypadBack => .keypad
  | .qrRetry | .qrCancel => .qr
  | .cameraRepeat | .cameraBack => .camera
  | .done => .result
  | .other panel => panel

/- The table of a scan with the number of its entries, and the list on its panel: a row keeps
the index of an entry and shows what the entry was. -/
structure Results (α : Type) (n : Nat) where
  table : Fin n → α
  count : Fin (n + 1)
  rows : List (Fin n × α)
  hidden : Bool

section Results
variable {α : Type} {n : Nat}

def Results.empty (a : α) : Results α n := ⟨fun _ => a,⟨0,Nat.zero_lt_succ n⟩,[],false⟩

def Results.store (i : Fin n) (a : α) (r : Results α n) : Results α n :=
  {r with table := fun j => if j = i then a else r.table j}

def Results.counted (count : Fin (n + 1)) (r : Results α n) : Results α n := {r with count := count}

def Results.clean (r : Results α n) : Results α n := {r with rows := []}

def Results.hide (r : Results α n) : Results α n := {r with hidden := true}

/- `finish_scan` and `finish_wifi_scan` -/
def Results.build (r : Results α n) : Results α n :=
  {r with
    rows := ((List.finRange n).filter fun i => i.val < r.count.val).map fun i => (i,r.table i)
    hidden := r.count.val == 0}

def Results.row (r : Results α n) (place : Nat) : Option (Fin n × α) :=
  if r.hidden then none else r.rows[place]?

end Results

/- The kinds whose branch of `worker` is followed step by step. -/
def Job.staged : Job → Bool
  | .scan | .wifiScan | .qr | .wifiLeave => true
  | _ => false

/- Where the worker is; the branches that reach nothing of this are one `body`. -/
inductive Worker where
  | idle
  | scanning | finishScan
  | wifiScanning | finishWifiScan
  | qrStart | qrFrame (i : Nat) | qrPoll (i : Nat) | qrCopy (digits : List UInt8) | qrStop (got : Bool) | qrShow (got : Bool)
  | leaving
  | body (job : {job : Job // job.staged = false})
  | ending (job : Job)
  deriving DecidableEq, Repr

def Worker.received : Job → Worker
  | .scan => .scanning
  | .wifiScan => .wifiScanning
  | .qr => .qrStart
  | .wifiLeave => .leaving
  | .join target code => .body ⟨.join target code,rfl⟩
  | .cameraPreview => .body ⟨.cameraPreview,rfl⟩
  | .wifiJoin ssid => .body ⟨.wifiJoin ssid,rfl⟩
  | .form => .body ⟨.form,rfl⟩
  | .share => .body ⟨.share,rfl⟩
  | .forget => .body ⟨.forget,rfl⟩
  | .factoryReset => .body ⟨.factoryReset,rfl⟩
  | .control => .body ⟨.control,rfl⟩

/- The rest of a handler: nothing, a panel to show, the list to hide first, the end of
`on_qr_cancel`, or `app_reboot`. -/
inductive Rest where
  | stay | shows (panel : Panel) | lists | cancels | reboots
  deriving DecidableEq, Repr

/- `s_armed`, and when `s_arm_timer` was made. -/
structure Arm where
  armed : Option Button
  timer : Option Nat
  deriving DecidableEq, Repr

/- What was shown on the rows that were tapped last, the last tap, and whether a QR job that is
not over was cancelled. Nothing that happens depends on these. -/
structure Past where
  row : Option BaEntry
  ap : Option ApEntry
  tap : Option (Button × Nat)
  cancelled : Bool

structure Touch where
  panel : Panel
  haveWifi : Bool
  created : Bool
  jobs : BoundedQueue Job 4
  uiJobBusy : Bool
  worker : Worker
  rest : Option Rest
  found : Results BaEntry 8
  aps : Results ApEntry 12
  target : BaEntry
  joinSsid : List UInt8
  code : List UInt8
  qrAbort : Bool
  arm : Arm
  clock : Nat
  past : Past

/- `queue_ui_job`. No job of the UI is under way where the flag is clear, so the flag and the
queue change at once. -/
def queueUiJob (job : Job) (s : Touch) : Option Touch :=
  if s.uiJobBusy || !s.created then none
  else (s.jobs.send job).map fun jobs => {s with jobs := jobs, uiJobBusy := true}

def queueing (job : Job) (accepted refused : Rest) (s : Touch) : Touch × Rest :=
  match queueUiJob job s with
  | some s => (s,accepted)
  | none => (s,refused)

/- `xQueueSend` of another kind, with no regard to whether there is room. -/
def sendControl (s : Touch) : Touch :=
  if s.created then
    match s.jobs.send .control with
    | some jobs => {s with jobs := jobs}
    | none => s
  else s

def disarm : Arm := ⟨none,none⟩

def confirmTap (btn : Button) (now : Nat) (a : Arm) : Arm × Bool :=
  if a.armed = some btn then (disarm,true) else (⟨some btn,some now⟩,false)

/- A handler that begins with `confirm_tap`. -/
def confirming (btn : Button) (confirmed : Touch → Touch × Rest) (s : Touch) : Touch × Rest :=
  let (arm,yes) := confirmTap btn s.clock s.arm
  if yes then confirmed {s with arm := arm} else ({s with arm := arm},.stay)

/- A handler that shows a panel and does nothing else that counts here. -/
def showing (panel : Panel) (s : Touch) : Touch × Rest := (s,.shows panel)

def onBackMain := showing .main
def onSettingsOpen := showing .settings
def onNetOpen := showing .net
def onActivityOpen := showing .activity
def onBackList := showing .list
def onScreenOpen := showing .screen
def onPowerOpen := showing .power
def onTsetOpen := showing .tset
def onNameOpen := showing .name
def onAboutOpen := showing .about
def onDsqrClose := showing .net

/- The next two ask the stack first: whether there is a dataset, and whether it is attached. -/
def onDsqrOpen (stored : Bool) (s : Touch) : Touch × Rest := if stored then (s,.shows .dsqr) else (s,.stay)

def beginShare (attached : Bool) (s : Touch) : Touch × Rest :=
  if !attached then (s,.stay) else queueing .share .stay .stay {s with panel := .share}

def onShareClose (s : Touch) : Touch × Rest := (sendControl s,.shows .net)

/- `saved`: the name is not empty, and the settings have taken it. -/
def onNameReady (saved : Bool) (s : Touch) : Touch × Rest :=
  if saved then (sendControl s,.shows .settings) else (s,.stay)

def onWifiOpen (s : Touch) : Touch × Rest :=
  queueing .wifiScan .stay .stay {s with aps := s.aps.clean, panel := .wifi}

def onScan (s : Touch) : Touch × Rest :=
  if !s.haveWifi then onWifiOpen s else queueing .scan .lists .stay s

def onGenerate := confirming .create (queueing .form .stay .stay)
def onForget := confirming .forget (queueing .forget (.shows .main) .stay)
def onWifiLeave := confirming .leave (queueing .wifiLeave .stay .stay)
def onFactoryReset := confirming .factoryReset (queueing .factoryReset (.shows .main) .stay)
def onReboot := confirming .reboot fun s => (s,.reboots)

def onPick (idx : Fin 8) (s : Touch) : Touch × Rest :=
  if s.found.count.val ≤ idx.val then (s,.stay)
  else ({s with target := s.found.table idx, code := []},.shows .keypad)

def onWifiPick (idx : Fin 12) (s : Touch) : Touch × Rest :=
  if s.aps.count.val ≤ idx.val then (s,.stay)
  else ({s with joinSsid := (s.aps.table idx).1.ssid.take 32},.shows .wpass)

def onKeypadBackspace (s : Touch) : Touch × Rest := ({s with code := s.code.dropLast},.stay)

def onKeypadOk (s : Touch) : Touch × Rest :=
  if s.code.length = 9 then queueing (.join s.target s.code) (.shows .result) .stay s else (s,.stay)

def onKeypadDigit (d : Fin 10) (s : Touch) : Touch × Rest :=
  if s.code.length < 9 then ({s with code := s.code ++ [0x30 + UInt8.ofNat d.val]},.stay) else (s,.stay)

def onWpassReady (s : Touch) : Touch × Rest := queueing (.wifiJoin (s.joinSsid.take 32)) (.shows .main) .stay s

def onQrOpen (s : Touch) : Touch × Rest :=
  if s.uiJobBusy || !s.created then (s,.stay)
  else
    match queueUiJob .qr {s with qrAbort := false} with
    | some s => (s,.shows .qr)
    | none => ({s with qrAbort := true},.stay)

def onQrCancel (s : Touch) : Touch × Rest := ({s with qrAbort := true},.cancels)

def onCameraOpen (s : Touch) : Touch × Rest := queueing .cameraPreview (.shows .camera) (.shows .camera) s

def onCameraCancel := showing .settings

/- The handler of a button. `yes` is what it is told by what is not modelled. -/
def press (btn : Button) (yes : Bool) (s : Touch) : Touch × Rest :=
  match btn with
  | .homeJoin | .listRescan => onScan s
  | .create => onGenerate s
  | .manage | .activityBack => onNetOpen s
  | .settings | .screenBack | .powerBack | .tsetBack | .aboutBack | .wifiBack => onSettingsOpen s
  | .wifiRow | .wifiRescan => onWifiOpen s
  | .screenRow => onScreenOpen s
  | .cameraRow | .cameraRepeat => onCameraOpen s
  | .powerRow => onPowerOpen s
  | .threadRow => onTsetOpen s
  | .nameRow => onNameOpen s
  | .aboutRow => onAboutOpen s
  | .reboot => onReboot s
  | .factoryReset => onFactoryReset s
  | .settingsBack | .netBack | .listBack | .done => onBackMain s
  | .nameCancel => showing .settings s
  | .nameReady => onNameReady yes s
  | .activity => onActivityOpen s
  | .share | .newCode => beginShare yes s
  | .dataset => onDsqrOpen yes s
  | .forget => onForget s
  | .close => onShareClose s
  | .dsqrBack => onDsqrClose s
  | .leave => onWifiLeave s
  | .ap place => match s.aps.row place with
    | some (idx,_) => onWifiPick idx s
    | none => (s,.stay)
  | .wpassCancel => showing .wifi s
  | .wpassReady => onWpassReady s
  | .ba place => match s.found.row place with
    | some (idx,_) => onPick idx s
    | none => (s,.stay)
  | .digit d => onKeypadDigit d s
  | .backspace => onKeypadBackspace s
  | .ok => onKeypadOk s
  | .qrOpen | .qrRetry => onQrOpen s
  | .keypadBack => onBackList s
  | .qrCancel => onQrCancel s
  | .cameraBack => onCameraCancel s
  | .refreshMesh | .other _ => (s,.stay)

/- The loop of `digits_from_payload`, and what it returns. -/
def digitsLoop : (payload out : List UInt8) → List UInt8
  | [], out => out
  | b :: rest, out =>
    if out.length < 9 then digitsLoop rest (if 0x30 ≤ b ∧ b ≤ 0x39 then out ++ [b] else out) else out

def digitsFromPayload (payload : List UInt8) : List UInt8 × Bool :=
  let digits := digitsLoop payload []
  (digits,digits.length == 9)

/- A step of the worker, with the answers it gets. `store` and `storeAp` are the writes of
`discover_border_agents` and `app_wifi_scan`, `found` and `listed` what they return. -/
inductive Work where
  | receive
  | store (i : Fin 8) (entry : BaEntry) | found (count : Fin 9) | build
  | storeAp (i : Fin 12) (ap : ApRecord) | listed (count : Fin 13) | buildAps
  | start (ok : Bool) | check | poll (payload : Option (List UInt8)) | copy | stop | show
  | leave (ok : Bool)
  | finish
  | giveBack

def Work.locked : Work → Bool
  | .build | .buildAps | .show | .leave _ => true
  | _ => false

def maxFrames : Nat := 400

/- `worker` -/
def work (w : Work) (s : Touch) : Option Touch :=
  match s.worker, w with
  | .idle, .receive => s.jobs.receive.map fun (job,jobs) => {s with jobs := jobs, worker := .received job}
  | .scanning, .store i entry => some {s with found := s.found.store i entry}
  | .scanning, .found count => some {s with found := s.found.counted count, worker := .finishScan}
  | .finishScan, .build => some {s with found := s.found.build, worker := .ending .scan}
  | .wifiScanning, .storeAp i ap => some {s with aps := s.aps.store i (apEntry ap)}
  | .wifiScanning, .listed count => some {s with aps := s.aps.counted count, worker := .finishWifiScan}
  | .finishWifiScan, .buildAps => some {s with aps := s.aps.build, worker := .ending .wifiScan}
  | .qrStart, .start ok => some {s with worker := if ok then .qrFrame 0 else .ending .qr}
  | .qrFrame i, .check => some {s with worker := if i < maxFrames ∧ s.qrAbort = false then .qrPoll i else .qrStop false}
  | .qrPoll i, .poll none => some {s with worker := .qrFrame (i + 1)}
  | .qrPoll i, .poll (some payload) =>
    let (digits,nine) := digitsFromPayload payload
    some {s with worker := if nine then .qrCopy digits else .qrFrame (i + 1)}
  | .qrCopy digits, .copy => some {s with code := digits, worker := .qrStop true}
  | .qrStop got, .stop => some {s with worker := .qrShow got}
  | .qrShow got, .show => some {s with panel := if got then .keypad else s.panel, worker := .ending .qr}
  | .leaving, .leave ok => some {s with aps := if ok then s.aps.hide else s.aps, worker := .ending .wifiLeave}
  | .body job, .finish => some {s with worker := .ending job.1}
  | .ending job, .giveBack =>
    some {s with
      worker := .idle
      uiJobBusy := if isUiJob job then false else s.uiJobBusy
      past := {s.past with cancelled := if job = .qr then false else s.past.cancelled}}
  | _, _ => none

def Worker.job : Worker → Option Job
  | .idle | .ending _ => none
  | .scanning | .finishScan => some .scan
  | .wifiScanning | .finishWifiScan => some .wifiScan
  | .qrStart | .qrFrame _ | .qrPoll _ | .qrCopy _ | .qrStop _ | .qrShow _ => some .qr
  | .leaving => some .wifiLeave
  | .body job => some job.1

def pending (job : Job) (s : Touch) : Bool := decide (job ∈ s.jobs.items ∨ s.worker.job = some job)

/- What is left of a handler; `app_reboot` does not return. -/
def finishHandler (s : Touch) : Option Touch :=
  match s.rest with
  | none | some .reboots => none
  | some .stay => some {s with rest := none}
  | some (.shows panel) => some {s with panel := panel, rest := none}
  | some .lists => some {s with found := s.found.hide, panel := .list, rest := none}
  | some .cancels => some {s with panel := .keypad, rest := none, past := {s.past with cancelled := pending .qr s}}

def noted (btn : Button) (s : Touch) (past : Past) : Past :=
  match btn with
  | .ba place => {past with row := (s.found.row place).map Prod.snd, tap := some (btn,s.clock)}
  | .ap place => {past with ap := (s.aps.row place).map Prod.snd, tap := some (btn,s.clock)}
  | _ => {past with tap := some (btn,s.clock)}

def tappable (btn : Button) (s : Touch) : Bool :=
  decide (btn.panel = s.panel) &&
    match btn with
    | .ba place => (s.found.row place).isSome
    | .ap place => (s.aps.row place).isSome
    | _ => true

def armDue (s : Touch) : Bool :=
  match s.arm.timer with
  | some since => since + 3000 ≤ s.clock
  | none => false

/- `control` is a job that another task queues, `wifi` what `ui_set_wifi` is told, `dataset`
the console's `ui_show_dataset`. LVGL runs a timer that is due before it handles a tap. -/
inductive Label where
  | tap (btn : Button) (yes : Bool)
  | handler
  | work (w : Work)
  | expire
  | wait (ms : Nat)
  | control
  | wifi (connected : Bool)
  | dataset

def step (s : Touch) : Label → Option Touch
  | .tap btn yes =>
    if s.rest = none ∧ tappable btn s ∧ armDue s = false then
      let (t,rest) := press btn yes s
      some {t with rest := some rest, past := noted btn s t.past}
    else none
  | .handler => finishHandler s
  | .work w => if w.locked ∧ s.rest ≠ none then none else work w s
  | .expire => if s.rest = none ∧ armDue s then some {s with arm := disarm} else none
  | .wait ms => some {s with clock := s.clock + ms}
  | .control => if s.created then some (sendControl s) else none
  | .wifi connected => some {s with haveWifi := connected}
  | .dataset => if s.rest = none then some {s with panel := .result} else none

def noEntry : BaEntry := ⟨[],[],0⟩
def noAp : ApEntry := ⟨⟨[],0,false⟩,Nat.zero_le _⟩

def boot (created : Bool) : Touch where
  panel := .main
  haveWifi := false
  created := created
  jobs := .empty
  uiJobBusy := false
  worker := .idle
  rest := none
  found := .empty noEntry
  aps := .empty noAp
  target := noEntry
  joinSsid := []
  code := []
  qrAbort := false
  arm := disarm
  clock := 0
  past := ⟨none,none,none,false⟩

def touchUi : Machine Touch Label := ⟨fun s => ∃ created, s = boot created,step⟩

def agent : BaEntry := ⟨[0x41],[0x31],49155⟩

def pickAgent : List Label :=
  [.wifi true,.tap .homeJoin true,.work .receive,.handler,.work (.store 0 agent),.work (.found 1),.work .build,
    .work .giveBack,.tap (.ba 0) true,.handler]

def agentFound : Results BaEntry 8 := (((Results.empty noEntry).store 0 agent).counted 1).build

end EpskcCommissioner.TouchUi
