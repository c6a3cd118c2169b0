import EpskcCommissioner.TouchUi

/-! What a tap on the touch UI can do, and what a step of the worker can; and that the flag of
the UI's jobs is clear only where none is under way. -/
namespace EpskcCommissioner.TouchUi

/- The panels beside the keypad, the QR scanner and the Wi-Fi password. -/
def Aside (panel : Panel) : Prop := panel ≠ .keypad ∧ panel ≠ .qr ∧ panel ≠ .wpass

instance (panel : Panel) : Decidable (Aside panel) := by
  unfold Aside
  infer_instance

/- The ends of a handler that lead aside, or nowhere. -/
def Plain : Rest → Prop
  | .stay | .reboots => True
  | .shows panel => Aside panel
  | .lists | .cancels => False

instance (rest : Rest) : Decidable (Plain rest) := by
  cases rest <;> unfold Plain <;> infer_instance

/- The kinds that the results and the keypad do not depend on. -/
def Job.ordinary : Job → Bool
  | .cameraPreview | .wifiLeave | .form | .share | .forget | .factoryReset => true
  | _ => false

def Button.isRow : Button → Bool
  | .ba _ | .ap _ => true
  | _ => false

/- `queue_ui_job` has put a job into the queue. -/
def Queues (job : Job) (s t : Touch) : Prop :=
  s.uiJobBusy = false ∧ ∃ jobs, s.jobs.send job = some jobs ∧ t = {s with jobs := jobs, uiJobBusy := true}

/- Only the armed button may be another, or a panel shown that leads aside. -/
def Quiet (s t : Touch) : Prop :=
  ∃ arm panel, (panel = s.panel ∨ Aside panel) ∧ t = {s with arm := arm, panel := panel}

inductive Pressed (s : Touch) : Button → Touch → Rest → Prop where
  | plain {btn t rest} (noRow : btn.isRow = false) (quiet : Quiet s t) (plain : Plain rest) : Pressed s btn t rest
  | queued {btn t u rest} (noRow : btn.isRow = false) (quiet : Quiet s t) {job : Job} (ordinary : job.ordinary = true)
      (queues : Queues job t u) (plain : Plain rest) : Pressed s btn u rest
  | control {btn rest} (noRow : btn.isRow = false) (plain : Plain rest) : Pressed s btn (sendControl s) rest
  | scan {btn t} (noRow : btn.isRow = false) (aside : Aside s.panel) (queues : Queues .scan s t) : Pressed s btn t .lists
  | wifiOpen {btn} (noRow : btn.isRow = false) (aside : Aside s.panel) :
      Pressed s btn {s with aps := s.aps.clean, panel := .wifi} .stay
  | wifiScan {btn t} (noRow : btn.isRow = false) (aside : Aside s.panel)
      (queues : Queues .wifiScan {s with aps := s.aps.clean, panel := .wifi} t) : Pressed s btn t .stay
  | pick {place idx shown} (row : s.found.row place = some (idx,shown)) (inside : idx.val < s.found.count.val) :
      Pressed s (.ba place) {s with target := s.found.table idx, code := []} (.shows .keypad)
  | pickNone {place idx shown} (row : s.found.row place = some (idx,shown)) (outside : s.found.count.val ≤ idx.val) :
      Pressed s (.ba place) s .stay
  | wifiPick {place idx shown} (row : s.aps.row place = some (idx,shown)) (inside : idx.val < s.aps.count.val) :
      Pressed s (.ap place) {s with joinSsid := (s.aps.table idx).1.ssid.take 32} (.shows .wpass)
  | wifiPickNone {place idx shown} (row : s.aps.row place = some (idx,shown)) (outside : s.aps.count.val ≤ idx.val) :
      Pressed s (.ap place) s .stay
  | edit {btn} (noRow : btn.isRow = false) (code : List UInt8) : Pressed s btn {s with code := code} .stay
  | join {btn t} (noRow : btn.isRow = false) (here : s.panel = .keypad) (queues : Queues (.join s.target s.code) s t) :
      Pressed s btn t (.shows .result)
  | wifiJoin {btn t} (noRow : btn.isRow = false) (here : s.panel = .wpass)
      (queues : Queues (.wifiJoin (s.joinSsid.take 32)) s t) : Pressed s btn t (.shows .main)
  | qrOpen {btn t} (noRow : btn.isRow = false) (here : s.panel = .keypad ∨ s.panel = .qr)
      (queues : Queues .qr {s with qrAbort := false} t) : Pressed s btn t (.shows .qr)
  | qrFull {btn} (noRow : btn.isRow = false) (free : s.uiJobBusy = false) : Pressed s btn {s with qrAbort := true} .stay
  | qrCancel (here : s.panel = .qr) : Pressed s .qrCancel {s with qrAbort := true} .cancels

variable {s t u : Touch} {btn : Button} {rest accepted refused : Rest} {job : Job}

theorem queueCases (job : Job) (s : Touch) : queueUiJob job s = none ∨ ∃ t, queueUiJob job s = some t ∧ Queues job s t := by
  unfold queueUiJob
  split
  · exact .inl rfl
  · rename_i free
    have clear : s.uiJobBusy = false := (Bool.or_eq_false_iff.mp (eq_false_of_ne_true free)).1
    cases sent : s.jobs.send job with
    | none => exact .inl rfl
    | some jobs => exact .inr ⟨_,rfl,clear,jobs,sent,rfl⟩

theorem controlCases (s : Touch) : ∃ jobs, sendControl s = {s with jobs := jobs} ∧
    (jobs.items = s.jobs.items ∨ jobs.items = s.jobs.items ++ [.control]) := by
  unfold sendControl
  split
  · cases sent : s.jobs.send .control with
    | none => exact ⟨s.jobs,rfl,.inl rfl⟩
    | some jobs => exact ⟨jobs,rfl,.inr (BoundedQueue.sendItems sent)⟩
  · exact ⟨s.jobs,rfl,.inl rfl⟩

theorem quietSame (s : Touch) : Quiet s s := ⟨s.arm,s.panel,.inl rfl,rfl⟩

theorem quietArm (s : Touch) (arm : Arm) : Quiet s {s with arm := arm} := ⟨arm,s.panel,.inl rfl,rfl⟩

theorem showingPressed {panel : Panel} (noRow : btn.isRow = false) (aside : Aside panel) :
    Pressed s btn (showing panel s).1 (showing panel s).2 := .plain noRow (quietSame s) aside

theorem queueingPressed (noRow : btn.isRow = false) (quiet : Quiet s t) (ordinary : job.ordinary = true)
    (yes : Plain accepted) (no : Plain refused) :
    Pressed s btn (queueing job accepted refused t).1 (queueing job accepted refused t).2 := by
  unfold queueing
  rcases queueCases job t with none | ⟨u,some,queues⟩
  · rw [none]
    exact .plain noRow quiet no
  · rw [some]
    exact .queued noRow quiet ordinary queues yes

theorem confirmingPressed (noRow : btn.isRow = false) {confirmed : Touch → Touch × Rest}
    (goes : ∀ arm, Pressed s btn (confirmed {s with arm := arm}).1 (confirmed {s with arm := arm}).2) :
    Pressed s btn (confirming btn confirmed s).1 (confirming btn confirmed s).2 := by
  unfold confirming
  dsimp only
  split
  · exact goes _
  · exact .plain noRow (quietArm s _) trivial

theorem wifiOpenPressed (noRow : btn.isRow = false) (aside : Aside s.panel) :
    Pressed s btn (onWifiOpen s).1 (onWifiOpen s).2 := by
  unfold onWifiOpen queueing
  rcases queueCases .wifiScan {s with aps := s.aps.clean, panel := .wifi} with none | ⟨u,some,queues⟩
  · rw [none]
    exact .wifiOpen noRow aside
  · rw [some]
    exact .wifiScan noRow aside queues

theorem scanPressed (noRow : btn.isRow = false) (aside : Aside s.panel) :
    Pressed s btn (onScan s).1 (onScan s).2 := by
  unfold onScan
  split
  · exact wifiOpenPressed noRow aside
  · unfold queueing
    rcases queueCases .scan s with none | ⟨u,some,queues⟩
    · rw [none]
      exact .plain noRow (quietSame s) trivial
    · rw [some]
      exact .scan noRow aside queues

theorem sharePressed (noRow : btn.isRow = false) (attached : Bool) :
    Pressed s btn (beginShare attached s).1 (beginShare attached s).2 := by
  unfold beginShare
  split
  · exact .plain noRow (quietSame s) trivial
  · exact queueingPressed noRow ⟨s.arm,.share,.inr (by decide),rfl⟩ rfl trivial trivial

theorem qrPressed (noRow : btn.isRow = false) (here : s.panel = .keypad ∨ s.panel = .qr) :
    Pressed s btn (onQrOpen s).1 (onQrOpen s).2 := by
  unfold onQrOpen
  split
  · exact .plain noRow (quietSame s) trivial
  · rename_i free
    have clear : s.uiJobBusy = false := (Bool.or_eq_false_iff.mp (eq_false_of_ne_true free)).1
    rcases queueCases .qr {s with qrAbort := false} with none | ⟨u,some,queues⟩
    · rw [none]
      exact .qrFull noRow clear
    · rw [some]
      exact .qrOpen noRow here queues

theorem okPressed (noRow : btn.isRow = false) (here : s.panel = .keypad) :
    Pressed s btn (onKeypadOk s).1 (onKeypadOk s).2 := by
  unfold onKeypadOk queueing
  split
  · rcases queueCases (.join s.target s.code) s with none | ⟨u,some,queues⟩
    · rw [none]
      exact .plain noRow (quietSame s) trivial
    · rw [some]
      exact .join noRow here queues
  · exact .plain noRow (quietSame s) trivial

theorem wpassPressed (noRow : btn.isRow = false) (here : s.panel = .wpass) :
    Pressed s btn (onWpassReady s).1 (onWpassReady s).2 := by
  unfold onWpassReady queueing
  rcases queueCases (.wifiJoin (s.joinSsid.take 32)) s with none | ⟨u,some,queues⟩
  · rw [none]
    exact .plain noRow (quietSame s) trivial
  · rw [some]
    exact .wifiJoin noRow here queues

theorem digitPressed (noRow : btn.isRow = false) (d : Fin 10) :
    Pressed s btn (onKeypadDigit d s).1 (onKeypadDigit d s).2 := by
  unfold onKeypadDigit
  split
  · exact .edit noRow _
  · exact .plain noRow (quietSame s) trivial

theorem pickPressed {place : Nat} {idx : Fin 8} {shown : BaEntry} (row : s.found.row place = some (idx,shown)) :
    Pressed s (.ba place) (onPick idx s).1 (onPick idx s).2 := by
  unfold onPick
  split
  · rename_i outside
    exact .pickNone row outside
  · rename_i inside
    exact .pick row (Nat.lt_of_not_le inside)

theorem wifiPickPressed {place : Nat} {idx : Fin 12} {shown : ApEntry} (row : s.aps.row place = some (idx,shown)) :
    Pressed s (.ap place) (onWifiPick idx s).1 (onWifiPick idx s).2 := by
  unfold onWifiPick
  split
  · rename_i outside
    exact .wifiPickNone row outside
  · rename_i inside
    exact .wifiPick row (Nat.lt_of_not_le inside)

theorem guardedPressed (noRow : btn.isRow = false) (ordinary : job.ordinary = true) (yes : Plain accepted) :
    Pressed s btn (confirming btn (queueing job accepted .stay) s).1 (confirming btn (queueing job accepted .stay) s).2 :=
  confirmingPressed noRow fun arm => queueingPressed noRow (quietArm s arm) ordinary yes trivial

theorem nameReadyPressed (noRow : btn.isRow = false) (saved : Bool) :
    Pressed s btn (onNameReady saved s).1 (onNameReady saved s).2 := by
  unfold onNameReady
  split
  · exact .control noRow (show Aside .settings by decide)
  · exact .plain noRow (quietSame s) trivial

theorem dsqrOpenPressed (noRow : btn.isRow = false) (stored : Bool) :
    Pressed s btn (onDsqrOpen stored s).1 (onDsqrOpen stored s).2 := by
  unfold onDsqrOpen
  split
  · exact .plain noRow (quietSame s) (show Aside .dsqr by decide)
  · exact .plain noRow (quietSame s) trivial

theorem pressed (tapped : tappable btn s = true) (yes : Bool) : Pressed s btn (press btn yes s).1 (press btn yes s).2 := by
  obtain ⟨here,there⟩ := Bool.and_eq_true_iff.mp tapped
  have here : btn.panel = s.panel := of_decide_eq_true here
  cases btn with
  | homeJoin | listRescan => exact scanPressed rfl (here ▸ by decide)
  | wifiRow | wifiRescan => exact wifiOpenPressed rfl (here ▸ by decide)
  | create | forget | leave | factoryReset => exact guardedPressed rfl rfl (by decide)
  | reboot => exact confirmingPressed rfl fun arm => .plain rfl (quietArm s arm) trivial
  | cameraRow | cameraRepeat => exact queueingPressed rfl (quietSame s) rfl (by decide) (by decide)
  | share | newCode => exact sharePressed rfl yes
  | ap place =>
    obtain ⟨⟨idx,shown⟩,row⟩ := Option.isSome_iff_exists.mp there
    have here : press (.ap place) yes s = onWifiPick idx s := by simp only [press, row]
    rw [here]
    exact wifiPickPressed row
  | ba place =>
    obtain ⟨⟨idx,shown⟩,row⟩ := Option.isSome_iff_exists.mp there
    have here : press (.ba place) yes s = onPick idx s := by simp only [press, row]
    rw [here]
    exact pickPressed row
  | wpassReady => exact wpassPressed rfl here.symm
  | digit d => exact digitPressed rfl d
  | backspace => exact .edit rfl _
  | ok => exact okPressed rfl here.symm
  | qrOpen => exact qrPressed rfl (.inl here.symm)
  | qrRetry => exact qrPressed rfl (.inr here.symm)
  | qrCancel => exact .qrCancel here.symm
  | close => exact .control rfl (show Aside .net by decide)
  | nameReady => exact nameReadyPressed rfl yes
  | dataset => exact dsqrOpenPressed rfl yes
  | refreshMesh | other panel => exact .plain rfl (quietSame s) trivial
  | manage | settings | screenRow | powerRow | threadRow | nameRow | aboutRow | settingsBack | screenBack | powerBack
  | tsetBack | aboutBack | nameCancel | activity | netBack | activityBack | dsqrBack | wifiBack | wpassCancel | listBack
  | keypadBack | cameraBack | done => exact showingPressed rfl (by decide)

def Worker.held : Worker → Option Job
  | .ending job => some job
  | worker => worker.job

def heldUi (worker : Worker) : Nat := (worker.held.any isUiJob).toNat

def inFlight (s : Touch) : Nat := s.jobs.items.countP isUiJob + heldUi s.worker

def Flag (s : Touch) : Prop := inFlight s = s.uiJobBusy.toNat

def Worker.holdsCode : Worker → Bool
  | .qrCopy _ | .qrStop true | .qrShow true => true
  | _ => false

inductive Worked (s : Touch) : Work → Touch → Prop where
  | received (idle : s.worker = .idle) (job : Job) (jobs : BoundedQueue Job 4) (items : s.jobs.items = job :: jobs.items) :
      Worked s .receive {s with jobs := jobs, worker := .received job}
  | table {w} (before : s.worker = .scanning) {worker : Worker} (after : worker = .scanning ∨ worker = .finishScan)
      {found : Results BaEntry 8} (rows : found.rows = s.found.rows) (hidden : found.hidden = s.found.hidden) :
      Worked s w {s with found := found, worker := worker}
  | built (before : s.worker = .finishScan) : Worked s .build {s with found := s.found.build, worker := .ending .scan}
  | apTable {w} (before : s.worker = .wifiScanning) {worker : Worker}
      (after : worker = .wifiScanning ∨ worker = .finishWifiScan) {aps : Results ApEntry 12}
      (rows : aps.rows = s.aps.rows) : Worked s w {s with aps := aps, worker := worker}
  | apsBuilt (before : s.worker = .finishWifiScan) :
      Worked s .buildAps {s with aps := s.aps.build, worker := .ending .wifiScan}
  | qr {w} (before : s.worker.job = some .qr) {worker : Worker} (after : worker.held = some .qr)
      (code : worker.holdsCode = true → s.worker.holdsCode = true ∨
        ∃ payload, w = .poll (some payload) ∧ (digitsFromPayload payload).2 = true) : Worked s w {s with worker := worker}
  | copied {digits} (before : s.worker = .qrCopy digits) : Worked s .copy {s with code := digits, worker := .qrStop true}
  | shown {got} (before : s.worker = .qrShow got) :
      Worked s .show {s with panel := if got then .keypad else s.panel, worker := .ending .qr}
  | left (before : s.worker = .leaving) (ok : Bool) :
      Worked s (.leave ok) {s with aps := if ok then s.aps.hide else s.aps, worker := .ending .wifiLeave}
  | finished {job : {job : Job // job.staged = false}} (before : s.worker = .body job) :
      Worked s .finish {s with worker := .ending job.1}
  | gaveBack {job : Job} (before : s.worker = .ending job) : Worked s .giveBack {s with
      worker := .idle
      uiJobBusy := if isUiJob job then false else s.uiJobBusy
      past := {s.past with cancelled := if job = .qr then false else s.past.cancelled}}

theorem startWorked (before : s.worker = .qrStart) (ok : Bool) :
    Worked s (.start ok) {s with worker := if ok then .qrFrame 0 else .ending .qr} := by
  refine .qr (by rw [before]; rfl) ?_ ?_
  · cases ok <;> rfl
  · cases ok <;> exact Bool.noConfusion

theorem checkWorked {i : Nat} (before : s.worker = .qrFrame i) :
    Worked s .check {s with worker := if i < maxFrames ∧ s.qrAbort = false then .qrPoll i else .qrStop false} := by
  refine .qr (by rw [before]; rfl) ?_ ?_
  · split <;> rfl
  · split <;> exact Bool.noConfusion

theorem pollWorked {i : Nat} (before : s.worker = .qrPoll i) (payload : List UInt8) :
    Worked s (.poll (some payload)) {s with
      worker := if (digitsFromPayload payload).2 then .qrCopy (digitsFromPayload payload).1 else .qrFrame (i + 1)} := by
  refine .qr (by rw [before]; rfl) ?_ ?_
  · split <;> rfl
  · split
    · rename_i nine
      exact fun _ => .inr ⟨payload,rfl,nine⟩
    · exact Bool.noConfusion

theorem worked {w : Work} (stepped : work w s = some t) : Worked s w t := by
  unfold work at stepped
  split at stepped
  · rename_i idle
    obtain ⟨⟨job,jobs⟩,taken,after⟩ := Option.map_eq_some_iff.mp stepped
    cases after
    exact .received idle job jobs (BoundedQueue.receiveItems taken)
  · rename_i before
    cases Option.some.inj stepped
    exact .table before (.inl before) rfl rfl
  · rename_i before
    cases Option.some.inj stepped
    exact .table before (.inr rfl) rfl rfl
  · rename_i before
    cases Option.some.inj stepped
    exact .built before
  · rename_i before
    cases Option.some.inj stepped
    exact .apTable before (.inl before) rfl
  · rename_i before
    cases Option.some.inj stepped
    exact .apTable before (.inr rfl) rfl
  · rename_i before
    cases Option.some.inj stepped
    exact .apsBuilt before
  · rename_i before
    cases Option.some.inj stepped
    exact startWorked before _
  · rename_i before
    cases Option.some.inj stepped
    exact checkWorked before
  · rename_i before
    cases Option.some.inj stepped
    exact .qr (by rw [before]; rfl) rfl Bool.noConfusion
  · rename_i before
    cases Option.some.inj stepped
    exact pollWorked before _
  · rename_i before
    cases Option.some.inj stepped
    exact .copied before
  · rename_i got before
    cases Option.some.inj stepped
    refine .qr (by rw [before]; rfl) rfl fun holds => .inl ?_
    rw [before]
    cases got <;> first | rfl | cases holds
  · rename_i before
    cases Option.some.inj stepped
    exact .shown before
  · rename_i before
    cases Option.some.inj stepped
    exact .left before _
  · rename_i before
    cases Option.some.inj stepped
    exact .finished before
  · rename_i before
    cases Option.some.inj stepped
    exact .gaveBack before
  · cases stepped

theorem receivedHeld (job : Job) : (Worker.received job).held = some job := by
  cases job <;> rfl

theorem queuesFlag (flag : Flag s) (kind : isUiJob job = true) (queues : Queues job s t) : Flag t := by
  obtain ⟨free,jobs,sent,rfl⟩ := queues
  unfold Flag inFlight at flag ⊢
  rw [free, Bool.toNat_false] at flag
  rw [BoundedQueue.sendItems sent, List.countP_append, List.countP_singleton, kind]
  dsimp only
  rw [if_pos rfl, Bool.toNat_true]
  omega

theorem ordinaryUi (ordinary : job.ordinary = true) : isUiJob job = true := by
  cases job with
  | control => cases ordinary
  | _ => rfl

theorem controlFlag (flag : Flag s) : Flag (sendControl s) := by
  obtain ⟨jobs,sent,items⟩ := controlCases s
  have count : jobs.items.countP isUiJob = s.jobs.items.countP isUiJob := by
    rcases items with same | behind
    · rw [same]
    · rw [behind, List.countP_append]
      rfl
  rw [sent]
  unfold Flag inFlight at flag ⊢
  dsimp only
  rw [count]
  exact flag

theorem pressedFlag (flag : Flag s) (tapped : Pressed s btn t rest) : Flag t := by
  cases tapped with
  | plain _ quiet _ =>
    obtain ⟨arm,panel,_,rfl⟩ := quiet
    exact flag
  | queued _ quiet ordinary queues _ =>
    obtain ⟨arm,panel,_,rfl⟩ := quiet
    exact queuesFlag (s := {s with arm := arm, panel := panel}) flag (ordinaryUi ordinary) queues
  | control => exact controlFlag flag
  | scan _ _ queues => exact queuesFlag flag rfl queues
  | wifiScan _ _ queues => exact queuesFlag (s := {s with aps := s.aps.clean, panel := .wifi}) flag rfl queues
  | join _ _ queues => exact queuesFlag flag rfl queues
  | wifiJoin _ _ queues => exact queuesFlag flag rfl queues
  | qrOpen _ _ queues => exact queuesFlag (s := {s with qrAbort := false}) flag rfl queues
  | wifiOpen | pick | pickNone | wifiPick | wifiPickNone | edit | qrFull | qrCancel => exact flag

theorem heldFlag (flag : Flag s) (jobs : t.jobs = s.jobs) (busy : t.uiJobBusy = s.uiJobBusy)
    (held : t.worker.held = s.worker.held) : Flag t := by
  unfold Flag inFlight heldUi at flag ⊢
  rw [jobs, busy, held]
  exact flag

theorem receivedFlag {jobs : BoundedQueue Job 4} (flag : Flag s) (idle : s.worker = .idle)
    (items : s.jobs.items = job :: jobs.items) : Flag {s with jobs := jobs, worker := .received job} := by
  unfold Flag inFlight heldUi at flag ⊢
  have none : (Worker.idle.held.any isUiJob).toNat = 0 := rfl
  rw [idle, none, items, List.countP_cons] at flag
  dsimp only
  rw [receivedHeld, Option.any_some, ← flag, Nat.add_zero]
  cases isUiJob job <;> rfl

theorem gaveBackFlag {past : Past} (flag : Flag s) (before : s.worker = .ending job) :
    Flag {s with worker := .idle, uiJobBusy := if isUiJob job then false else s.uiJobBusy, past := past} := by
  unfold Flag inFlight heldUi at flag ⊢
  have holds : (Worker.ending job).held.any isUiJob = isUiJob job := rfl
  have none : (Worker.idle.held.any isUiJob).toNat = 0 := rfl
  have small := Bool.toNat_le s.uiJobBusy
  rw [before, holds] at flag
  dsimp only
  rw [none]
  cases kind : isUiJob job with
  | true =>
    rw [kind, Bool.toNat_true] at flag
    rw [if_pos rfl, Bool.toNat_false]
    omega
  | false =>
    rw [kind, Bool.toNat_false] at flag
    rw [if_neg Bool.false_ne_true]
    omega

theorem heldJob {worker : Worker} (doing : worker.job = some job) : worker.held = some job := by
  cases worker with
  | ending other => cases doing
  | _ => exact doing

theorem workedFlag {w : Work} (flag : Flag s) (stepped : Worked s w t) : Flag t := by
  cases stepped with
  | received idle job jobs items => exact receivedFlag flag idle items
  | table before after => exact heldFlag flag rfl rfl (by rw [before]; rcases after with rfl | rfl <;> rfl)
  | apTable before after => exact heldFlag flag rfl rfl (by rw [before]; rcases after with rfl | rfl <;> rfl)
  | qr before after => exact heldFlag flag rfl rfl (after.trans (heldJob before).symm)
  | built before | apsBuilt before | copied before | shown before | left before | finished before =>
    exact heldFlag flag rfl rfl (by rw [before]; rfl)
  | gaveBack before => exact gaveBackFlag flag before

inductive Stepped (s : Touch) : Label → Touch → Prop where
  | tapped {btn u rest yes} (idle : s.rest = none) (tappable : tappable btn s = true) (inTime : armDue s = false)
      (pressed : Pressed s btn u rest) : Stepped s (.tap btn yes) {u with rest := some rest, past := noted btn s u.past}
  | worked {w t} (free : w.locked = true → s.rest = none) (worked : Worked s w t) : Stepped s (.work w) t
  | stayed (was : s.rest = some .stay) : Stepped s .handler {s with rest := none}
  | showed {panel} (was : s.rest = some (.shows panel)) : Stepped s .handler {s with panel := panel, rest := none}
  | listed (was : s.rest = some .lists) : Stepped s .handler {s with found := s.found.hide, panel := .list, rest := none}
  | cancelled (was : s.rest = some .cancels) : Stepped s .handler {s with
      panel := .keypad
      rest := none
      past := {s.past with cancelled := pending .qr s}}
  | expired (idle : s.rest = none) (due : armDue s = true) : Stepped s .expire {s with arm := disarm}
  | waited (ms : Nat) : Stepped s (.wait ms) {s with clock := s.clock + ms}
  | control : Stepped s .control (sendControl s)
  | wifi (connected : Bool) : Stepped s (.wifi connected) {s with haveWifi := connected}
  | dataset (idle : s.rest = none) : Stepped s .dataset {s with panel := .result}

theorem handlerStepped (done : finishHandler s = some t) : Stepped s .handler t := by
  unfold finishHandler at done
  split at done
  · cases done
  · cases done
  · rename_i was
    cases Option.some.inj done
    exact .stayed was
  · rename_i was
    cases Option.some.inj done
    exact .showed was
  · rename_i was
    cases Option.some.inj done
    exact .listed was
  · rename_i was
    cases Option.some.inj done
    exact .cancelled was

theorem stepped {l : Label} (taken : step s l = some t) : Stepped s l t := by
  cases l with
  | tap btn yes =>
    dsimp only [step] at taken
    split at taken
    · rename_i ready
      cases Option.some.inj taken
      exact .tapped ready.1 ready.2.1 ready.2.2 (pressed ready.2.1 yes)
    · cases taken
  | handler => exact handlerStepped taken
  | work w =>
    dsimp only [step] at taken
    split at taken
    · cases taken
    · rename_i free
      exact .worked (fun locked => not_not.mp fun busy => free ⟨locked,busy⟩) (worked taken)
  | expire =>
    dsimp only [step] at taken
    split at taken
    · rename_i ready
      cases Option.some.inj taken
      exact .expired ready.1 ready.2
    · cases taken
  | wait ms =>
    cases Option.some.inj taken
    exact .waited ms
  | control =>
    dsimp only [step] at taken
    split at taken
    · cases Option.some.inj taken
      exact .control
    · cases taken
  | wifi connected =>
    cases Option.some.inj taken
    exact .wifi connected
  | dataset =>
    dsimp only [step] at taken
    split at taken
    · rename_i idle
      cases Option.some.inj taken
      exact .dataset idle
    · cases taken

theorem steppedFlag {l : Label} (flag : Flag s) (step : Stepped s l t) : Flag t := by
  cases step with
  | tapped _ _ _ pressed =>
    have kept := pressedFlag flag pressed
    exact kept
  | worked _ worked => exact workedFlag flag worked
  | control => exact controlFlag flag
  | stayed | showed | listed | cancelled | expired | waited | wifi | dataset => exact flag

theorem flagUnder {meets : Touch → Label → Prop} (under : touchUi.Under meets s) : Flag s := by
  refine underInvariant Flag ?_ ?_ under
  · rintro s ⟨created,rfl⟩
    rfl
  · intro s l t flag _ taken
    exact steppedFlag flag (stepped taken)

/- Where the flag is clear no job of the UI is under way, and where the worker is at one no
other is queued. -/
theorem freeIdle (flag : Flag s) (free : s.uiJobBusy = false) (kind : isUiJob job = true) :
    job ∉ s.jobs.items ∧ s.worker.held ≠ some job := by
  unfold Flag inFlight heldUi at flag
  rw [free, Bool.toNat_false] at flag
  constructor
  · intro queued
    have some := List.countP_pos_iff.mpr ⟨job,queued,kind⟩
    omega
  · intro held
    rw [held, Option.any_some, kind, Bool.toNat_true] at flag
    omega

theorem heldAlone {other : Job} (flag : Flag s) (held : s.worker.held = some job) (kind : isUiJob job = true)
    (also : isUiJob other = true) : other ∉ s.jobs.items := by
  intro queued
  unfold Flag inFlight heldUi at flag
  have some := List.countP_pos_iff.mpr ⟨other,queued,also⟩
  have small := Bool.toNat_le s.uiJobBusy
  rw [held, Option.any_some, kind, Bool.toNat_true] at flag
  omega

theorem freeNotPending (flag : Flag s) (free : s.uiJobBusy = false) (kind : isUiJob job = true) : pending job s = false := by
  obtain ⟨queued,held⟩ := freeIdle flag free kind
  exact decide_eq_false fun either => either.elim queued fun doing => held (heldJob doing)

end EpskcCommissioner.TouchUi
