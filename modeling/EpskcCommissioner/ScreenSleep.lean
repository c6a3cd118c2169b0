import EpskcCommissioner.PowerDischarge
import EpskcCommissioner.PowerLogRing
import EpskcCommissioner.Settings
import EpskcCommissioner.TouchUiSteps

/-! The screen that dims and sleeps: `role_timer_cb`, `batt_timer_cb` and `on_wake` of `ui.c`
beside the touch UI, with the backlight, the battery of the header and the battery history. -/
namespace EpskcCommissioner.ScreenSleep
open WifiDriver (EspErr espOk)
open PowerRead (PowerStatus Reads powerRead)
open PowerLog (Log Note Micros powerLogInit powerLogNote powerLogGet)
open PowerDischarge (History powerNoteSample)
open Settings (Cfg Valid Edit SliderValue settingsSleepMs applyValid)
open TouchUi (Touch Panel)

def colOk : Nat := 0x4ECBB8
def colError : Nat := 0xF0798F
def colAccent : Nat := 0xD9904F
def colDim : Nat := 0x8A937F
def battInnerW : Int := 54

/- `lbl_batt`, with the outline, the nub and the fill beside it. -/
structure Battery where
  text : List Char
  hidden : Bool
  colour : Nat
  width : Int
  deriving DecidableEq, Repr

def symbolCharge : Char := Char.ofNat 0xF0E7

def battColour (s : PowerStatus) : Nat :=
  if s.vbus then colOk else if s.percent < 15 then colError else if s.percent < 40 then colAccent else colDim

def battText (s : PowerStatus) : List Char :=
  (if s.vbus then [symbolCharge] else if s.percentEstimated then ['~'] else []) ++ Decimal.signed s.percent ++ ['%']

def battWidth (percent : Int) : Int :=
  let w := (battInnerW * percent).tdiv 100
  if w < 2 then 2 else w

/- The end of `batt_timer_cb`, which draws. -/
def drawBattery (err : EspErr) (s : PowerStatus) (b : Battery) : Battery :=
  if err ≠ espOk ∨ s.present = false ∨ s.percent < 0 then {b with text := "--".toList, hidden := true}
  else ⟨battText s,false,battColour s,battWidth s.percent⟩

structure Poll where
  reads : Reads
  micros : Micros
  deriving DecidableEq, Repr

/- What `role_timer_cb` has worked out when it looks at `s_ui_job_busy` again. -/
structure RoleTimer where
  timeout : Nat
  guarded : Bool
  heldAwake : Bool
  deriving DecidableEq, Repr

abbrev ValidCfg := {c : Cfg // Valid c}

/- `shield` is whether `s_sleep_shield` is there, `leaving` how many shields wait for
`lv_obj_delete_async`. The last three fields are history: the last poll, and what each poll
noted, with what the backlight was when its handler was over. -/
structure Screen where
  ui : Touch
  cfg : ValidCfg
  asleep : Bool
  dimmed : Bool
  shield : Bool
  leaving : Nat
  backlight : Nat
  externalPower : Bool
  battery : Battery
  log : Option Log
  discharge : History
  timer : Option RoleTimer
  lastInput : Nat
  last : Option (EspErr × PowerStatus)
  notes : List Note
  lights : List Nat

def Screen.brightness (s : Screen) : Nat := s.cfg.1.brightness.toNat

def timeout (c : ValidCfg) : Nat := settingsSleepMs.get ⟨c.1.sleepIdx.toNat,c.2.sleepIdx⟩

/- `lv_display_get_inactive_time` -/
def Screen.inactive (s : Screen) : Nat := s.ui.clock - s.lastInput

def openPanel : Panel → Bool
  | .share | .dsqr | .qr | .camera => true
  | _ => false

def capped (dim : Bool) (brightness : Nat) : Nat := if dim ∧ 20 < brightness then 20 else brightness

/- `bsp_display_brightness_set` -/
def brightnessSet (ok : Bool) (v : Nat) (s : Screen) : Screen := if ok then {s with backlight := v} else s

def Screen.noted (s : Screen) : Nat := capped s.dimmed (if s.asleep then 0 else s.brightness)

def noteOf (p : Poll) (s : Screen) : Note := ⟨(powerRead p.reads).2,(powerRead p.reads).1,UInt32.ofNat s.noted,p.micros⟩

def samplePoll (p : Poll) : PowerDischarge.Poll :=
  let (err,ps) := powerRead p.reads
  ⟨p.micros.val,if err = espOk then ps.percent else -1,err = espOk && ps.present && !ps.vbus && !ps.percentEstimated⟩

/- `batt_timer_cb`, but for what it hands to Matter and to the Wi-Fi driver. -/
def battTimerCb (p : Poll) (s : Screen) : Screen :=
  let (err,ps) := powerRead p.reads
  { s with
    log := s.log.map (powerLogNote (noteOf p s))
    externalPower := if err = espOk then ps.vbus else s.externalPower
    discharge := powerNoteSample (samplePoll p) s.discharge
    battery := if s.asleep then s.battery else drawBattery err ps s.battery
    last := some (err,ps)
    notes := s.notes ++ [noteOf p s] }

def seen (s : Screen) : Screen := {s with lights := s.lights ++ [s.backlight]}

/- `role_timer_cb` up to the second look at `s_ui_job_busy`. -/
def roleTimerCb (ok : Bool) (s : Screen) : Screen :=
  if s.asleep then s
  else
    let dim := !s.externalPower && !openPanel s.ui.panel && !s.ui.uiJobBusy && s.inactive > 30000
    let l : RoleTimer :=
      ⟨timeout s.cfg,openPanel s.ui.panel,s.cfg.1.keepAwakePowered && s.externalPower⟩
    let s := {s with timer := some l}
    if dim ≠ s.dimmed ∧ ok then {brightnessSet true (capped dim s.brightness) s with dimmed := dim} else s

/- The rest of it: the screen falls asleep, or not. -/
def roleTimerEnd (ok : Bool) (l : RoleTimer) (s : Screen) : Screen :=
  let s := {s with timer := none}
  if l.timeout ≠ 0 ∧ s.asleep = false ∧ l.guarded = false ∧ s.ui.uiJobBusy = false ∧ l.heldAwake = false ∧
      s.inactive > l.timeout then
    {brightnessSet ok 0 {s with shield := true} with asleep := true}
  else s

def onWake (p : Poll) (ok : Bool) (s : Screen) : Screen :=
  if s.asleep = false then s
  else
    let s := battTimerCb p {s with asleep := false, dimmed := false}
    let s := brightnessSet ok s.brightness s
    seen {s with leaving := s.leaving + 1, shield := false}

def onBrightness (v : SliderValue) (ok : Bool) (s : Screen) : Screen :=
  {brightnessSet ok v.1 {s with cfg := ⟨(Edit.brightness v).apply s.cfg.1,applyValid s.cfg.2 _⟩} with dimmed := false}

/- `on_sleep_choice` and `on_keep_awake` -/
def onSetting (edit : Edit) (s : Screen) : Screen := {s with cfg := ⟨edit.apply s.cfg.1,applyValid s.cfg.2 _⟩}

def locked : TouchUi.Label → Bool
  | .tap _ _ | .handler | .expire | .dataset => true
  | .work w => w.locked
  | .wait _ | .control | .wifi _ => false

def isTap : TouchUi.Label → Bool
  | .tap _ _ => true
  | _ => false

/- `press` is any touch, and wakes the screen where the shield is there. `ok` is whether the
display takes the brightness it is given. -/
inductive Label where
  | ui (l : TouchUi.Label)
  | press (p : Poll) (ok : Bool)
  | removed
  | battery (p : Poll)
  | role (ok : Bool)
  | roleEnd (ok : Bool)
  | slide (v : SliderValue) (ok : Bool)
  | sleepChoice (idx : Fin 4)
  | keepAwake (on : Bool)

/- No handler and no timer is at work. -/
def Screen.free (s : Screen) : Bool := s.ui.rest.isNone && s.timer.isNone

/- A widget can be touched: nothing lies upon the panel. -/
def Screen.bare (s : Screen) : Bool := s.free && !s.shield && s.leaving == 0

def touching (change : Screen → Screen) (s : Screen) : Option Screen :=
  if s.bare ∧ s.ui.panel = .screen then some (change {s with lastInput := s.ui.clock}) else none

def step (s : Screen) : Label → Option Screen
  | .ui l =>
    if locked l ∧ s.timer.isSome then none
    else if isTap l then
      if s.bare then (TouchUi.step s.ui l).map fun t => {s with ui := t, lastInput := t.clock} else none
    else (TouchUi.step s.ui l).map fun t => {s with ui := t}
  | .press p ok =>
    if s.free then
      let s := {s with lastInput := s.ui.clock}
      some (if s.shield then onWake p ok s else s)
    else none
  | .removed => if s.free then some {s with leaving := 0} else none
  | .battery p => if s.free then some (seen (battTimerCb p s)) else none
  | .role ok => if s.free then some (roleTimerCb ok s) else none
  | .roleEnd ok => s.timer.map fun l => roleTimerEnd ok l s
  | .slide v ok => touching (onBrightness v ok) s
  | .sleepChoice idx => touching (onSetting (.sleep idx)) s
  | .keepAwake on => touching (onSetting (.keepAwake on)) s

def unlit : Battery := ⟨[],true,colDim,2⟩

/- `ui_init`; `lit` is whether the display took the brightness of the settings. -/
def boot (created allocated lit : Bool) (bootId : UInt64) (cfg : ValidCfg) : Screen where
  ui := TouchUi.boot created
  cfg := cfg
  asleep := false
  dimmed := false
  shield := false
  leaving := 0
  backlight := if lit then cfg.1.brightness.toNat else 100
  externalPower := true
  battery := unlit
  log := powerLogInit allocated bootId none
  discharge := PowerDischarge.initial
  timer := none
  lastInput := 0
  last := none
  notes := []
  lights := []

def screen (bootId : UInt64) (lit : Bool) : Machine Screen Label :=
  ⟨fun s => ∃ created allocated cfg, s = boot created allocated lit bootId cfg,step⟩

end EpskcCommissioner.ScreenSleep
