import Mathlib.Tactic.Common
import EpskcCommissioner.WifiDriver

/-! The reconnect supervisor of `main.c`: its flags, the reconnect ladder, the two
timer callbacks and the event handler. Each handler runs to its end on its task;
the addresses and times it keeps for display, and the border-router and REST
starts it requests from other components, are not part of this model. -/
namespace EpskcCommissioner.WifiSupervisor
open WifiDriver

structure EventBits where
  connected : Bool
  fail : Bool
  disconnected : Bool
  backboneReady : Bool
  deriving DecidableEq, Repr

inductive LadderOp where
  | cancel
  | arm (delayMs : Nat)
  deriving DecidableEq, Repr

/- What happened so far, newest first. Nothing the firmware computes reads it.
`linkUp` is the last connect or disconnect event, `rejected` says that the driver
still holds a candidate whose rollback failed. -/
structure History where
  attempts : List Attempt
  handled : List Attempt
  linkUp : Bool
  ladder : List LadderOp
  rejected : Bool
  deriving DecidableEq

structure Station where
  driver : Driver
  bits : EventBits
  hold : Bool
  joinActive : Bool
  supervisorOn : Bool
  haveCredentials : Bool
  opLock : Bool
  retries : Nat
  backoffStep : Nat
  disconnectCount : UInt32
  lastDiscReason : UInt8
  timerExists : Bool
  timer : Option Nat
  seen : History
  deriving DecidableEq

def kBackoffMs : List Nat := [0,0,0,1000,2000,5000,15000,30000,60000]

def backoffDelayMs (step : Nat) : Nat :=
  let last := kBackoffMs.length - 1
  kBackoffMs.getD (if step > last then last else step) 0

def espWifiConnect (err : EspErr) (s : Station) : Station :=
  if err = espOk then
    {s with seen := {s.seen with attempts := s.driver.attempt :: s.seen.attempts}}
  else s

def cancelReconnect (s : Station) : Station :=
  {s with timer := if s.timerExists then none else s.timer, backoffStep := 0,
          seen := {s.seen with ladder := .cancel :: s.seen.ladder}}

/- esp_timer_start_once after esp_timer_stop, which is assumed to succeed. The
argument is in microseconds and never zero. -/
def armReconnect (s : Station) : Station :=
  let delayMs := backoffDelayMs s.backoffStep
  {s with timer := some (delayMs * 1000 + 1),
          backoffStep := if s.backoffStep < 1000 then s.backoffStep + 1 else s.backoffStep,
          seen := {s.seen with ladder := .arm delayMs :: s.seen.ladder}}

/- The bounded retry: what is left without a timer, or while a join runs. -/
def boundedRetry (err : EspErr) (s : Station) : Station :=
  espWifiConnect err {s with retries := s.retries + 1}

def scheduleReconnect (err : EspErr) (s : Station) : Station :=
  if s.timerExists then armReconnect s
  else if s.retries < 5 then boundedRetry err s
  else s

def reconnectTimerCb (err : EspErr) (s : Station) : Station :=
  if !s.supervisorOn || s.hold || s.joinActive then s
  else if s.bits.connected then s
  else if err = espOk then espWifiConnect err s
  else scheduleReconnect err s

def wifiWatchdogCb (getErr err : EspErr) (s : Station) : Station :=
  if !s.supervisorOn || s.joinActive || s.hold then s
  else if s.bits.connected then s
  else
    let stored := getErr = espOk && s.driver.current.hasSsid
    let s := {s with haveCredentials := stored}
    if !stored then s
    else if s.timerExists && s.timer.isSome then s
    else scheduleReconnect err s

inductive Event where
  | staStart
  | staConnected
  | staDisconnected (reason : Option UInt8)
  | gotIp (used : Attempt)
  | gotIp6 (backbone : Bool)
  deriving DecidableEq

def onDisconnected (reason : Option UInt8) (err : EspErr) (s : Station) : Station :=
  let s := {s with lastDiscReason := reason.getD s.lastDiscReason,
                   disconnectCount := s.disconnectCount + 1,
                   bits := {s.bits with connected := false, backboneReady := false},
                   seen := {s.seen with linkUp := false}}
  let s :=
    if s.hold then cancelReconnect s
    else if s.joinActive || !s.supervisorOn then
      if s.retries < 5 then boundedRetry err s
      else {s with bits := {s.bits with fail := true}}
    else scheduleReconnect err s
  {s with bits := {s.bits with disconnected := true}}

def onGotIp (used : Attempt) (s : Station) : Station :=
  let s := cancelReconnect {s with retries := 0, haveCredentials := true}
  {s with bits := {s.bits with fail := false, connected := true, backboneReady := true},
          seen := {s.seen with linkUp := true, handled := used :: s.seen.handled}}

def onWifi (e : Event) (err : EspErr) (s : Station) : Station :=
  match e with
  | .staStart => espWifiConnect err s
  | .staConnected => s
  | .staDisconnected reason => onDisconnected reason err s
  | .gotIp used => onGotIp used s
  | .gotIp6 backbone => if backbone then {s with bits := {s.bits with backboneReady := true}} else s

/- `link supervisor <on|off>` -/
def linkSupervisor (on : Bool) (s : Station) : Station :=
  if on then {s with supervisorOn := true} else cancelReconnect {s with supervisorOn := false}

/- `link retry` starts the ladder afresh, which counts as a cancel. -/
def linkRetry (err : EspErr) (s : Station) : Station :=
  scheduleReconnect err
    {s with backoffStep := 0, seen := {s.seen with ladder := .cancel :: s.seen.ladder}}

/- What a join or a leave owns: no handler, callback or command changes it. -/
structure Owned where
  driver : Driver
  hold : Bool
  joinActive : Bool
  opLock : Bool
  rejected : Bool
  deriving DecidableEq

def Station.owned (s : Station) : Owned := ⟨s.driver,s.hold,s.joinActive,s.opLock,s.seen.rejected⟩

theorem connectOwned (err s) : (espWifiConnect err s).owned = s.owned := by
  unfold espWifiConnect
  split <;> rfl

/- What a handler other than that of an address does to the station, as far as an
operation can tell: it starts at most one connection, with the configuration the
driver holds, and it never reports one. -/
structure Calm (s t : Station) : Prop where
  owned : t.owned = s.owned
  attempts : t.seen.attempts = s.seen.attempts ∨
    t.seen.attempts = s.driver.attempt :: s.seen.attempts
  handled : t.seen.handled = s.seen.handled
  connected : t.bits.connected = true → s.bits.connected = true

theorem calmSame {s t : Station} (owned : t.owned = s.owned)
    (attempts : t.seen.attempts = s.seen.attempts) (handled : t.seen.handled = s.seen.handled)
    (connected : t.bits.connected = true → s.bits.connected = true) : Calm s t :=
  ⟨owned,.inl attempts,handled,connected⟩

theorem calmRefl (s : Station) : Calm s s := calmSame rfl rfl rfl id

theorem calmAfter {s u t : Station} (calm : Calm u t) (owned : u.owned = s.owned)
    (attempts : u.seen.attempts = s.seen.attempts) (handled : u.seen.handled = s.seen.handled)
    (connected : u.bits.connected = true → s.bits.connected = true) : Calm s t := by
  have driver : u.driver = s.driver := congrArg Owned.driver owned
  obtain ⟨owned',attempts',handled',connected'⟩ := calm
  rw [owned,driver,attempts,handled] at *
  exact ⟨owned',attempts',handled',connected ∘ connected'⟩

theorem connectCalm (err s) : Calm s (espWifiConnect err s) := by
  unfold espWifiConnect
  split
  · exact ⟨rfl,.inr rfl,rfl,id⟩
  · exact calmRefl s

theorem cancelCalm (s) : Calm s (cancelReconnect s) := calmSame rfl rfl rfl id

theorem boundedCalm (err s) : Calm s (boundedRetry err s) :=
  calmAfter (connectCalm err _) rfl rfl rfl id

theorem scheduleCalm (err s) : Calm s (scheduleReconnect err s) := by
  unfold scheduleReconnect
  split
  · exact calmSame rfl rfl rfl id
  split
  · exact boundedCalm err s
  · exact calmRefl s

theorem timerCalm (err s) : Calm s (reconnectTimerCb err s) := by
  unfold reconnectTimerCb
  split
  · exact calmRefl s
  split
  · exact calmRefl s
  split
  · exact connectCalm err s
  · exact scheduleCalm err s

theorem watchdogCalm (getErr err s) : Calm s (wifiWatchdogCb getErr err s) := by
  unfold wifiWatchdogCb
  split
  · exact calmRefl s
  split
  · exact calmRefl s
  dsimp only
  split
  · exact calmSame rfl rfl rfl id
  split
  · exact calmSame rfl rfl rfl id
  · exact calmAfter (scheduleCalm err _) rfl rfl rfl id

theorem disconnectedCalm (reason err s) : Calm s (onDisconnected reason err s) := by
  have down : ∀ t : Station, Calm s t →
      Calm s {t with bits := {t.bits with disconnected := true}} :=
    fun t calm => ⟨calm.owned,calm.attempts,calm.handled,calm.connected⟩
  unfold onDisconnected
  refine down _ ?_
  dsimp only
  split
  · exact calmSame rfl rfl rfl nofun
  split
  · split
    · exact calmAfter (boundedCalm err _) rfl rfl rfl nofun
    · exact calmSame rfl rfl rfl nofun
  · exact calmAfter (scheduleCalm err _) rfl rfl rfl nofun

theorem handlerCalm {e : Event} (other : ∀ used, e ≠ .gotIp used) (err s) :
    Calm s (onWifi e err s) := by
  cases e with
  | staStart => exact connectCalm err s
  | staConnected => exact calmRefl s
  | staDisconnected reason => exact disconnectedCalm reason err s
  | gotIp used => exact absurd rfl (other used)
  | gotIp6 backbone =>
    simp only [onWifi]
    split
    · exact calmSame rfl rfl rfl id
    · exact calmRefl s

theorem addressOwned (used s) : (onGotIp used s).owned = s.owned := rfl

theorem supervisorCalm (on s) : Calm s (linkSupervisor on s) := by
  unfold linkSupervisor
  split
  · exact calmSame rfl rfl rfl id
  · exact calmAfter (cancelCalm _) rfl rfl rfl id

theorem retryCalm (err s) : Calm s (linkRetry err s) :=
  calmAfter (scheduleCalm err _) rfl rfl rfl id

end EpskcCommissioner.WifiSupervisor
