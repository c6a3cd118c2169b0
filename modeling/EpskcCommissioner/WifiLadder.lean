import EpskcCommissioner.WifiOperation

/-! The reconnect ladder never ends and is never lost: each rung waits as long as its
table says, the watchdog puts a missing attempt back, and an attempt that the
driver refuses arms the next one. -/
namespace EpskcCommissioner.WifiLadder
open WifiDriver WifiSupervisor WifiOperation

def arms : List LadderOp → Nat
  | .arm _ :: rest => arms rest + 1
  | _ => 0

/- The k-th attempt waits the k-th delay of the table, and the last one from then on. -/
def Stepped : List LadderOp → Prop
  | [] => True
  | .cancel :: rest => Stepped rest
  | .arm delayMs :: rest =>
    kBackoffMs[min (arms rest) 8]? = some delayMs ∧ delayMs ≤ 60000 ∧ Stepped rest

/- An armed timer waits for the attempt armed last. -/
def Armed (timer : Option Nat) (ladder : List LadderOp) : Prop :=
  ∀ us, timer = some us → ∃ delayMs rest, ladder = .arm delayMs :: rest ∧ us = delayMs * 1000 + 1

/- The supervisor is in charge of a station that is down and can come back. -/
structure Charged (s : Station) : Prop where
  supervisorOn : s.supervisorOn = true
  joinActive : s.joinActive = false
  hold : s.hold = false
  down : s.seen.linkUp = false
  credentials : s.driver.current.hasSsid = true
  timerExists : s.timerExists = true

/- Right after a watchdog tick that reads the configuration the timer is armed; a
firing leads to a connect that the driver accepts, or arms the timer again. -/
structure Recovers (w : Wifi) : Prop where
  tick : ∀ err, ∃ t, step w (.watchdog espOk err) = some t ∧ t.station.timer.isSome = true
  fire : ∀ err t, step w (.timer err) = some t →
    t.station.seen.attempts = w.station.driver.attempt :: w.station.seen.attempts ∨
      t.station.timer.isSome = true

/- The part of a station that the ladder is made of, and what the link is seen as. -/
structure Rungs where
  backoffStep : Nat
  timer : Option Nat
  timerExists : Bool
  ladder : List LadderOp
  connected : Bool
  linkUp : Bool

def rungs (s : Station) : Rungs :=
  ⟨s.backoffStep,s.timer,s.timerExists,s.seen.ladder,s.bits.connected,s.seen.linkUp⟩

structure Climbing (r : Rungs) : Prop where
  step : r.backoffStep = min (arms r.ladder) 1000
  stepped : Stepped r.ladder
  armed : Armed r.timer r.ladder
  exist : r.timerExists = false → r.timer = none
  seen : r.connected = true → r.linkUp = true

theorem delayStep (step : Nat) : kBackoffMs[min step 8]? = some (backoffDelayMs step) := by
  have last : kBackoffMs.length - 1 = 8 := rfl
  have index : (if step > 8 then 8 else step) = min step 8 := by split <;> omega
  have bounded : min step 8 < kBackoffMs.length := by
    have : min step 8 ≤ 8 := Nat.min_le_right _ _
    simp only [kBackoffMs,List.length_cons,List.length_nil]
    omega
  simp only [backoffDelayMs,last,index,List.getD_eq_getElem?_getD,List.getElem?_eq_getElem bounded,
    Option.getD_some]

theorem delayBound (step : Nat) : backoffDelayMs step ≤ 60000 := by
  have all : ∀ d ∈ kBackoffMs, d ≤ 60000 := by decide
  exact all _ (List.mem_of_getElem? (delayStep step))

theorem climbingCancel {s} (h : Climbing (rungs s)) : Climbing (rungs (cancelReconnect s)) := by
  refine ⟨rfl,h.stepped,?_,?_,h.seen⟩
  · intro us armed
    cases exist : s.timerExists with
    | false =>
      have none : s.timer = none := h.exist exist
      simp [rungs,cancelReconnect,exist,none] at armed
    | true => simp [rungs,cancelReconnect,exist] at armed
  · intro none
    simpa [rungs,cancelReconnect,show s.timerExists = false from none] using h.exist none

theorem climbingArm {s} (step : s.backoffStep = min (arms s.seen.ladder) 1000)
    (stepped : Stepped s.seen.ladder) (seen : s.bits.connected = true → s.seen.linkUp = true)
    (exist : s.timerExists = true) : Climbing (rungs (armReconnect s)) := by
  refine ⟨?_,⟨?_,delayBound _,stepped⟩,?_,?_,seen⟩
  · simp only [rungs,armReconnect,arms]
    split <;> omega
  · have same : min (arms s.seen.ladder) 8 = min s.backoffStep 8 := by omega
    rw [same]
    exact delayStep _
  · intro us armed
    exact ⟨_,_,rfl,(Option.some.inj armed).symm⟩
  · exact fun none => absurd exist (ne_true_of_eq_false none)

theorem climbingConnect {err s} (h : Climbing (rungs s)) : Climbing (rungs (espWifiConnect err s)) := by
  unfold espWifiConnect
  split <;> exact h

theorem climbingBounded {err s} (h : Climbing (rungs s)) : Climbing (rungs (boundedRetry err s)) :=
  climbingConnect (s := {s with retries := s.retries + 1}) h

theorem climbingSchedule {err s} (h : Climbing (rungs s)) :
    Climbing (rungs (scheduleReconnect err s)) := by
  unfold scheduleReconnect
  split
  · rename_i exist
    exact climbingArm h.step h.stepped h.seen exist
  split
  · exact climbingBounded h
  · exact h

theorem climbingFire {err s} (h : Climbing (rungs s)) :
    Climbing (rungs (reconnectTimerCb err {s with timer := none})) := by
  have idle : Climbing (rungs {s with timer := none}) := ⟨h.step,h.stepped,nofun,fun _ => rfl,h.seen⟩
  unfold reconnectTimerCb
  split
  · exact idle
  split
  · exact idle
  split
  · exact climbingConnect idle
  · exact climbingSchedule idle

theorem climbingWatchdog {getErr err s} (h : Climbing (rungs s)) :
    Climbing (rungs (wifiWatchdogCb getErr err s)) := by
  unfold wifiWatchdogCb
  split
  · exact h
  split
  · exact h
  dsimp only
  split
  · exact h
  split
  · exact h
  · exact climbingSchedule h

theorem climbingEvent {e err s} (h : Climbing (rungs s)) : Climbing (rungs (onWifi e err s)) := by
  cases e with
  | staStart => exact climbingConnect h
  | staConnected => exact h
  | staDisconnected reason =>
    -- clearing CONNECTED is all that happens to the ladder before the retry is chosen
    have down : Climbing {rungs s with connected := false, linkUp := false} :=
      ⟨h.step,h.stepped,h.armed,h.exist,nofun⟩
    simp only [onWifi,onDisconnected]
    split
    · exact climbingCancel down
    split
    · split
      · exact climbingBounded down
      · exact down
    · exact climbingSchedule down
  | gotIp used =>
    obtain ⟨step,stepped,armed,exist,_⟩ := climbingCancel h
    exact ⟨step,stepped,armed,exist,fun _ => rfl⟩
  | gotIp6 backbone =>
    simp only [onWifi]
    split <;> exact h

theorem climbingSupervisor {on s} (h : Climbing (rungs s)) :
    Climbing (rungs (linkSupervisor on s)) := by
  unfold linkSupervisor
  split
  · exact h
  · exact climbingCancel (s := {s with supervisorOn := false}) h

theorem climbingRetry {err s} (h : Climbing (rungs s)) : Climbing (rungs (linkRetry err s)) := by
  by_cases exist : s.timerExists = true
  · simp only [linkRetry,scheduleReconnect,if_pos exist]
    exact climbingArm rfl h.stepped h.seen exist
  · have none : s.timer = none := h.exist (by simpa [rungs] using exist)
    have afresh : Climbing {rungs s with backoffStep := 0, ladder := .cancel :: s.seen.ladder} :=
      ⟨rfl,h.stepped,fun us armed => absurd (none.symm.trans armed) nofun,h.exist,h.seen⟩
    exact climbingSchedule afresh

theorem switchClimbing {err s p q t} (onward : switchStep err s p = (q,t))
    (h : Climbing (rungs s)) : Climbing (rungs t) := by
  have same : rungs (switchStep err s p).2 = rungs s := by cases p <;> rfl
  rw [onward] at same
  exact same ▸ h

theorem clearClimbing {s} (h : Climbing (rungs s)) : Climbing (rungs (clearVerdictBits s)) :=
  ⟨h.step,h.stepped,h.armed,h.exist,nofun⟩

theorem joinClimbing {f err s pc} (h : Climbing (rungs s)) :
    Climbing (rungs (joinStep f err s pc).2.2) := by
  cases pc with
  | cancelReconnect => exact climbingCancel h
  | switchOver p =>
    simp only [joinStep]
    split <;> rename_i onward <;> exact switchClimbing onward h
  | rollback p =>
    simp only [joinStep]
    split <;> rename_i onward <;> exact switchClimbing onward h
  | clearVerdict => exact clearClimbing (s := s) h
  | clearVerdictAgain => exact clearClimbing (s := s) h
  | connect => exact climbingConnect h
  | reconnect => exact climbingConnect h
  | snapshot | stage | verdict | commitConfig | restore =>
    simp only [joinStep]
    split <;> exact h
  | _ => exact h

theorem leaveClimbing {held err s pc} (h : Climbing (rungs s)) :
    Climbing (rungs (leaveStep held err s pc).2.2) := by
  cases pc with
  | switchOver p =>
    simp only [leaveStep]
    split <;> rename_i onward <;> exact switchClimbing onward h
  | cancelReconnect => exact climbingCancel h
  | _ => exact h

theorem climbingStep {w l t} (h : Climbing (rungs w.station)) (stepped : step w l = some t) :
    Climbing (rungs t.station) := by
  cases l with
  | join ssid pass =>
    simp only [step] at stepped
    split at stepped
    · cases Option.some.inj stepped
      exact h
    · split at stepped <;> cases Option.some.inj stepped <;> exact h
  | leave =>
    simp only [step] at stepped
    split at stepped <;> try contradiction
    cases Option.some.inj stepped
    exact h
  | proceed err =>
    simp only [step] at stepped
    split at stepped <;> try contradiction
    · cases Option.some.inj stepped
      exact joinClimbing h
    · cases Option.some.inj stepped
      exact leaveClimbing h
  | raise e =>
    simp only [step] at stepped
    split at stepped <;> try contradiction
    cases Option.some.inj stepped
    exact h
  | deliver n err =>
    simp only [step] at stepped
    split at stepped <;> try contradiction
    cases Option.some.inj stepped
    exact climbingEvent h
  | timer err =>
    simp only [step] at stepped
    split at stepped <;> try contradiction
    cases Option.some.inj stepped
    exact climbingFire h
  | watchdog getErr err =>
    cases Option.some.inj stepped
    exact climbingWatchdog h
  | supervisor on =>
    cases Option.some.inj stepped
    exact climbingSupervisor h
  | retry err =>
    cases Option.some.inj stepped
    exact climbingRetry h

theorem climbingRun {w} (reached : wifi.Reachable w) : Climbing (rungs w.station) := by
  refine reachableInvariant (fun w => Climbing (rungs w.station)) ?_
    (fun s l t => climbingStep) reached
  intro s booted
  have step : s.station.backoffStep = 0 := booted.backoffStep
  have none : s.station.timer = none := booted.timer
  simp only [rungs,step,none,booted.seen,booted.bits]
  exact ⟨rfl,trivial,nofun,fun _ => rfl,nofun⟩

theorem scheduleArms {err s} (exist : s.timerExists = true) :
    (scheduleReconnect err s).timer.isSome = true := by
  simp [scheduleReconnect,exist,armReconnect]

theorem downOffline {s} (climbing : Climbing (rungs s)) (down : s.seen.linkUp = false) :
    s.bits.connected = false := by
  cases up : s.bits.connected with
  | false => rfl
  | true => exact absurd (climbing.seen up) (ne_true_of_eq_false down)

/- Whichever way the reconnect lost its timer, the next tick arms it again. -/
theorem watchdogArms {err s} (charged : Charged s) (climbing : Climbing (rungs s)) :
    (wifiWatchdogCb espOk err s).timer.isSome = true := by
  obtain ⟨supervisorOn,joinActive,hold,down,credentials,exist⟩ := charged
  have offline := downOffline climbing down
  have tick : wifiWatchdogCb espOk err s =
      if s.timer.isSome then {s with haveCredentials := true}
      else scheduleReconnect err {s with haveCredentials := true} := by
    simp [wifiWatchdogCb,supervisorOn,joinActive,hold,offline,credentials,exist]
  rw [tick]
  split
  · assumption
  · exact scheduleArms exist

theorem fireRecovers {err s} (charged : Charged s) (climbing : Climbing (rungs s)) :
    (reconnectTimerCb err {s with timer := none}).seen.attempts =
      s.driver.attempt :: s.seen.attempts ∨
    (reconnectTimerCb err {s with timer := none}).timer.isSome = true := by
  obtain ⟨supervisorOn,joinActive,hold,down,credentials,exist⟩ := charged
  have offline := downOffline climbing down
  by_cases ok : err = espOk
  · refine .inl ?_
    simp [reconnectTimerCb,supervisorOn,joinActive,hold,offline,ok,espWifiConnect,Driver.attempt]
  · refine .inr ?_
    simpa [reconnectTimerCb,supervisorOn,joinActive,hold,offline,ok] using
      scheduleArms (s := {s with timer := none}) exist

theorem ladderRecovers {w} (reached : wifi.Reachable w) :
    Stepped w.station.seen.ladder ∧ Armed w.station.timer w.station.seen.ladder ∧
      (Charged w.station → Recovers w) := by
  have climbing := climbingRun reached
  refine ⟨climbing.stepped,climbing.armed,fun charged => ⟨fun err => ?_,fun err t stepped => ?_⟩⟩
  · exact ⟨_,rfl,watchdogArms charged climbing⟩
  · simp only [step] at stepped
    split at stepped <;> try contradiction
    cases Option.some.inj stepped
    exact fireRecovers charged climbing

def linkLost : List Label :=
  [.raise .staStart,.deliver 0 espOk,.raise (.gotIp ⟨0,.of home secret⟩),.deliver 0 espOk,
    .raise (.staDisconnected (some 200)),.deliver 0 espOk]

def outage : List Label := linkLost ++ [.timer espFail,.timer espFail,.timer espFail]

/- The driver accepts the first attempt, and nothing comes of it. -/
def dropped : List Label := linkLost ++ [.timer espOk]

def charged (s : Station) : Bool :=
  s.supervisorOn && !s.joinActive && !s.hold && !s.seen.linkUp && s.driver.current.hasSsid &&
    s.timerExists

theorem chargedPlain {s : Station} (all : charged s = true) : Charged s := by
  obtain ⟨⟨⟨⟨⟨supervisorOn,joinActive⟩,hold⟩,down⟩,credentials⟩,exist⟩ := by
    simpa [charged] using all
  exact ⟨supervisorOn,joinActive,hold,down,credentials,exist⟩

theorem ladderRecoversHome : ∃ w, wifi.Reachable w ∧ w.station.timer = some 1000001 ∧
    Stepped w.station.seen.ladder ∧ Recovers w := by
  have ran : (wifi.run (bootWifi ⟨.flash,.of home secret,.of home secret,0⟩) outage).any
      (fun w => w.station.timer = some 1000001 && charged w.station) = true := by decide
  obtain ⟨w,reached,ends⟩ := runEnds (bootBooted _) ran
  obtain ⟨timer,inCharge⟩ := (Bool.and_eq_true _ _).mp ends
  obtain ⟨stepped,armed,recovers⟩ := ladderRecovers reached
  exact ⟨w,reached,of_decide_eq_true timer,stepped,recovers (chargedPlain inCharge)⟩

/- A tick that cannot read the configuration leaves a lost attempt lost. -/
theorem unreadTickLeaves : ∃ w t, wifi.Reachable w ∧ Charged w.station ∧
    step w (.watchdog espFail espOk) = some t ∧ t.station.timer = none := by
  have ran : (wifi.run (bootWifi ⟨.flash,.of home secret,.of home secret,0⟩) dropped).any
      (fun w => charged w.station &&
        (wifiWatchdogCb espFail espOk w.station).timer.isNone) = true := by decide
  obtain ⟨w,reached,ends⟩ := runEnds (bootBooted _) ran
  obtain ⟨inCharge,idle⟩ := (Bool.and_eq_true _ _).mp ends
  exact ⟨w,_,reached,chargedPlain inCharge,rfl,Option.isNone_iff_eq_none.mp idle⟩

end EpskcCommissioner.WifiLadder
