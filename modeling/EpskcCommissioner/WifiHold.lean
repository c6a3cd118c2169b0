import EpskcCommissioner.WifiTransaction

/-! Who may leave the station held down. The hold is raised by the helper that both
operations share and lowered on some of their exits only, so what excuses it is
followed from one program point to the next. -/
namespace EpskcCommissioner.WifiHold
open WifiDriver WifiSupervisor WifiOperation WifiTransaction

/- There is nothing to reconnect to, or only a candidate that was rejected and
could not be rolled back. -/
def Excused (s : Station) : Prop :=
  s.driver.current.hasSsid = false ∨ s.seen.rejected = true

/- A driver call fails that leaves the hold behind on working credentials: the
erase of a leave, or the rollback of a join whose candidate was never staged. -/
def strands (w : Wifi) : Label → Bool
  | .proceed err =>
    err != espOk && w.station.driver.current.hasSsid && !w.station.seen.rejected &&
      match w.op with
      | .leave _ .storageFlash | .leave _ .erase => true
      | .join f .restore => f.staged.isNone
      | _ => false
  | _ => false

def Spared (w : Wifi) (l : Label) : Prop := strands w l = false
instance (w l) : Decidable (Spared w l) := inferInstanceAs (Decidable (_ = _))

def Held (s : Station) : Prop := s.hold = true → Excused s

def HoldJoin (f : JoinFrame) (s : Station) : JoinPc → Prop
  | .setJoinActive | .cancelReconnect | .storageRam | .snapshot | .switchOver .raiseHold => Held s
  | .connect | .waitVerdict | .verdict | .commitStorage | .commitConfig | .noteSaved
  | .notePrevious | .reconnect => s.hold = false
  | .keepHold => Excused s
  | .zeroRetriesAgain | .clearVerdictAgain =>
    f.previous.hasSsid = false → s.driver.current.hasSsid = false
  | .holdIdle | .forgetCredentials => s.driver.current.hasSsid = false
  | .restoreStorage | .clearJoinActive | .unlock | .returned => Held s
  | .switchOver _ | .clearVerdict | .stage | .zeroRetries | .dropHold | .rollback _ | .restore
  | .releaseHold => True

def HoldLeave (s : Station) : LeavePc → Prop
  | .switchOver _ | .storageFlash | .erase => True
  | .forgetCredentials | .cancelReconnect | .unlock | .returned => Held s

/- What excuses the hold at each point of whatever runs; a leave holds the lock. -/
def HoldAt (s : Station) : Op → Prop
  | .idle => Held s
  | .join f pc => HoldJoin f s pc
  | .leave _ pc => HoldLeave s pc ∧ (pc ≠ .returned → s.opLock = true)

theorem heldOwned {s t} (same : t.owned = s.owned) (h : Held s) : Held t := by
  have hold : t.hold = s.hold := congrArg Owned.hold same
  have driver : t.driver = s.driver := congrArg Owned.driver same
  have rejected : t.seen.rejected = s.seen.rejected := congrArg Owned.rejected same
  simpa only [Held,Excused,hold,driver,rejected] using h

theorem holdOwned {s t op} (same : t.owned = s.owned) (h : HoldAt s op) : HoldAt t op := by
  have hold : t.hold = s.hold := congrArg Owned.hold same
  have driver : t.driver = s.driver := congrArg Owned.driver same
  have opLock : t.opLock = s.opLock := congrArg Owned.opLock same
  have rejected : t.seen.rejected = s.seen.rejected := congrArg Owned.rejected same
  cases op with
  | idle => exact heldOwned same h
  | leave held pc =>
    obtain ⟨known,lock⟩ := h
    refine ⟨?_,opLock ▸ lock⟩
    cases pc <;> first | trivial | exact heldOwned same known
  | join f pc =>
    have kept := @heldOwned s t same
    simp only [HoldAt] at h ⊢
    cases pc with
    | switchOver p => cases p <;> first | trivial | exact kept h
    | _ => first | trivial | exact kept h | simpa only [HoldJoin,Excused,hold,driver,rejected] using h

theorem storageHeld {which err s} (h : Held s) : Held (setStorage which err s) := by
  simpa only [Held,Excused,setStorage,storageCurrent] using h

theorem failedExcused {err s} (cfg) (failed : err ≠ espOk) (h : Excused s) :
    Excused (setConfig cfg err s) := by
  rcases h with blank | rejected
  · exact .inl (by simpa only [setConfig,configRejected failed] using blank)
  · exact .inr (by simpa [setConfig,rejected] using failed)

theorem sparedExcused {w err} (spared : Spared w (.proceed err)) (failed : err ≠ espOk)
    (point : (match w.op with
      | .leave _ .storageFlash | .leave _ .erase => true
      | .join f .restore => f.staged.isNone
      | _ => false) = true) : Excused w.station := by
  simp only [Spared,strands,point,Bool.and_true] at spared
  by_cases blank : w.station.driver.current.hasSsid = false
  · exact .inl blank
  · exact .inr (by simpa [failed,blank] using spared)

theorem restoreHold {w f err} (spared : Spared w (.proceed err)) (op : w.op = .join f .restore) :
    HoldJoin (joinStep f err w.station .restore).1 (joinStep f err w.station .restore).2.2
      (joinStep f err w.station .restore).2.1 := by
  by_cases ok : err = espOk
  · subst ok
    intro blank
    have blank : f.previous.hasSsid = false := blank
    have restored : f.restore = .empty := if_neg (by simp [blank])
    exact (congrArg WifiConfig.hasSsid restored).trans emptyHasNoSsid
  · simp only [joinStep,if_neg ok]
    cases staged : f.staged with
    | some generation => exact .inr (by simp)
    | none =>
      have excused := sparedExcused spared ok (by simp [op,staged])
      rcases failedExcused f.restore ok excused with blank | rejected
      · exact .inl blank
      · exact .inr (by simpa using rejected)

theorem joinHold {w f err pc} (h : HoldJoin f w.station pc) (spared : Spared w (.proceed err))
    (op : w.op = .join f pc) :
    HoldJoin (joinStep f err w.station pc).1 (joinStep f err w.station pc).2.2
      (joinStep f err w.station pc).2.1 := by
  cases pc with
  | restore => exact restoreHold spared op
  | storageRam =>
    have held : Held (setStorage .ram err w.station) := storageHeld h
    simp only [joinStep]
    split <;> exact held
  | snapshot =>
    simp only [joinStep]
    split <;> exact h
  | switchOver p =>
    cases p with
    | disconnect => by_cases ok : err = espOk <;> simp [joinStep,switchStep,ok,HoldJoin]
    | _ => trivial
  | rollback p =>
    cases p with
    | disconnect => by_cases ok : err = espOk <;> simp [joinStep,switchStep,ok,HoldJoin]
    | _ => trivial
  | stage =>
    simp only [joinStep]
    split <;> trivial
  | dropHold => rfl
  | connect =>
    have down : (espWifiConnect err w.station).hold = false :=
      (congrArg Owned.hold (connectOwned err _)).trans h
    simp only [joinStep]
    split
    · exact down
    · trivial
  | verdict =>
    simp only [joinStep]
    split
    · exact h
    · trivial
  | commitStorage =>
    simp only [joinStep]
    split
    · exact h
    · exact fun up => absurd up (ne_true_of_eq_false h)
  | commitConfig =>
    simp only [joinStep]
    split
    · exact h
    · exact fun up => absurd up (ne_true_of_eq_false h)
  | noteSaved => exact fun up => absurd up (ne_true_of_eq_false h)
  | keepHold => exact fun _ => h
  | clearVerdictAgain =>
    simp only [joinStep]
    split
    · trivial
    · rename_i none
      exact h (by simpa using none)
  | releaseHold => rfl
  | reconnect =>
    have down : (espWifiConnect err w.station).hold = false :=
      (congrArg Owned.hold (connectOwned err _)).trans h
    exact fun up => absurd up (ne_true_of_eq_false down)
  | forgetCredentials => exact fun _ => .inl h
  | restoreStorage => exact storageHeld h
  | _ => exact h

theorem leaveHold {w held err pc} (h : HoldLeave w.station pc)
    (spared : Spared w (.proceed err)) (op : w.op = .leave held pc) :
    HoldLeave (leaveStep held err w.station pc).2.2 (leaveStep held err w.station pc).2.1 := by
  cases pc with
  | switchOver p =>
    cases p with
    | disconnect =>
      simp only [leaveStep,switchStep]
      split <;> trivial
    | _ => trivial
  | storageFlash =>
    simp only [leaveStep]
    split
    · trivial
    · rename_i failed
      have excused := sparedExcused spared failed (by simp [op])
      exact storageHeld (fun _ => excused)
  | erase =>
    by_cases ok : err = espOk
    · subst ok
      exact fun _ => .inl emptyHasNoSsid
    · simp only [leaveStep,if_neg ok]
      exact fun _ => failedExcused .empty ok (sparedExcused spared ok (by simp [op]))
  | _ => exact h

theorem leaveLock {held err s pc} (h : s.opLock = true) :
    (leaveStep held err s pc).2.1 ≠ .returned → (leaveStep held err s pc).2.2.opLock = true := by
  intro further
  cases pc with
  | switchOver p =>
    simp only [leaveStep]
    split <;> rename_i onward <;> exact (switchOnward onward).trans h
  | unlock => exact absurd rfl further
  | _ => exact h

theorem freeHeld {w} (inside : Inside w) (h : HoldAt w.station w.op)
    (free : w.station.opLock = false) : Held w.station := by
  cases op : w.op with
  | idle =>
    rw [op] at h
    exact h
  | join f pc =>
    rw [op] at h
    by_cases last : pc = .returned
    · subst last
      exact h
    · have locks := (inside f pc op).2
      rw [Locked,if_neg last] at locks
      exact absurd locks.1 (ne_true_of_eq_false free)
  | leave held pc =>
    rw [op] at h
    by_cases last : pc = .returned
    · subst last
      exact h.1
    · exact absurd (h.2 last) (ne_true_of_eq_false free)

theorem holdStep {w l t} (inside : Inside w) (before : HoldAt w.station w.op) (spared : Spared w l)
    (stepped : step w l = some t) : HoldAt t.station t.op := by
  cases moved stepped with
  | entered cfg free station inFlight op =>
    rw [station,op]
    exact freeHeld inside before free
  | leaving free station inFlight op =>
    rw [station,op]
    exact ⟨trivial,fun _ => rfl⟩
  | joined f pc err label op running next station inFlight =>
    subst label
    rw [op] at before
    rw [station,next]
    exact joinHold before spared op
  | left held pc err label op running next station inFlight =>
    subst label
    rw [op] at before
    rw [station,next]
    exact ⟨leaveHold before.1 spared op,leaveLock (before.2 running)⟩
  | addressed used n err label found op station inFlight =>
    rw [station,op]
    exact holdOwned (addressOwned used _) before
  | around op calm inFlight =>
    rw [op]
    exact holdOwned calm.owned before

theorem holdRun {w} (reached : wifi.Under Spared w) : HoldAt w.station w.op := by
  refine underInvariantWith Inside (fun w => HoldAt w.station w.op)
    (fun s h => insideRun (underReachable h)) ?_ (fun s l t => holdStep) reached
  intro s booted
  rw [booted.idle]
  exact fun up => absurd up (ne_true_of_eq_false booted.hold)

theorem doneHeld {s op} (done : op.done = true) (h : HoldAt s op) : Held s := by
  unfold Op.done at done
  split at done <;> try contradiction
  · exact h
  · exact h
  · exact h.1

theorem heldExcused {w} (reached : wifi.Under Spared w) (done : w.op.done = true)
    (hold : w.station.hold = true) : Excused w.station :=
  doneHeld done (holdRun reached) hold

/- A leave whose calls succeed stays down, with nothing to connect to. -/
theorem heldAfterLeave : ∃ w, wifi.Under Spared w ∧ w.station.hold = true ∧ Excused w.station := by
  have ran : (wifi.run (bootWifi ⟨.flash,.of home secret,.of home secret,0⟩)
      (.leave :: smooth 9)).any (fun w => w.op.done && w.station.hold) = true := by decide
  obtain ⟨w,reached,ends⟩ := underEnds Spared (bootBooted _) (by decide) ran
  obtain ⟨done,hold⟩ := by simpa using ends
  exact ⟨w,reached,hold,heldExcused reached done hold⟩

def stranded (s : Station) : Bool := s.hold && s.driver.current.hasSsid && !s.seen.rejected

theorem strandedExcused {s} (h : stranded s = true) : s.hold = true ∧ ¬Excused s := by
  obtain ⟨⟨hold,credentials⟩,fresh⟩ := by simpa only [stranded,Bool.and_eq_true] using h
  refine ⟨hold,fun excused => ?_⟩
  rcases excused with blank | rejected
  · exact absurd credentials (ne_true_of_eq_false blank)
  · simp [rejected] at fresh

def strandedLeave (w : Wifi) : Bool := 
  match w.op with
  | .leave _ .returned => stranded w.station
  | _ => false

def strandedJoin (w : Wifi) : Bool := 
  match w.op with
  | .join _ .returned => stranded w.station
  | _ => false

def refusedErase : List Label := .leave :: smooth 5 ++ .proceed espFail :: smooth 2

def refusedTwice : List Label :=
  .join home secret :: smooth 9 ++ .proceed espFail :: smooth 4 ++ .proceed espFail :: smooth 4

theorem heldStranded :
    (∃ w err, wifi.Reachable w ∧ w.op = .leave err .returned ∧ w.station.hold = true ∧
      ¬Excused w.station) ∧
    ∃ w f, wifi.Reachable w ∧ w.op = .join f .returned ∧ w.station.hold = true ∧
      ¬Excused w.station := by
  have leaves : (wifi.run (bootWifi ⟨.flash,.of home secret,.of home secret,0⟩) refusedErase).any
      strandedLeave = true := by decide
  have joins : (wifi.run (bootWifi ⟨.flash,.of home secret,.of home secret,0⟩) refusedTwice).any
      strandedJoin = true := by decide
  constructor
  · obtain ⟨w,reached,ends⟩ := runEnds (bootBooted _) leaves
    unfold strandedLeave at ends
    split at ends <;> try contradiction
    rename_i err op
    exact ⟨w,err,reached,op,strandedExcused ends⟩
  · obtain ⟨w,reached,ends⟩ := runEnds (bootBooted _) joins
    unfold strandedJoin at ends
    split at ends <;> try contradiction
    rename_i f op
    exact ⟨w,f,reached,op,strandedExcused ends⟩

end EpskcCommissioner.WifiHold
