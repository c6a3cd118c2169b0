import EpskcCommissioner.WifiOperation

/-! A join as a transaction on the stored credentials: the candidate is tried in
RAM and reaches flash only once it has connected, whatever fails in between. -/
namespace EpskcCommissioner.WifiTransaction
open WifiDriver WifiSupervisor WifiOperation

/- The flash copy is the one at entry, or the candidate once it has connected. -/
def FlashKept (f : JoinFrame) (s : Station) : Prop :=
  s.driver.persisted = f.entry.persisted ∨
    (s.driver.persisted = f.cfg ∧ f.bits.connected = true)

def RolledBack (f : JoinFrame) (s : Station) : Prop :=
  s.driver.current = if f.entry.current.hasSsid then f.entry.current else .empty

/- The promise of one join to whoever cuts the power, and to its caller. -/
structure Contract (f : JoinFrame) (pc : JoinPc) (s : Station) : Prop where
  flash : FlashKept f s
  saved : pc = .returned → f.err = espOk → s.driver.persisted = f.cfg
  rolledBack : pc = .returned → f.bits.connected = false → f.restored = true → RolledBack f s
  released : pc = .returned →
    f.unlocks = 1 ∧ s.opLock = false ∧ s.joinActive = false ∧ f.flashRequested = true

def Untried (f : JoinFrame) (s : Station) : Prop :=
  s.driver.persisted = f.entry.persisted ∧ f.bits.connected = false ∧ f.restored = false

def Trial (f : JoinFrame) (s : Station) : Prop :=
  s.driver.storage = .ram ∧ s.driver.persisted = f.entry.persisted ∧ f.restored = false

def Settled (f : JoinFrame) (s : Station) : Prop :=
  FlashKept f s ∧ (f.err = espOk → s.driver.persisted = f.cfg ∧ f.bits.connected = true) ∧
    (f.restored = true → RolledBack f s)

def At (f : JoinFrame) (s : Station) : JoinPc → Prop
  | .setJoinActive | .cancelReconnect | .storageRam =>
    Untried f s ∧ s.driver.current = f.entry.current
  | .snapshot => Trial f s ∧ Untried f s ∧ s.driver.current = f.entry.current
  | .switchOver _ | .clearVerdict | .stage =>
    Trial f s ∧ Untried f s ∧ f.previous = f.entry.current
  | .zeroRetries | .dropHold | .connect | .waitVerdict =>
    Trial f s ∧ Untried f s ∧ f.previous = f.entry.current
  | .verdict => Trial f s ∧ f.previous = f.entry.current
  | .commitStorage => Trial f s ∧ f.bits.connected = true
  | .commitConfig =>
    s.driver.storage = .flash ∧ s.driver.persisted = f.entry.persisted ∧
      f.bits.connected = true ∧ f.restored = false
  | .noteSaved =>
    s.driver.persisted = f.cfg ∧ f.bits.connected = true ∧ f.restored = false
  | .rollback _ | .restore => Trial f s ∧ f.previous = f.entry.current ∧ f.err ≠ espOk
  | .keepHold =>
    s.driver.persisted = f.entry.persisted ∧ f.err ≠ espOk ∧ f.restored = false
  | .zeroRetriesAgain | .clearVerdictAgain | .releaseHold | .notePrevious | .reconnect
  | .holdIdle | .forgetCredentials =>
    s.driver.persisted = f.entry.persisted ∧ f.err ≠ espOk ∧ RolledBack f s
  | .restoreStorage => Settled f s
  | .clearJoinActive => Settled f s ∧ f.flashRequested = true
  | .unlock => Settled f s ∧ f.flashRequested = true ∧ s.joinActive = false
  | .returned => Settled f s ∧ f.flashRequested = true ∧ s.joinActive = false

def Locked (f : JoinFrame) (pc : JoinPc) (s : Station) : Prop :=
  if pc = .returned then s.opLock = false ∧ f.unlocks = 1 else s.opLock = true ∧ f.unlocks = 0

theorem atFlashKept {f s pc} (h : At f s pc) : FlashKept f s := by
  cases pc <;> simp only [At,Trial,Untried,Settled] at h <;>
    first
    | exact h.1
    | exact h.1.1
    | exact Or.inl h.1
    | exact Or.inl h.1.1
    | exact Or.inl h.1.2.1
    | exact Or.inl h.2.1
    | exact Or.inr ⟨h.1,h.2.1⟩

theorem atOwned {f s t pc} (same : t.owned = s.owned) (h : At f s pc) : At f t pc := by
  have driver : t.driver = s.driver := congrArg Owned.driver same
  have joinActive : t.joinActive = s.joinActive := congrArg Owned.joinActive same
  cases pc <;>
    simpa only [At,Trial,Untried,Settled,FlashKept,RolledBack,driver,joinActive] using h

theorem lockedOwned {f s t pc} (same : t.owned = s.owned) (h : Locked f pc s) : Locked f pc t := by
  have opLock : t.opLock = s.opLock := congrArg Owned.opLock same
  simpa only [Locked,opLock] using h

@[simp] theorem switchDriver (err s p) : (switchStep err s p).2.driver = s.driver := by
  cases p <;> rfl

@[simp] theorem connectDriver (err s) : (espWifiConnect err s).driver = s.driver :=
  congrArg Owned.driver (connectOwned err s)

theorem connectAt {f s pc} (err) (h : At f s pc) : At f (espWifiConnect err s) pc :=
  atOwned (connectOwned err s) h

theorem switchLock (err s p) : (switchStep err s p).2.opLock = s.opLock := by
  cases p <;> rfl

theorem trialSwitch {f err s p} (h : Trial f s) : Trial f (switchStep err s p).2 := by
  simpa only [Trial,switchDriver] using h

theorem untriedSwitch {f err s p} (h : Untried f s) : Untried f (switchStep err s p).2 := by
  simpa only [Untried,switchDriver] using h

theorem trialConfig {f s} (cfg err) (h : Trial f s) : Trial f (setConfig cfg err s) := by
  obtain ⟨ram,flash,restored⟩ := h
  refine ⟨?_,?_,restored⟩
  · simpa only [setConfig,configStorage] using ram
  · simpa only [setConfig,configTrial ram] using flash

theorem settledTrial {f s} (h : Trial f s) (failed : f.err ≠ espOk) : Settled f s :=
  ⟨.inl h.2.1,fun ok => absurd ok failed,fun restored => by simp [h.2.2] at restored⟩

theorem settledRestored {f s} (flash : s.driver.persisted = f.entry.persisted)
    (failed : f.err ≠ espOk) (rolled : f.restored = true → RolledBack f s) : Settled f s :=
  ⟨.inl flash,fun ok => absurd ok failed,rolled⟩

def After (f : JoinFrame) (err : EspErr) (s : Station) (pc : JoinPc) : Prop :=
  At (joinStep f err s pc).1 (joinStep f err s pc).2.2 (joinStep f err s pc).2.1

theorem storageRamAt {f err s} (h : At f s .storageRam) : After f err s .storageRam := by
  obtain ⟨⟨flash,silent,restored⟩,current⟩ := h
  by_cases ok : err = espOk
  · subst ok
    refine ⟨⟨rfl,?_,restored⟩,⟨?_,silent,restored⟩,?_⟩
    · simpa [joinStep,setStorage] using flash
    · simpa [joinStep,setStorage] using flash
    · simpa [joinStep,setStorage] using current
  · simp only [After,joinStep,if_neg ok]
    exact settledRestored (by simpa [setStorage] using flash) ok
      (fun done => by simp [restored] at done)

theorem snapshotAt {f err s} (h : At f s .snapshot) : After f err s .snapshot := by
  obtain ⟨trial,untried,current⟩ := h
  by_cases ok : err = espOk
  · simp only [After,joinStep,if_pos ok]
    exact ⟨trial,untried,current⟩
  · simp only [After,joinStep,if_neg ok]
    exact settledTrial trial ok

theorem switchOverAt {f err s p} (h : At f s (.switchOver p)) : After f err s (.switchOver p) := by
  obtain ⟨trial,untried,previous⟩ := h
  have kept : Trial f (switchStep err s p).2 ∧ Untried f (switchStep err s p).2 ∧
      f.previous = f.entry.current := ⟨trialSwitch trial,untriedSwitch untried,previous⟩
  simp only [After,joinStep]
  split
  all_goals rename_i at_next
  all_goals rw [at_next] at kept
  all_goals exact kept

theorem stageAt {f err s} (h : At f s .stage) : After f err s .stage := by
  obtain ⟨trial,untried,previous⟩ := h
  have kept := trialConfig f.cfg err trial
  by_cases ok : err = espOk
  · simp only [After,joinStep,if_pos ok]
    exact ⟨kept,⟨kept.2.1,untried.2⟩,previous⟩
  · simp only [After,joinStep,if_neg ok]
    exact ⟨kept,previous,ok⟩

theorem tryAt {f err s} (h : At f s .connect) : After f err s .connect := by
  obtain ⟨trial,untried,previous⟩ := connectAt err h
  by_cases ok : err = espOk
  · simp only [After,joinStep,if_pos ok] at trial untried ⊢
    exact ⟨trial,untried,previous⟩
  · simp only [After,joinStep,if_neg ok]
    exact ⟨trial,previous,ok⟩

theorem verdictAt {f err s} (h : At f s .verdict) : After f err s .verdict := by
  obtain ⟨trial,previous⟩ := h
  by_cases up : f.bits.connected = true
  · simp only [After,joinStep,if_pos up]
    exact ⟨trial,up⟩
  · simp only [After,joinStep,if_neg up]
    have failed : espFail ≠ espOk := by decide
    exact ⟨trial,previous,failed⟩

theorem commitStorageAt {f err s} (h : At f s .commitStorage) : After f err s .commitStorage := by
  obtain ⟨⟨_,flash,restored⟩,up⟩ := h
  by_cases ok : err = espOk
  · subst ok
    exact ⟨rfl,flash,up,restored⟩
  · simp only [After,joinStep,if_neg ok]
    exact settledRestored (by simpa [setStorage] using flash) ok
      (fun done => by simp [restored] at done)

theorem commitConfigAt {f err s} (h : At f s .commitConfig) : After f err s .commitConfig := by
  obtain ⟨storage,flash,up,restored⟩ := h
  by_cases ok : err = espOk
  · subst ok
    exact ⟨configCommit storage,up,restored⟩
  · simp only [After,joinStep,if_neg ok]
    refine settledRestored ?_ ok (fun done => by simp [restored] at done)
    simpa [setConfig,configRejected ok] using flash

theorem rollbackAt {f err s p} (h : At f s (.rollback p)) : After f err s (.rollback p) := by
  obtain ⟨trial,known⟩ := h
  have kept : Trial f (switchStep err s p).2 ∧ f.previous = f.entry.current ∧ f.err ≠ espOk :=
    ⟨trialSwitch trial,known⟩
  simp only [After,joinStep]
  split
  all_goals rename_i at_next
  all_goals rw [at_next] at kept
  all_goals exact kept

theorem restoreAt {f err s} (h : At f s .restore) : After f err s .restore := by
  obtain ⟨trial,previous,failed⟩ := h
  have kept := trialConfig f.restore err trial
  by_cases ok : err = espOk
  · subst ok
    refine ⟨kept.2.1,failed,?_⟩
    simp only [joinStep,if_pos,RolledBack,setConfig,configCurrent,JoinFrame.restore,previous]
  · simp only [After,joinStep,if_neg ok]
    exact ⟨kept.2.1,failed,kept.2.2⟩

theorem restoreStorageAt {f err s} (h : At f s .restoreStorage) :
    After f err s .restoreStorage := by
  obtain ⟨flash,saved,rolled⟩ := h
  refine ⟨⟨?_,?_,?_⟩,rfl⟩
  · simpa [joinStep,FlashKept,setStorage] using flash
  · intro ok
    have joined : f.err = espOk := by
      by_cases both : err ≠ espOk ∧ f.err = espOk
      · exact both.2
      · simpa only [joinStep,if_neg both] using ok
    simpa [joinStep,setStorage] using saved joined
  · intro done
    have current : (setStorage .flash err s).driver.current = s.driver.current :=
      storageCurrent .flash err s.driver
    exact current.trans (rolled done)

theorem joinAt {f err s pc} (h : At f s pc) : After f err s pc := by
  cases pc with
  | storageRam => exact storageRamAt h
  | snapshot => exact snapshotAt h
  | switchOver p => exact switchOverAt h
  | stage => exact stageAt h
  | connect => exact tryAt h
  | waitVerdict => exact ⟨h.1,h.2.2⟩
  | verdict => exact verdictAt h
  | commitStorage => exact commitStorageAt h
  | commitConfig => exact commitConfigAt h
  | noteSaved => exact ⟨.inr ⟨h.1,h.2.1⟩,fun _ => ⟨h.1,h.2.1⟩,fun done => absurd done (ne_true_of_eq_false h.2.2)⟩
  | rollback p => exact rollbackAt h
  | restore => exact restoreAt h
  | keepHold => exact settledRestored h.1 h.2.1 (fun done => absurd done (ne_true_of_eq_false h.2.2))
  | clearVerdictAgain =>
    simp only [After,joinStep]
    split <;> exact h
  | reconnect =>
    obtain ⟨flash,failed,rolled⟩ := connectAt err h
    exact settledRestored flash failed (fun _ => rolled)
  | forgetCredentials => exact settledRestored h.1 h.2.1 (fun _ => h.2.2)
  | restoreStorage => exact restoreStorageAt h
  | clearJoinActive => exact ⟨h.1,h.2,rfl⟩
  | _ => exact h

@[simp] theorem connectLock (err s) : (espWifiConnect err s).opLock = s.opLock :=
  congrArg Owned.opLock (connectOwned err s)

theorem switchOnward {err s p q t} (h : switchStep err s p = (q,t)) : t.opLock = s.opLock := by
  have same := switchLock err s p
  rw [h] at same
  exact same

theorem joinInside {pc} (f err s) (inside : pc ≠ .unlock) (running : pc ≠ .returned) :
    (joinStep f err s pc).2.1 ≠ .returned ∧ (joinStep f err s pc).1.unlocks = f.unlocks ∧
      (joinStep f err s pc).2.2.opLock = s.opLock := by
  cases pc <;> simp only [joinStep] <;> try contradiction
  case switchOver p =>
    split
    all_goals rename_i onward
    all_goals simp [switchOnward onward]
  case rollback p =>
    split
    all_goals rename_i onward
    all_goals simp [switchOnward onward]
  case storageRam => split <;> simp [setStorage]
  case snapshot => split <;> simp
  case stage => split <;> simp [setConfig]
  case connect => split <;> simp
  case verdict => split <;> simp
  case commitStorage => split <;> simp [setStorage]
  case commitConfig => split <;> simp [setConfig]
  case restore => split <;> simp [setConfig]
  case clearVerdictAgain => split <;> simp [clearVerdictBits]
  all_goals simp [WifiSupervisor.cancelReconnect,clearVerdictBits,setHold,setStorage]

theorem joinLocked {f err s pc} (h : Locked f pc s) (running : pc ≠ .returned) :
    Locked (joinStep f err s pc).1 (joinStep f err s pc).2.1 (joinStep f err s pc).2.2 := by
  obtain ⟨held,unlocks⟩ : s.opLock = true ∧ f.unlocks = 0 := by simpa [Locked,running] using h
  by_cases last : pc = .unlock
  · subst last
    simp [joinStep,Locked,unlocks]
  · obtain ⟨further,same,lock⟩ := joinInside f err s last running
    rw [Locked,if_neg further,same,lock]
    exact ⟨held,unlocks⟩

def Inside (w : Wifi) : Prop := ∀ f pc, w.op = .join f pc → At f w.station pc ∧ Locked f pc w.station

theorem insideStep {w l t} (before : Inside w) (stepped : step w l = some t) : Inside t := by
  intro g next joining
  cases moved stepped with
  | entered cfg free station inFlight op =>
    obtain ⟨rfl,rfl⟩ := Op.join.inj (op.symm.trans joining)
    rw [station]
    exact ⟨⟨⟨rfl,rfl,rfl⟩,rfl⟩,rfl,rfl⟩
  | leaving free station inFlight op => exact nomatch op.symm.trans joining
  | joined f pc err label op running nextOp station inFlight =>
    obtain ⟨known,locks⟩ := before f pc op
    obtain ⟨rfl,rfl⟩ := Op.join.inj (nextOp.symm.trans joining)
    rw [station]
    exact ⟨joinAt known,joinLocked locks running⟩
  | left held pc err label op running nextOp station inFlight => exact nomatch nextOp.symm.trans joining
  | addressed used n err label found op station inFlight =>
    obtain ⟨known,locks⟩ := before g next (op.symm.trans joining)
    rw [station]
    exact ⟨atOwned (addressOwned used _) known,lockedOwned (addressOwned used _) locks⟩
  | around op calm inFlight =>
    obtain ⟨known,locks⟩ := before g next (op.symm.trans joining)
    exact ⟨atOwned calm.owned known,lockedOwned calm.owned locks⟩

theorem insideRun {w} (reached : wifi.Reachable w) : Inside w := by
  refine reachableInvariant Inside ?_ (fun s l t inv stepped => insideStep inv stepped) reached
  intro s booted f pc joining
  exact nomatch booted.idle.symm.trans joining

theorem contractOf {f pc s} (known : At f s pc) (locks : Locked f pc s) : Contract f pc s := by
  refine ⟨atFlashKept known,?_,?_,?_⟩
  · rintro rfl ok
    exact (known.1.2.1 ok).1
  · rintro rfl _ restored
    exact known.1.2.2 restored
  · rintro rfl
    exact ⟨locks.2,locks.1,known.2.2,known.2.1⟩

theorem joinKeepsContract {w f pc} (reached : wifi.Reachable w) (joining : w.op = .join f pc) :
    Contract f pc w.station := by
  obtain ⟨known,locks⟩ := insideRun reached f pc joining
  exact contractOf known locks

/- A first join that connects: its address arrives during the wait for a verdict. -/
def firstJoin : List Label :=
  .join home secret :: smooth 13 ++ [.raise (.gotIp ⟨1,.of home secret⟩),.deliver 0 espOk] ++ smooth 8

def saved (w : Wifi) : Bool :=
  match w.op with
  | .join f .returned => f.err = espOk && f.cfg = .of home secret
  | _ => false

theorem joinSavesHome : ∃ w f, wifi.Reachable w ∧ Contract f .returned w.station ∧
    w.station.driver.persisted = .of home secret := by
  have ran : (wifi.run (bootWifi ⟨.flash,.empty,.empty,0⟩) firstJoin).any saved = true := by decide
  obtain ⟨w,reached,ends⟩ := runEnds (bootBooted _) ran
  unfold saved at ends
  split at ends <;> try contradiction
  rename_i f joining
  obtain ⟨ok,cfg⟩ : f.err = espOk ∧ f.cfg = .of home secret := by simpa using ends
  have contract := joinKeepsContract reached joining
  exact ⟨w,f,reached,contract,cfg ▸ contract.saved rfl ok⟩

end EpskcCommissioner.WifiTransaction
