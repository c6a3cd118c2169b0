import EpskcCommissioner.WifiTransaction

/-! What the CONNECTED bit proves about a candidate. The bit carries no mark of the
connection that raised it, so the verdict is sound only as long as no address of
an earlier connection is handled while the result bits are watched. -/
namespace EpskcCommissioner.WifiVerdict
open WifiDriver WifiSupervisor WifiOperation WifiTransaction

/- An address was handled that a connection under the staged candidate obtained. -/
def Proven (f : JoinFrame) (s : Station) : Prop :=
  ∃ used ∈ s.seen.handled, f.staged = some used.generation ∧ used.config = f.cfg

/- The join is about to write the candidate, has changed flash, or returned ESP_OK. -/
def Commits (f : JoinFrame) (pc : JoinPc) (s : Station) : Prop :=
  pc = .commitConfig ∨ s.driver.persisted ≠ f.entry.persisted ∨ (pc = .returned ∧ f.err = espOk)

def watching : JoinPc → Bool
  | .stage | .zeroRetries | .dropHold | .connect | .waitVerdict => true
  | _ => false

/- An address is handled while the bits are watched, and the connection that
obtained it was made under another configuration than the staged candidate. -/
def foreign (w : Wifi) : Label → Bool
  | .deliver n _ =>
    match w.op, w.inFlight[n]? with
    | .join f pc, some (.gotIp used) => watching pc && f.staged != some used.generation
    | _, _ => false
  | _ => false

def Own (w : Wifi) (l : Label) : Prop := foreign w l = false
instance (w l) : Decidable (Own w l) := inferInstanceAs (Decidable (_ = _))

structure Drives (s t : Station) : Prop where
  driver : (t.driver.generation = s.driver.generation ∧ t.driver.current = s.driver.current ∧
      (t.seen.attempts = s.seen.attempts ∨ t.seen.attempts = s.driver.attempt :: s.seen.attempts)) ∨
    (t.driver.generation = s.driver.generation + 1 ∧ t.seen.attempts = s.seen.attempts)
  handled : t.seen.handled = s.seen.handled
  connected : t.bits.connected = true → s.bits.connected = true

theorem drivesSame {s t : Station} (generation : t.driver.generation = s.driver.generation)
    (current : t.driver.current = s.driver.current) (attempts : t.seen.attempts = s.seen.attempts)
    (handled : t.seen.handled = s.seen.handled)
    (connected : t.bits.connected = true → s.bits.connected = true) : Drives s t :=
  ⟨.inl ⟨generation,current,.inl attempts⟩,handled,connected⟩

theorem drivesRefl (s : Station) : Drives s s := drivesSame rfl rfl rfl rfl id

theorem calmDrives {s t} (calm : Calm s t) : Drives s t := by
  have driver : t.driver = s.driver := congrArg Owned.driver calm.owned
  exact ⟨.inl ⟨by rw [driver],by rw [driver],calm.attempts⟩,calm.handled,calm.connected⟩

theorem configDrives (cfg err s) : Drives s (setConfig cfg err s) := by
  by_cases ok : err = espOk
  · subst ok
    exact ⟨.inr ⟨rfl,rfl⟩,rfl,id⟩
  · have rejected : (setConfig cfg err s).driver = s.driver := configRejected ok
    exact drivesSame (by rw [rejected]) (by rw [rejected]) rfl rfl id

theorem storageDrives (which err s) : Drives s (setStorage which err s) :=
  drivesSame (storageGeneration which err _) (storageCurrent which err _) rfl rfl id

theorem switchDrives (err s p) : Drives s (switchStep err s p).2 := by
  cases p <;> exact drivesSame rfl rfl rfl rfl id

theorem switchDrivesTo {err s p q t} (h : switchStep err s p = (q,t)) : Drives s t := by
  have drives := switchDrives err s p
  rw [h] at drives
  exact drives

theorem joinDrives (f err s pc) : Drives s (joinStep f err s pc).2.2 := by
  cases pc with
  | storageRam => exact storageDrives .ram err s
  | snapshot =>
    simp only [joinStep]
    split <;> exact drivesRefl s
  | switchOver p =>
    simp only [joinStep]
    split <;> rename_i onward <;> exact switchDrivesTo onward
  | clearVerdict => exact drivesSame rfl rfl rfl rfl (fun up => absurd up Bool.false_ne_true)
  | stage =>
    simp only [joinStep]
    split <;> exact configDrives f.cfg err s
  | connect => exact calmDrives (connectCalm err s)
  | verdict =>
    simp only [joinStep]
    split <;> exact drivesRefl s
  | commitStorage => exact storageDrives .flash err s
  | commitConfig =>
    simp only [joinStep]
    split <;> exact configDrives f.cfg err s
  | rollback p =>
    simp only [joinStep]
    split <;> rename_i onward <;> exact switchDrivesTo onward
  | restore =>
    have drives := configDrives f.restore err s
    simp only [joinStep]
    split
    · exact drives
    · exact ⟨drives.driver,drives.handled,drives.connected⟩
  | clearVerdictAgain => exact drivesSame rfl rfl rfl rfl (fun up => absurd up Bool.false_ne_true)
  | reconnect => exact calmDrives (connectCalm err s)
  | restoreStorage => exact storageDrives .flash err s
  | _ => exact drivesSame rfl rfl rfl rfl id

theorem leaveDrives (held err s pc) : Drives s (leaveStep held err s pc).2.2 := by
  cases pc with
  | switchOver p =>
    simp only [leaveStep]
    split <;> rename_i onward <;> exact switchDrivesTo onward
  | storageFlash => exact storageDrives .flash err s
  | erase => exact configDrives .empty err s
  | _ => exact drivesSame rfl rfl rfl rfl id

def Traced (s : Station) : Prop :=
  ∀ used ∈ s.seen.attempts, used.generation ≤ s.driver.generation ∧
    (used.generation = s.driver.generation → used.config = s.driver.current)

theorem drivesTraced {s t} (drives : Drives s t) (h : Traced s) : Traced t := by
  intro used mem
  rcases drives.driver with ⟨generation,current,attempts⟩ | ⟨generation,attempts⟩
  · rw [generation,current]
    rcases attempts with attempts | attempts
    · exact h used (attempts ▸ mem)
    · rw [attempts] at mem
      rcases List.mem_cons.mp mem with rfl | old
      · exact ⟨Nat.le_refl _,fun _ => rfl⟩
      · exact h used old
  · have old := (h used (attempts ▸ mem)).1
    exact ⟨by omega,fun same => by omega⟩

theorem drivesAttempts {s t used} (drives : Drives s t) (mem : used ∈ s.seen.attempts) :
    used ∈ t.seen.attempts := by
  rcases drives.driver with ⟨_,_,attempts | attempts⟩ | ⟨_,attempts⟩
  · exact attempts ▸ mem
  · exact attempts ▸ List.mem_cons_of_mem _ mem
  · exact attempts ▸ mem

/- Every address in flight belongs to a connection the driver started. -/
structure Accounted (w : Wifi) : Prop where
  traced : Traced w.station
  raised : ∀ used, .gotIp used ∈ w.inFlight → used ∈ w.station.seen.attempts

theorem accountedDrives {w t : Wifi} (before : Accounted w) (drives : Drives w.station t.station)
    (inFlight : ∀ e ∈ t.inFlight, e ∈ w.inFlight ∨ mayRaise w e = true) : Accounted t := by
  refine ⟨drivesTraced drives before.traced,fun used mem => drivesAttempts drives ?_⟩
  rcases inFlight _ mem with old | new
  · exact before.raised used old
  · simpa [mayRaise] using new

theorem accountedStep {w l t} (before : Accounted w) (stepped : step w l = some t) :
    Accounted t := by
  cases moved stepped with
  | entered cfg free station inFlight op =>
    refine accountedDrives before ?_ (fun e mem => .inl (inFlight ▸ mem))
    exact station ▸ drivesSame rfl rfl rfl rfl id
  | leaving free station inFlight op =>
    refine accountedDrives before ?_ (fun e mem => .inl (inFlight ▸ mem))
    exact station ▸ drivesSame rfl rfl rfl rfl id
  | joined f pc err label op running next station inFlight =>
    refine accountedDrives before ?_ (fun e mem => .inl (inFlight ▸ mem))
    exact station ▸ joinDrives f err _ pc
  | left held pc err label op running next station inFlight =>
    refine accountedDrives before ?_ (fun e mem => .inl (inFlight ▸ mem))
    exact station ▸ leaveDrives held err _ pc
  | addressed used n err label found op station inFlight =>
    have traced : Traced (onGotIp used w.station) := before.traced
    have raised := fun d mem => before.raised d (inFlight _ mem)
    exact ⟨station ▸ traced,fun d mem => station ▸ raised d mem⟩
  | around op calm inFlight => exact accountedDrives before (calmDrives calm) inFlight

theorem accountedRun {w} (reached : wifi.Reachable w) : Accounted w := by
  refine reachableInvariant Accounted ?_ (fun s l t => accountedStep) reached
  intro s booted
  refine ⟨fun used mem => ?_,fun used mem => ?_⟩
  · rw [booted.seen] at mem
    exact nomatch mem
  · rw [booted.quiet] at mem
    exact nomatch mem

def unstaged : JoinPc → Bool
  | .setJoinActive | .cancelReconnect | .storageRam | .snapshot | .switchOver _ | .clearVerdict
  | .stage => true
  | _ => false

def Staged (f : JoinFrame) (s : Station) : Prop :=
  f.staged = some s.driver.generation ∧ s.driver.current = f.cfg

structure Judged (f : JoinFrame) (pc : JoinPc) (s : Station) : Prop where
  proven : f.bits.connected = true → Proven f s
  clean : watching pc = true → s.bits.connected = true → Proven f s
  early : unstaged pc = true → f.staged = none
  trial : watching pc = true → pc ≠ .stage → Staged f s

theorem provenDrives {f g s t} (drives : Drives s t) (staged : g.staged = f.staged)
    (cfg : g.cfg = f.cfg) (h : Proven f s) : Proven g t := by
  obtain ⟨used,mem,generation,config⟩ := h
  exact ⟨used,drives.handled ▸ mem,staged.trans generation,config.trans cfg.symm⟩

theorem provenStaged {f s} (h : Proven f s) : f.staged ≠ none := by
  obtain ⟨used,mem,generation,config⟩ := h
  exact fun none => nomatch none.symm.trans generation

theorem judgedOutside {f g pc s t} (drives : Drives s t) (staged : g.staged = f.staged)
    (cfg : g.cfg = f.cfg) (bits : g.bits = f.bits) (outside : watching pc = false)
    (early : unstaged pc = true → f.staged = none) (h : f.bits.connected = true → Proven f s) :
    Judged g pc t := by
  refine ⟨fun up => ?_,fun inside => ?_,fun first => staged.trans (early first),fun inside => ?_⟩
  · exact provenDrives drives staged cfg (h (bits ▸ up))
  · exact absurd inside (ne_true_of_eq_false outside)
  · exact absurd inside (ne_true_of_eq_false outside)

theorem clearVerdictJudged {f err s} (h : Judged f .clearVerdict s) :
    Judged f .stage (joinStep f err s .clearVerdict).2.2 := by
  have drives := joinDrives f err s .clearVerdict
  refine ⟨fun up => provenDrives drives rfl rfl (h.proven up),fun _ up => ?_,fun _ => h.early rfl,?_⟩
  · exact nomatch up
  · exact fun _ other => absurd rfl other

theorem stageJudged {f err s} (h : Judged f .stage s) :
    Judged (joinStep f err s .stage).1 (joinStep f err s .stage).2.1 (joinStep f err s .stage).2.2 := by
  have none := h.early rfl
  have drives := joinDrives f err s .stage
  by_cases ok : err = espOk
  · subst ok
    refine ⟨fun up => ?_,fun _ up => ?_,fun first => absurd first Bool.false_ne_true,fun _ _ => ⟨rfl,rfl⟩⟩
    · exact absurd none (provenStaged (h.proven up))
    · exact absurd none (provenStaged (h.clean rfl up))
  · simp only [joinStep,if_neg ok] at drives ⊢
    exact judgedOutside drives rfl rfl rfl rfl (fun first => absurd first Bool.false_ne_true) h.proven

theorem trialJudged {f pc next s t} (h : Judged f pc s) (inside : watching pc = true)
    (staged : pc ≠ .stage) (drives : Drives s t) (generation : t.driver.generation = s.driver.generation)
    (current : t.driver.current = s.driver.current) (later : unstaged next = false) :
    Judged f next t := by
  obtain ⟨trial,candidate⟩ := h.trial inside staged
  refine ⟨fun up => ?_,fun _ up => ?_,fun first => ?_,fun _ _ => ⟨?_,?_⟩⟩
  · exact provenDrives drives rfl rfl (h.proven up)
  · exact provenDrives drives rfl rfl (h.clean inside (drives.connected up))
  · exact absurd first (ne_true_of_eq_false later)
  · rw [generation]; exact trial
  · rw [current]; exact candidate

theorem connectJudged {f err s} (h : Judged f .connect s) :
    Judged (joinStep f err s .connect).1 (joinStep f err s .connect).2.1
      (joinStep f err s .connect).2.2 := by
  have drives := joinDrives f err s .connect
  have driver : (espWifiConnect err s).driver = s.driver := connectDriver err s
  have trial : Judged f .waitVerdict (espWifiConnect err s) :=
    trialJudged h rfl (by decide) drives (by rw [driver]) (by rw [driver]) rfl
  by_cases ok : err = espOk
  · simp only [joinStep,if_pos ok]
    exact ⟨trial.proven,trial.clean,trial.early,trial.trial⟩
  · simp only [joinStep,if_neg ok] at drives ⊢
    exact judgedOutside drives rfl rfl rfl rfl (fun first => absurd first Bool.false_ne_true) h.proven

theorem waitVerdictJudged {f err s} (h : Judged f .waitVerdict s) :
    Judged (joinStep f err s .waitVerdict).1 .verdict s :=
  ⟨h.clean rfl,fun inside => absurd inside Bool.false_ne_true,fun first => absurd first Bool.false_ne_true,
    fun inside => absurd inside Bool.false_ne_true⟩

theorem joinFrame {pc} (f err s) (outside : watching pc = false) :
    (joinStep f err s pc).1.staged = f.staged ∧ (joinStep f err s pc).1.cfg = f.cfg ∧
      (joinStep f err s pc).1.bits = f.bits := by
  cases pc <;> simp only [joinStep] <;> first | contradiction | (split <;> simp) | simp

theorem joinOutside {pc} (f err s) (outside : watching pc = false) (other : pc ≠ .clearVerdict) :
    watching (joinStep f err s pc).2.1 = false ∧
      (unstaged (joinStep f err s pc).2.1 = true → unstaged pc = true) := by
  cases pc <;> simp only [joinStep] <;>
    first | contradiction | (split <;> simp [watching,unstaged]) | simp [watching,unstaged]

theorem joinJudged {f err s pc} (h : Judged f pc s) :
    Judged (joinStep f err s pc).1 (joinStep f err s pc).2.1 (joinStep f err s pc).2.2 := by
  have drives := joinDrives f err s pc
  by_cases inside : watching pc = true
  · cases pc with
    | stage => exact stageJudged h
    | zeroRetries => exact trialJudged h rfl (by decide) drives rfl rfl rfl
    | dropHold => exact trialJudged h rfl (by decide) drives rfl rfl rfl
    | connect => exact connectJudged h
    | waitVerdict => exact waitVerdictJudged h
    | _ => contradiction
  by_cases clearing : pc = .clearVerdict
  · subst clearing
    exact clearVerdictJudged h
  · have outside : watching pc = false := by simpa using inside
    obtain ⟨staged,cfg,bits⟩ := joinFrame f err s outside
    obtain ⟨further,early⟩ := joinOutside f err s outside clearing
    exact judgedOutside drives staged cfg bits further (fun first => h.early (early first)) h.proven

theorem calmJudged {f pc s t} (calm : Calm s t) (h : Judged f pc s) : Judged f pc t := by
  have drives := calmDrives calm
  have driver : t.driver = s.driver := congrArg Owned.driver calm.owned
  refine ⟨fun up => provenDrives drives rfl rfl (h.proven up),fun inside up => ?_,h.early,?_⟩
  · exact provenDrives drives rfl rfl (h.clean inside (calm.connected up))
  · intro inside staged
    simpa only [Staged,driver] using h.trial inside staged

/- An address that is not foreign, handled inside the window, proves the candidate. -/
theorem addressJudged {f pc s used} (h : Judged f pc s) (traced : Traced s)
    (started : used ∈ s.seen.attempts)
    (own : watching pc = true → f.staged = some used.generation) :
    Judged f pc (onGotIp used s) := by
  have later : Proven f s → Proven f (onGotIp used s) := fun ⟨d,mem,known⟩ =>
    ⟨d,List.mem_cons_of_mem _ mem,known⟩
  refine ⟨fun up => later (h.proven up),fun inside _ => ?_,h.early,h.trial⟩
  by_cases first : pc = .stage
  · have none := h.early (first ▸ rfl)
    exact nomatch none.symm.trans (own inside)
  · obtain ⟨staged,candidate⟩ := h.trial inside first
    have same : used.generation = s.driver.generation :=
      Option.some.inj ((own inside).symm.trans staged)
    exact ⟨used,List.mem_cons_self,own inside,((traced used started).2 same).trans candidate⟩

def Watched (w : Wifi) : Prop := ∀ f pc, w.op = .join f pc → Judged f pc w.station

theorem watchedStep {w l t} (accounted : Accounted w) (before : Watched w) (own : Own w l)
    (stepped : step w l = some t) : Watched t := by
  intro g next joining
  cases moved stepped with
  | entered cfg free station inFlight op =>
    obtain ⟨rfl,rfl⟩ := Op.join.inj (op.symm.trans joining)
    exact ⟨fun up => absurd up Bool.false_ne_true,fun inside => absurd inside Bool.false_ne_true,fun _ => rfl,
      fun inside => absurd inside Bool.false_ne_true⟩
  | leaving free station inFlight op => exact nomatch op.symm.trans joining
  | joined f pc err label op running nextOp station inFlight =>
    obtain ⟨rfl,rfl⟩ := Op.join.inj (nextOp.symm.trans joining)
    rw [station]
    exact joinJudged (before f pc op)
  | left held pc err label op running nextOp station inFlight =>
    exact nomatch nextOp.symm.trans joining
  | addressed used n err label found op station inFlight =>
    have op := op.symm.trans joining
    have started := accounted.raised used (List.mem_of_getElem? found)
    rw [station]
    refine addressJudged (before g next op) accounted.traced started (fun inside => ?_)
    subst label
    simpa [Own,foreign,op,found,inside] using own
  | around op calm inFlight => exact calmJudged calm (before g next (op.symm.trans joining))

theorem watchedRun {w} (reached : wifi.Under Own w) : Watched w := by
  refine underInvariantWith Accounted Watched (fun s h => accountedRun (underReachable h)) ?_
    (fun s l t => watchedStep) reached
  intro s booted f pc joining
  exact nomatch booted.idle.symm.trans joining

theorem commitsConnected {f pc s} (known : At f s pc) (commits : Commits f pc s) :
    f.bits.connected = true := by
  rcases commits with rfl | changed | ⟨rfl,ok⟩
  · exact known.2.2.1
  · rcases atFlashKept known with kept | ⟨_,up⟩
    · exact absurd kept changed
    · exact up
  · exact (known.1.2.1 ok).2

theorem commitProven {w f pc} (reached : wifi.Under Own w) (joining : w.op = .join f pc)
    (commits : Commits f pc w.station) : Proven f w.station := by
  obtain ⟨known,_⟩ := insideRun (underReachable reached) f pc joining
  exact (watchedRun reached f pc joining).proven (commitsConnected known commits)

/- The address of the candidate's own connection arrives while it is waited for. -/
theorem commitProvenHome : ∃ w f, wifi.Under Own w ∧ w.op = .join f .returned ∧
    Proven f w.station := by
  have ran : (wifi.run (bootWifi ⟨.flash,.empty,.empty,0⟩) firstJoin).any saved = true := by decide
  obtain ⟨w,reached,ends⟩ := underEnds Own (bootBooted _) (by decide) ran
  unfold saved at ends
  split at ends <;> try contradiction
  rename_i f joining
  have ok : f.err = espOk := by simp at ends; exact ends.1
  exact ⟨w,f,reached,joining,commitProven reached joining (.inr (.inr ⟨rfl,ok⟩))⟩

/- The address that the access point of `home` granted is handled only after the
disconnect wait has expired and the bits were cleared. -/
def lateAddress : List Label :=
  [.raise .staStart,.deliver 0 espOk,.raise (.gotIp ⟨0,.of home secret⟩),.join cabin secret] ++
  smooth 7 ++ [.raise (.staDisconnected none)] ++ smooth 6 ++ [.deliver 0 espOk] ++ smooth 8

def deceived (w : Wifi) : Bool :=
  match w.op with
  | .join f .returned =>
    f.err = espOk && f.entry.persisted = .of home secret && f.cfg = .of cabin secret &&
      w.station.driver.persisted = f.cfg && w.station.seen.handled = [⟨0,.of home secret⟩]
  | _ => false

theorem lateAddressCommits : ∃ w f, wifi.Reachable w ∧ w.op = .join f .returned ∧ f.err = espOk ∧
    f.entry.persisted ≠ f.cfg ∧ w.station.driver.persisted = f.cfg ∧
    ∀ used ∈ w.station.seen.handled, used.config ≠ f.cfg := by
  have ran : (wifi.run (bootWifi ⟨.flash,.of home secret,.of home secret,0⟩) lateAddress).any
      deceived = true := by decide
  obtain ⟨w,reached,ends⟩ := runEnds (bootBooted _) ran
  unfold deceived at ends
  split at ends <;> try contradiction
  rename_i f joining
  obtain ⟨⟨⟨⟨ok,entry⟩,cfg⟩,written⟩,handled⟩ := by
    simpa only [Bool.and_eq_true,decide_eq_true_eq] using ends
  have other : WifiConfig.of home secret ≠ WifiConfig.of cabin secret := by decide
  refine ⟨w,f,reached,joining,ok,by rw [entry,cfg]; exact other,written,fun used mem => ?_⟩
  rw [handled] at mem
  rw [List.mem_singleton.mp mem,cfg]
  exact other

end EpskcCommissioner.WifiVerdict
