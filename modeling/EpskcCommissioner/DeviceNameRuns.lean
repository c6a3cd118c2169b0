import EpskcCommissioner.DeviceName
import EpskcCommissioner.Relay

/-! Where every name of the device comes from: the flash, the worker's queue and the places that
show the name are a relay. -/
namespace EpskcCommissioner.DeviceName

/- Inside `settings_set_device_name`, or with its name not yet at the worker. -/
def Saver.busy : Saver → Bool
  | .setting _ | .committing _ | .sending _ => true
  | .idle | .waiting => false

def Saver.written : Saver → List Name
  | .committing n | .sending n => [n]
  | .idle | .setting _ | .waiting => []

def Job.named : Job → Option Name
  | .rename _ n => some n
  | .brStart | .other => none

def Place.rank : Place → Nat
  | .buffer => 0
  | .mesh => 1
  | .delegate => 2
  | .label => 3

def Worker.carries (place : Place) : Worker → List Name
  | .applying _ n now => if now.rank ≤ place.rank then [n] else []
  | .idle | .starting => []

def written (savers : Who → Saver) : List Name := (savers .ui).written ++ (savers .console).written

def queued (jobs : BoundedQueue Job 4) : List Name := jobs.items.filterMap Job.named

/- Behind the name of `run_border_router_start_claimed`. -/
def Border.loaded (b : Border) : Bool :=
  match b.starting with
  | .none | .claimed => b.started
  | .loaded | .named | .ready => true

def relay (s : Device) : Relay Place Name where
  stored := saved s.flash
  way place := s.worker.carries place ++ (queued s.jobs ++ written s.savers)
  shown
    | .buffer => if s.border.loaded then some s.border.borderRouterName else none
    | .mesh => none
    | .delegate => if s.matter.started then some s.tbrName else none
    | .label => if s.matter = .done then some s.nodeLabel else none

/- The name that `matter_init` has read and not yet given to all. -/
def Matter.reading : Matter → Option Name
  | .atWork n | .labelling n => some n
  | .before | .done | .failed => none

def quietSavers (s : Device) : Bool := !(s.savers .ui).busy && !(s.savers .console).busy

/- Nothing fails, one name is saved at a time and none while `matter_init` is between its name
and the label, and no controller writes the label. -/
def orderly (s : Device) : Label → Bool
  | .save _ _ => quietSavers s && s.matter.reading.isNone
  | .matterInit ok => ok && quietSavers s
  | .matterStep ok | .saveStep _ ok => ok
  | .controller _ => false
  | l => served l

def Orderly (s : Device) (l : Label) : Prop := orderly s l = true

instance (s : Device) (l : Label) : Decidable (Orderly s l) := inferInstanceAs (Decidable (_ = _))

structure Order (s : Device) : Prop where
  single : ∀ who other, (s.savers who).busy = true → (s.savers other).busy = true → who = other
  reads : ∀ n ∈ s.matter.reading, n = saved s.flash ∧ quietSavers s = true
  safe : s.flash.Safe () ∨ ∃ who n, s.savers who = .committing n

variable {s t : Device} {l : Label} {who : Who} {n : Name}

theorem writtenBusy {saver : Saver} (free : saver.busy = false) : saver.written = [] := by
  cases saver with
  | idle | waiting => rfl
  | setting n | committing n | sending n => cases free

theorem writtenAlone {savers : Who → Saver} (alone : ∀ other, other ≠ who → (savers other).busy = false) :
    written savers = (savers who).written := by
  unfold written
  cases who with
  | ui => rw [writtenBusy (alone .console Who.noConfusion), List.append_nil]
  | console => rw [writtenBusy (alone .ui Who.noConfusion), List.nil_append]

theorem quietBoth (quiet : quietSavers s = true) (who : Who) : (s.savers who).busy = false := by
  simp only [quietSavers,Bool.and_eq_true,Bool.not_eq_true'] at quiet
  cases who with
  | ui => exact quiet.1
  | console => exact quiet.2

theorem writtenQuiet (quiet : quietSavers s = true) : written s.savers = [] := by
  rw [@writtenAlone .ui s.savers fun other _ => quietBoth quiet other]
  exact writtenBusy (quietBoth quiet .ui)

theorem writtenUpdate {savers : Who → Saver} {now : Saver}
    (alone : ∀ other, other ≠ who → (savers other).busy = false) :
    written (Function.update savers who now) = now.written := by
  have others : ∀ other, other ≠ who → (Function.update savers who now other).busy = false := by
    intro other else_
    rw [Function.update_of_ne else_]
    exact alone other else_
  rw [writtenAlone others, Function.update_self]

theorem aloneBusy (order : Order s) (busy : (s.savers who).busy = true) (other : Who) (else_ : other ≠ who) :
    (s.savers other).busy = false := by
  rw [Bool.eq_false_iff]
  exact fun both => else_ (order.single who other busy both).symm

theorem readsNone (order : Order s) (busy : (s.savers who).busy = true) : s.matter.reading = none := by
  cases reading : s.matter.reading with
  | none => rfl
  | some n =>
    have quiet := (order.reads n reading).2
    cases busy.symm.trans (quietBoth quiet who)

theorem orderSaver {now : Saver} (alone : ∀ other, other ≠ who → (s.savers other).busy = false)
    (none : s.matter.reading = none) (safe : s.flash.Safe () ∨ ∃ n, now = .committing n) :
    Order (s.saver who now) where
  single := by
    have mine : ∀ one, ((s.saver who now).savers one).busy = true → one = who := by
      intro one busy
      by_contra else_
      have free := alone one else_
      rw [← Function.update_of_ne else_ now s.savers] at free
      cases busy.symm.trans free
    exact fun one other busy too => (mine one busy).trans (mine other too).symm
  reads n mem := nomatch none.symm.trans mem
  safe := by
    rcases safe with safe | ⟨n,rfl⟩
    · exact .inl safe
    · exact .inr ⟨who,n,Function.update_self ..⟩

theorem orderSame (order : Order s) (flash : t.flash = s.flash) (savers : t.savers = s.savers)
    (reads : ∀ n ∈ t.matter.reading, n ∈ s.matter.reading) : Order t where
  single := savers ▸ order.single
  reads n mem := by
    obtain ⟨same,quiet⟩ := order.reads n (reads n mem)
    refine ⟨flash ▸ same,?_⟩
    unfold quietSavers
    rw [savers]
    exact quiet
  safe := by
    rw [flash, savers]
    exact order.safe

abbrev Follows (s t : Device) : Prop := Order t ∧ Relay.Steps (relay s) (relay t)

theorem follows {r : Relay Place Name} (order : Order t) (steps : Relay.Steps (relay s) r) (same : relay t = r) :
    Follows s t := ⟨order,same ▸ steps⟩

theorem followsSame (order : Order t) (same : relay t = relay s) : Follows s t := follows order .refl same

theorem relaySaver {now : Saver} (same : written (Function.update s.savers who now) = written s.savers) :
    relay (s.saver who now) = relay s := by
  unfold relay Device.saver
  rw [same]

theorem saveFollows {text : List UInt8} (order : Order s) (quiet : quietSavers s = true)
    (none : s.matter.reading = none) : Follows s (save who text s) := by
  have alone : ∀ other, other ≠ who → (s.savers other).busy = false := fun other _ => quietBoth quiet other
  unfold save
  split
  · have safe : s.flash.Safe () := by
      refine order.safe.resolve_right ?_
      rintro ⟨other,n,committing⟩
      have free := quietBoth quiet other
      rw [committing] at free
      cases free
    refine followsSame (orderSaver alone none (.inl safe)) (relaySaver ?_)
    rw [writtenUpdate alone, writtenQuiet quiet]
    rfl
  · exact ⟨order,.refl⟩

theorem saveCases (taken : saveStep who true s = some t) :
    (∃ n, s.savers who = .setting n ∧
      t = {s with flash := s.flash.write () (some n.1)}.saver who (.committing n)) ∨
    (∃ n, s.savers who = .committing n ∧ t = {s with flash := s.flash.commit}.saver who (.sending n)) ∨
    ∃ n jobs now, s.savers who = .sending n ∧ s.jobs.send (.rename who n) = some jobs ∧ now.busy = false ∧
      t = {s with jobs := jobs}.saver who now := by
  unfold saveStep at taken
  cases saver : s.savers who with
  | idle | waiting =>
    rw [saver] at taken
    cases taken
  | setting n =>
    rw [saver] at taken
    exact .inl ⟨n,rfl,(Option.some.inj taken).symm⟩
  | committing n =>
    rw [saver] at taken
    exact .inr (.inl ⟨n,rfl,(Option.some.inj taken).symm⟩)
  | sending n =>
    rw [saver] at taken
    obtain ⟨jobs,sent,same⟩ := Option.map_eq_some_iff.mp taken
    refine .inr (.inr ⟨n,jobs,_,rfl,sent,?_,same.symm⟩)
    split <;> rfl

theorem queuedSent {jobs next : BoundedQueue Job 4} {job : Job} (sent : jobs.send job = some next) :
    queued next = queued jobs ++ job.named.toList := by
  unfold queued
  rw [BoundedQueue.sendItems sent, List.filterMap_append]
  cases job <;> rfl

theorem saveStepFollows (order : Order s) (taken : saveStep who true s = some t) : Follows s t := by
  obtain ⟨n,here,rfl⟩ | ⟨n,here,rfl⟩ | ⟨n,jobs,now,here,sent,free,rfl⟩ := saveCases taken
  all_goals
    have busy : (s.savers who).busy = true := by rw [here]; rfl
    have alone := aloneBusy order busy
    have none := readsNone order busy
    have mine : written s.savers = (s.savers who).written := writtenAlone alone
    rw [here] at mine
  · refine follows (orderSaver alone none (.inr ⟨n,rfl⟩)) (.single (.store (relay s) n)) ?_
    have stored : saved (s.flash.write () (some n.1)) = n := savedWritten s.flash n
    have way : ∀ place, s.worker.carries place ++
        (queued s.jobs ++ written (Function.update s.savers who (.committing n))) = (relay s).way place ++ [n] := by
      intro place
      have before : (relay s).way place = s.worker.carries place ++ (queued s.jobs ++ written s.savers) := rfl
      rw [before, mine, writtenUpdate alone]
      simp [Saver.written]
    exact congrArg₂ (fun v w => (⟨v,w,(relay s).shown⟩ : Relay Place Name)) stored (funext way)
  · refine followsSame (orderSaver alone none (.inl rfl)) ?_
    refine (relaySaver (s := {s with flash := s.flash.commit}) ?_).trans rfl
    exact (writtenUpdate alone).trans mine.symm
  · have safe : s.flash.Safe () := by
      refine order.safe.resolve_right ?_
      rintro ⟨other,m,committing⟩
      obtain rfl := order.single other who (by rw [committing]; rfl) busy
      cases here.symm.trans committing
    refine followsSame (orderSaver alone none (.inl safe)) ?_
    have way : queued jobs ++ written (Function.update s.savers who now) = queued s.jobs ++ written s.savers := by
      rw [queuedSent sent, writtenUpdate alone, writtenBusy free, mine, List.append_nil]
      rfl
    exact congrArg (fun w => {relay s with way := fun place => s.worker.carries place ++ w}) way

def behind (s : Device) : List Name := queued s.jobs ++ written s.savers

theorem wayNext {now : Place} (here : s.worker = .applying who n now) : (relay s).way now = n :: behind s := by
  have carried : s.worker.carries now = [n] := by
    rw [here]
    exact if_pos (Nat.le_refl _)
  change s.worker.carries now ++ behind s = n :: behind s
  rw [carried]
  rfl

theorem wayDropped {now : Place} {after : Worker} (here : s.worker = .applying who n now)
    (next : ∀ place, after.carries place = if place = now then [] else (Worker.applying who n now).carries place) :
    (fun place => after.carries place ++ behind s) = Function.update (relay s).way now (behind s) := by
  funext place
  rw [next]
  by_cases same : place = now
  · subst same
    rw [if_pos rfl, Function.update_self]
    rfl
  · rw [if_neg same, Function.update_of_ne same, ← here]
    rfl

theorem finishBehind (who : Who) (s : Device) : behind (finishRename who s) = behind s := by
  unfold finishRename behind
  dsimp only
  split
  · rename_i given
    unfold written
    rw [Function.update_self, Function.update_of_ne Who.noConfusion, given.2]
    rfl
  · rfl

theorem orderFinish (order : Order s) (who : Who) : Order (finishRename who s) := by
  unfold finishRename
  by_cases given : who = .console ∧ s.savers .console = .waiting
  · dsimp only
    rw [if_pos given]
    have kept : ∀ other, (Function.update s.savers .console .idle other).busy = true →
        (s.savers other).busy = true := by
      intro other busy
      by_cases same : other = .console
      · rw [same, Function.update_self] at busy
        cases busy
      · rwa [Function.update_of_ne same] at busy
    refine ⟨fun one other busy too => order.single one other (kept one busy) (kept other too),fun n mem => ?_,?_⟩
    · obtain ⟨same,quiet⟩ := order.reads n mem
      refine ⟨same,?_⟩
      have free := quietBoth quiet .ui
      simp only [quietSavers,Function.update_self,Function.update_of_ne (Who.noConfusion : Who.ui ≠ .console),free]
      rfl
    · rcases order.safe with safe | ⟨other,n,committing⟩
      · exact .inl safe
      · refine .inr ⟨other,n,?_⟩
        have else_ : other ≠ .console := by
          rintro rfl
          cases committing.symm.trans given.2
        dsimp only
        rw [Function.update_of_ne else_]
        exact committing
  · dsimp only
    rw [if_neg given]
    exact orderSame order rfl rfl fun _ mem => mem

theorem relayWhole (s : Device) :
    relay s = ⟨saved s.flash,fun place => s.worker.carries place ++ behind s,(relay s).shown⟩ := rfl

theorem relaySame (stored : saved t.flash = saved s.flash)
    (way : ∀ place, t.worker.carries place ++ behind t = s.worker.carries place ++ behind s)
    (shown : (relay t).shown = (relay s).shown) : relay t = relay s := by
  rw [relayWhole t, relayWhole s, stored, funext way, shown]

theorem readAt (place : Place) (flash : t.flash = s.flash) (worker : t.worker = s.worker) (rest : behind t = behind s)
    (shown : (relay t).shown = Function.update (relay s).shown place (some (saved s.flash))) :
    Relay.Step (relay s) (relay t) := by
  rw [relayWhole t, shown, flash, worker, rest]
  exact .read (relay s) place

theorem receiveFollows (order : Order s) (taken : receive s = some t) : Follows s t := by
  have front : ∀ {job jobs}, s.jobs.receive = some (job,jobs) →
      queued s.jobs = job.named.toList ++ queued jobs := by
    intro job jobs received
    unfold queued
    rw [BoundedQueue.receiveItems received]
    cases job <;> rfl
  unfold receive at taken
  split at taken
  · rename_i who n jobs idle received
    cases Option.some.inj taken
    refine followsSame (orderSame order rfl rfl fun _ mem => mem) (relaySame rfl (fun place => ?_) rfl)
    unfold behind
    rw [idle, front received]
    cases place <;> rfl
  · rename_i jobs idle received
    have way : queued jobs ++ written s.savers = behind s := by
      unfold behind
      rw [front received]
      rfl
    split at taken
    · rename_i claimed
      cases Option.some.inj taken
      refine followsSame (orderSame order rfl rfl fun _ mem => mem) (relaySame rfl (fun place => ?_) ?_)
      · rw [idle, ← way]
        rfl
      · obtain ⟨_,fresh,rests⟩ := claimsFree claimed
        funext place
        cases place with
        | buffer => simp [relay,Border.loaded,fresh,rests]
        | mesh | delegate | label => rfl
    · cases Option.some.inj taken
      refine followsSame (orderSame order rfl rfl fun _ mem => mem) (relaySame rfl (fun place => ?_) rfl)
      rw [← way]
      rfl
  · rename_i jobs idle received
    cases Option.some.inj taken
    refine followsSame (orderSame order rfl rfl fun _ mem => mem) (relaySame rfl (fun place => ?_) rfl)
    unfold behind
    rw [front received]
    rfl
  · cases taken

theorem dropped {now : Place} {shown : Place → Option Name} (after : Worker) (here : s.worker = .applying who n now)
    (next : ∀ place, after.carries place = if place = now then [] else (Worker.applying who n now).carries place)
    (shows : shown = Function.update (relay s).shown now (some n) ∨
      (relay s).shown now = none ∧ shown = (relay s).shown) :
    Relay.Step (relay s) ⟨saved s.flash,fun place => after.carries place ++ behind s,shown⟩ := by
  rw [wayDropped here next]
  rcases shows with rfl | ⟨hidden,rfl⟩
  · exact .arrive (wayNext here)
  · exact .pass (wayNext here) hidden

theorem droppedEnd {u : Device} (here : u.worker = .applying who n .label)
    (shows : (relay t).shown = Function.update (relay u).shown .label (some n) ∨
      (relay u).shown .label = none ∧ (relay t).shown = (relay u).shown)
    (same : saved t.flash = saved u.flash) (idle : t.worker = .idle) (rest : behind t = behind u) :
    Relay.Step (relay u) (relay t) := by
  have gone := dropped .idle here (fun place => by cases place <;> rfl) shows
  rw [relayWhole t, same, idle, rest]
  exact gone

def Alike (b c : Border) : Prop := b.loaded = c.loaded ∧ b.borderRouterName = c.borderRouterName

theorem alikePublish (ok published : Bool) (b : Border) : Alike (publishName ok published b) b := by
  obtain ⟨starting,started,_,name⟩ := publishNameKept ok published b
  refine ⟨?_,name⟩
  unfold Border.loaded
  rw [starting, started]

theorem shownAlike (alike : Alike t.border s.border) (matter : t.matter = s.matter) (tbr : t.tbrName = s.tbrName)
    (label : t.nodeLabel = s.nodeLabel) : (relay t).shown = (relay s).shown := by
  obtain ⟨loaded,name⟩ := alike
  funext place
  cases place with
  | buffer => simp [relay,loaded,name]
  | mesh => rfl
  | delegate => simp [relay,matter,tbr]
  | label => simp [relay,matter,label]

theorem workFollows {published : Bool} (order : Order s) (taken : work true published s = some t) : Follows s t := by
  unfold work at taken
  cases here : s.worker with
  | idle | starting =>
    rw [here] at taken
    cases taken
  | applying who n place =>
    rw [here] at taken
    cases place with
    | buffer =>
      cases Option.some.inj taken
      refine ⟨orderSame order rfl rfl fun _ mem => mem,.single ?_⟩
      refine dropped (.applying who n .mesh) here (fun place => by cases place <;> rfl) ?_
      cases loaded : s.border.loaded with
      | true =>
        refine .inl (funext fun place => ?_)
        cases place with
        | buffer => exact if_pos loaded
        | mesh | delegate | label => rfl
      | false =>
        have hidden : (relay s).shown .buffer = none := if_neg (by rw [loaded]; exact Bool.false_ne_true)
        refine .inr ⟨hidden,funext fun place => ?_⟩
        cases place with
        | buffer => exact (if_neg (by rw [← Bool.not_eq_false, not_not]; exact loaded)).trans hidden.symm
        | mesh | delegate | label => rfl
    | mesh =>
      cases Option.some.inj taken
      refine ⟨orderSame order rfl rfl fun _ mem => mem,.single ?_⟩
      refine dropped (.applying who n .delegate) here (fun place => by cases place <;> rfl) (.inr ⟨rfl,?_⟩)
      refine shownAlike ?_ rfl rfl rfl
      dsimp only
      split
      · exact ⟨rfl,rfl⟩
      · exact alikePublish ..
    | delegate =>
      dsimp only at taken
      split at taken
      · rename_i started
        cases Option.some.inj taken
        refine ⟨orderSame order rfl rfl fun _ mem => mem,.single ?_⟩
        refine dropped (.applying who n .label) here (fun place => by cases place <;> rfl) (.inl ?_)
        funext place
        cases place with
        | delegate => exact if_pos started
        | buffer | mesh | label => rfl
      · rename_i before
        cases Option.some.inj taken
        have hidden : (relay s).shown .delegate = none := if_neg before
        have hides : (relay s).shown .label = none := by
          refine if_neg fun done => before ?_
          rw [done]
          rfl
        have first : Relay.Step (relay s) (relay {s with worker := .applying who n .label}) :=
          dropped _ here (fun place => by cases place <;> rfl) (.inr ⟨hidden,rfl⟩)
        have second : Relay.Step (relay {s with worker := .applying who n .label}) (relay (finishRename who s)) :=
          droppedEnd rfl (.inr ⟨hides,rfl⟩) rfl rfl (finishBehind who s)
        exact ⟨orderFinish order who,.tail (.single first) second⟩
    | label =>
      cases Option.some.inj taken
      have labelled : Order {s with nodeLabel := n} := orderSame order rfl rfl fun _ mem => mem
      refine ⟨orderFinish labelled who,.single ?_⟩
      refine droppedEnd here ?_ rfl rfl (finishBehind who {s with nodeLabel := n})
      by_cases done : s.matter = .done
      · refine .inl (funext fun place => ?_)
        cases place with
        | label => exact if_pos done
        | buffer | mesh | delegate => rfl
      · have hidden : (relay s).shown .label = none := if_neg done
        refine .inr ⟨hidden,funext fun place => ?_⟩
        cases place with
        | label => exact (if_neg done).trans hidden.symm
        | buffer | mesh | delegate => rfl

theorem startFollows (order : Order s) (taken : startStep true s = some t) : Follows s t := by
  unfold startStep at taken
  cases place : s.border.starting with
  | none =>
    rw [place] at taken
    cases taken
  | claimed =>
    rw [place] at taken
    cases Option.some.inj taken
    refine ⟨orderSame order rfl rfl fun _ mem => mem,.single (readAt .buffer rfl rfl rfl ?_)⟩
    funext other
    cases other <;> rfl
  | loaded =>
    rw [place] at taken
    cases Option.some.inj taken
    refine followsSame (orderSame order rfl rfl fun _ mem => mem) (relaySame rfl (fun _ => rfl) ?_)
    refine shownAlike ⟨?_,rfl⟩ rfl rfl rfl
    simp [Border.loaded,place]
  | named =>
    rw [place] at taken
    cases Option.some.inj taken
    refine followsSame (orderSame order rfl rfl fun _ mem => mem) (relaySame rfl (fun _ => rfl) ?_)
    refine shownAlike ⟨?_,rfl⟩ rfl rfl rfl
    simp [Border.loaded,place]
  | ready =>
    rw [place] at taken
    cases Option.some.inj taken
    refine followsSame (orderSame order rfl rfl fun _ mem => mem) (relaySame rfl (fun at_ => ?_) ?_)
    · have same : (finishStart true s).worker.carries at_ = s.worker.carries at_ := by
        unfold finishStart
        dsimp only
        split
        · rename_i starting
          rw [starting]
          rfl
        · rfl
      exact congrArg (· ++ behind s) same
    · refine shownAlike ⟨?_,rfl⟩ rfl rfl rfl
      simp [Border.loaded,finishStart,place]

theorem matterFollows (order : Order s) (taken : matterStep true s = some t) : Follows s t := by
  unfold matterStep at taken
  cases matter : s.matter with
  | before | done | failed =>
    rw [matter] at taken
    cases taken
  | atWork n =>
    rw [matter] at taken
    cases Option.some.inj taken
    obtain ⟨same,quiet⟩ := order.reads n (by rw [matter]; rfl)
    have still : Order {s with tbrName := n, matter := .labelling n} :=
      orderSame order rfl rfl fun m mem => by rw [matter]; exact mem
    refine ⟨still,.single (readAt .delegate rfl rfl rfl ?_)⟩
    rw [← same]
    funext other
    cases other with
    | label => simp [relay,matter]
    | buffer | mesh | delegate => rfl
  | labelling n =>
    rw [matter] at taken
    cases Option.some.inj taken
    obtain ⟨same,quiet⟩ := order.reads n (by rw [matter]; rfl)
    refine ⟨orderSame order rfl rfl nofun,.single (readAt .label rfl rfl rfl ?_)⟩
    rw [← same]
    funext other
    cases other with
    | delegate => simp [relay,matter,Matter.started]
    | buffer | mesh | label => rfl

/- Every step of the device is some steps of the relay. -/
theorem stepFollows (order : Order s) (good : Orderly s l) (taken : step s l = some t) : Follows s t := by
  have kept : ∀ {u : Device}, u.flash = s.flash → u.savers = s.savers → u.matter = s.matter → Order u :=
    fun flash savers matter => orderSame order flash savers fun n mem => matter ▸ mem
  have border : ∀ b : Border, Alike b s.border → Follows s {s with border := b} := fun b alike =>
    followsSame (kept rfl rfl rfl) (relaySame rfl (fun _ => rfl) (shownAlike alike rfl rfl rfl))
  cases l with
  | boot instanceName =>
    obtain ⟨_,same⟩ := Option.ite_none_left_eq_some.mp taken
    cases Option.some.inj same
    exact followsSame (kept rfl rfl rfl) (relaySame rfl (fun _ => rfl) (shownAlike ⟨rfl,rfl⟩ rfl rfl rfl))
  | cut kept nodeLabel =>
    cases Option.some.inj taken
    refine follows ⟨nofun,nofun,.inl rfl⟩ (.single (.reset (relay s) (saved (s.flash.cut kept)))) ?_
    have shown : (relay (off (s.flash.cut kept) nodeLabel)).shown = fun _ => none := by
      funext place
      cases place <;> rfl
    rw [relayWhole, shown]
    rfl
  | threadInit =>
    obtain ⟨_,same⟩ := bootedStep taken
    cases Option.some.inj same
    exact border _ ⟨rfl,rfl⟩
  | matterInit ok =>
    obtain ⟨rfl,quiet⟩ := Bool.and_eq_true_iff.mp (show (ok && quietSavers s) = true from good)
    obtain ⟨_,same⟩ := bootedStep taken
    obtain ⟨before,same⟩ := Option.ite_none_right_eq_some.mp same
    cases Option.some.inj same
    refine followsSame ⟨order.single,fun n mem => ⟨(Option.some.inj mem).symm,quiet⟩,order.safe⟩
      (relaySame rfl (fun _ => rfl) (funext fun place => ?_))
    cases place <;> simp [relay,before,Matter.started]
  | matterStep ok =>
    obtain rfl : ok = true := good
    exact matterFollows order (bootedStep taken).2
  | save who text =>
    obtain ⟨quiet,none⟩ := Bool.and_eq_true_iff.mp (show (quietSavers s && s.matter.reading.isNone) = true from good)
    obtain ⟨_,same⟩ := bootedStep taken
    obtain ⟨_,same⟩ := Option.ite_none_right_eq_some.mp same
    cases Option.some.inj same
    exact saveFollows order quiet (Option.isNone_iff_eq_none.mp none)
  | saveStep who ok =>
    obtain rfl : ok = true := good
    exact saveStepFollows order (bootedStep taken).2
  | enqueue start =>
    obtain ⟨_,same⟩ := bootedStep taken
    obtain ⟨jobs,sent,rfl⟩ := Option.map_eq_some_iff.mp same
    refine followsSame (kept rfl rfl rfl) (relaySame rfl (fun place => ?_) rfl)
    have way : queued jobs = queued s.jobs := by
      rw [queuedSent sent]
      cases start <;> exact List.append_nil _
    unfold behind
    rw [way]
  | fallback => cases good
  | startStep ok =>
    obtain rfl : ok = true := good
    exact startFollows order (bootedStep taken).2
  | receive => exact receiveFollows order (bootedStep taken).2
  | work ok published =>
    obtain rfl : ok = true := good
    exact workFollows order (bootedStep taken).2
  | role attached agent =>
    obtain ⟨_,same⟩ := bootedStep taken
    cases Option.some.inj same
    exact border _ ⟨rfl,rfl⟩
  | library publishes =>
    obtain ⟨_,same⟩ := bootedStep taken
    cases Option.some.inj same
    exact border _ ⟨rfl,rfl⟩
  | serviceChanged ok =>
    obtain ⟨_,same⟩ := bootedStep taken
    cases Option.some.inj same
    refine border _ ?_
    unfold serviceChanged
    split <;> exact ⟨rfl,rfl⟩
  | key next =>
    obtain ⟨_,same⟩ := bootedStep taken
    obtain ⟨_,same⟩ := Option.ite_none_left_eq_some.mp same
    cases Option.some.inj same
    exact border _ ⟨rfl,rfl⟩
  | shareChanged =>
    obtain ⟨_,same⟩ := bootedStep taken
    cases Option.some.inj same
    obtain ⟨r,same,_⟩ := shareStateRecord s.border
    refine border _ ?_
    rw [same]
    exact ⟨rfl,rfl⟩
  | controller n => cases good

theorem reachedFresh (reached : device.Under Orderly s) : Order s ∧ (relay s).Fresh := by
  refine underInvariant (fun s => Order s ∧ (relay s).Fresh) ?_ ?_ reached
  · rintro s ⟨content,nodeLabel,rfl⟩
    refine ⟨⟨nofun,nofun,.inl rfl⟩,fun place => ⟨nofun,fun _ v shown => ?_⟩⟩
    cases place <;> cases shown
  · rintro s l t ⟨order,fresh⟩ good taken
    obtain ⟨order,steps⟩ := stepFollows order good taken
    exact ⟨order,Relay.freshSteps fresh steps⟩

theorem orderlyServed (s : Device) (l : Label) (good : Orderly s l) : Served s l := by
  cases l with
  | fallback => cases good
  | startStep | work => exact good
  | boot | threadInit | matterInit | matterStep | save | saveStep | enqueue | receive | role | library |
    serviceChanged | key | shareChanged | controller | cut => rfl

def Worker.applies : Worker → Bool
  | .applying _ _ _ => true
  | .idle | .starting => false

def Quiet (s : Device) : Prop := quietSavers s = true ∧ queued s.jobs = [] ∧ s.worker.applies = false

instance (s : Device) : Decidable (Quiet s) := inferInstanceAs (Decidable (_ ∧ _ ∧ _))

/- With no name on its way, whatever shows one shows the name in the flash, where a loss of power
does not change it: the border router once it has started, mdns where it advertises it, and the
two attributes of Matter once `matter_init` is through. -/
theorem nameEverywhere (reached : device.Under Orderly s) (quiet : Quiet s) :
    (∀ kept, saved (s.flash.cut kept) = saved s.flash) ∧
    (s.border.started = true → s.border.borderRouterName = saved s.flash ∧ s.border.instanceName = saved s.flash ∧
      ∀ n, s.border.record = some n ∨ s.border.shareRecord = some n → n = saved s.flash) ∧
    (s.matter = .done → s.tbrName = saved s.flash ∧ s.nodeLabel = saved s.flash) := by
  obtain ⟨order,fresh⟩ := reachedFresh reached
  obtain ⟨savers,empty,free⟩ := quiet
  have advertised := reachedAdvertised (underWeaken orderlyServed reached)
  have way : ∀ place, (relay s).way place = [] := by
    intro place
    have rest : behind s = [] := by
      unfold behind
      rw [empty, writtenQuiet savers]
      rfl
    rw [relayWhole]
    dsimp only
    rw [rest, List.append_nil]
    cases worker : s.worker with
    | idle | starting => rfl
    | applying who n place =>
      rw [worker] at free
      cases free
  have shows : ∀ place {v}, (relay s).shown place = some v → v = saved s.flash := fun place {v} shown =>
    (fresh place).2 (way place) v shown
  refine ⟨fun kept => ?_,fun started => ?_,fun done => ⟨shows .delegate ?_,shows .label (if_pos done)⟩⟩
  · have safe : s.flash.Safe () := by
      refine order.safe.resolve_right ?_
      rintro ⟨who,n,committing⟩
      have free := quietBoth savers who
      rw [committing] at free
      cases free
    unfold saved
    rw [Durable.cutSafe safe]
  · have loaded : s.border.loaded = true := by
      cases starting : s.border.starting with
      | none => simp [Border.loaded,starting,started]
      | claimed =>
        have fresh := (advertised.going (by rw [starting]; exact Starting.noConfusion)).2.2
        cases fresh.symm.trans started
      | loaded | named | ready => simp [Border.loaded,starting]
    have name : s.border.borderRouterName = saved s.flash := shows .buffer (if_pos loaded)
    have still : s.worker.moving = false := by
      cases worker : s.worker with
      | idle | starting => rfl
      | applying who n place =>
        rw [worker] at free
        cases free
    have published := advertised.published (.inr started) still
    exact ⟨name,published.named.trans name,fun n shown => (published.records n shown).trans name⟩
  · exact if_pos (by rw [done]; rfl)

def attic : Name := ⟨[0x61,0x74,0x74,0x69,0x63],by decide⟩

def applied : List Label := .receive :: List.replicate 4 (.work true true)

def showsAll (n : Name) (s : Device) : Bool :=
  decide (Quiet s) && s.border.started && s.border.record == some n && decide (s.matter = .done) && s.nodeLabel == n

theorem nameEverywhereRenamed : ∃ s, device.Under Orderly s ∧ s.border.record = some porch ∧
    saved s.flash = porch ∧ s.nodeLabel = saved s.flash := by
  have all : device.Meets Orderly blank (bringUp ++ (saving .ui porch ++ applied)) := by decide +kernel
  have ran : (device.run blank (bringUp ++ (saving .ui porch ++ applied))).any (showsAll porch) = true := by
    decide +kernel
  obtain ⟨s,under,ends⟩ := underEnds Orderly blankStart all ran
  simp only [showsAll,Bool.and_eq_true,decide_eq_true_eq,beq_iff_eq] at ends
  obtain ⟨⟨⟨⟨quiet,started⟩,record⟩,done⟩,_⟩ := ends
  obtain ⟨_,border,matter⟩ := nameEverywhere under quiet
  have shown := (border started).2.2 porch (.inl record)
  exact ⟨s,under,record,shown.symm,(matter done).2⟩

/- `cmd_name` runs between the store and the hand-over of `on_name_kb`. -/
def crossing : List Label :=
  bringUp ++ [.save .ui porch.1,.saveStep .ui true,.saveStep .ui true] ++ saving .console attic ++
    [.saveStep .ui true] ++ applied ++ applied

/- Two names that are saved at once may cross: the flash has the one, and all that shows a name
the other, which the next boot takes back. -/
theorem crossedNames : ∃ s, device.Under Served s ∧ Quiet s ∧ s.border.record = some porch ∧
    s.nodeLabel = porch ∧ saved s.flash = attic := by
  have all : device.Meets Served blank crossing := by decide +kernel
  have ran : (device.run blank crossing).any (fun s => showsAll porch s && saved s.flash == attic) = true := by
    decide +kernel
  obtain ⟨s,under,ends⟩ := underEnds Served blankStart all ran
  simp only [showsAll,Bool.and_eq_true,decide_eq_true_eq,beq_iff_eq] at ends
  obtain ⟨⟨⟨⟨⟨quiet,_⟩,record⟩,_⟩,label⟩,flash⟩ := ends
  exact ⟨s,under,quiet,record,label,flash⟩

end EpskcCommissioner.DeviceName
