import EpskcCommissioner.RestControl

/-! When the switches of the REST API tell the truth. What a switch was last asked to
be, what its flag says and what the server does agree again once everything is worked
off, as long as no step reads or writes a flag that is still to change. -/
namespace EpskcCommissioner.RestSwitches
open RestControl

def latest {α β : Type} (f : α → Option β) (l : List α) : Option β := (l.filterMap f).getLast?

theorem latestCons {α β : Type} (f : α → Option β) (x : α) (l : List α) :
    latest f (x :: l) = (latest f l).or (f x) := by
  unfold latest
  cases found : f x with
  | none => rw [List.filterMap_cons_none found, Option.or_none]
  | some v =>
    rw [List.filterMap_cons_some found, List.getLast?_cons]
    cases (l.filterMap f).getLast? <;> rfl

theorem latestAppend {α β : Type} (f : α → Option β) (l : List α) (x : α) :
    latest f (l ++ [x]) = (f x).or (latest f l) := by
  unfold latest
  cases found : f x <;> simp [found,List.filterMap_append]

def forSwitch (w : Switch) (msg : Msg) : Option Bool := if msg.type = w then some msg.on else none

def forRoute (r : Route) (update : Route × Bool) : Option Bool :=
  if update.1 = r then some update.2 else none

def asked (w : Switch) (s : Rest) : Option Bool := latest (forSwitch w) s.control.items

/- Whether the server will run once the control task has nothing left to do. -/
def eventual (s : Rest) : Bool :=
  (asked .running s).getD (match s.pc with
    | .startServer | .readFlag _ => true
    | .stopServer | .clearServer => false
    | _ => s.server)

/- Whether a group of routes will be registered once the server has applied its work. -/
def expected (r : Route) (s : Rest) : Bool := (latest (forRoute r) s.work).getD (s.registered r)

def handing (r : Route) (s : Rest) : Option Bool :=
  match s.pc with
  | .setFeature on => if r = .epskc then some on else none
  | .queueRoutes q on => if r = q then some on else none
  | _ => none

def willRead (r : Route) (s : Rest) : Bool :=
  match s.pc with
  | .startServer => !s.server
  | .readFlag .epskc => true
  | .readFlag .logs => r = .logs
  | _ => false

def serving (s : Rest) : Bool := s.server && s.pc != .clearServer

inductive Right (r : Route) (s : Rest) : Prop where
  | waiting (waiting : asked (.routes r) s ≠ none)
  | handing (update : handing r s = some (s.wanted (.routes r)))
  | reading (reading : willRead r s = true)
  | down (down : serving s = false)
  | served (expected : expected r s = s.wanted (.routes r))

/- The newest request for a switch has written its flag, or still will. -/
def Owned (w : Switch) (s : Rest) : Prop :=
  match s.newest w with
  | none => s.flag w = s.wanted w
  | some id => s.requests id = some ⟨w,s.wanted w⟩

structure Tracked (s : Rest) : Prop where
  owned : ∀ w, Owned w s
  asking : ∀ r v, asked (.routes r) s = some v → v = s.wanted (.routes r)
  handed : ∀ r v, handing r s = some v → v = s.wanted (.routes r) ∨ asked (.routes r) s ≠ none
  starting : ∀ r, s.pc = .readFlag r → s.server = true
  stopping : s.wanted .running = false → eventual s = false
  right : ∀ r, Right r s

/- The three ways to go wrong: a request writes another value than the newest request
for its switch after that one has written; the handler queues its start when the
newest request for the server is a stop; a starting server reads a flag that differs
from the newest request for it, whose message is no longer in the queue. -/
def misled (s : Rest) : Label → Bool
  | .write id =>
    match s.requests id with
    | some msg => s.newest msg.type = none && msg.on != s.wanted msg.type
    | none => false
  | .gotIpEnqueue => !s.wanted .running
  | .control =>
    match s.pc with
    | .readFlag r => asked (.routes r) s = none && s.flag (.routes r) != s.wanted (.routes r)
    | _ => false
  | _ => false

def Orderly (s : Rest) (l : Label) : Prop := misled s l = false
instance (s l) : Decidable (Orderly s l) := inferInstanceAs (Decidable (_ = _))

structure Drained (s : Rest) : Prop where
  requests : ∀ id, s.requests id = none
  handler : s.handler = false
  control : s.control.items = []
  pc : s.pc = .idle
  work : s.work = []

/- The server is off when its flag is, and while it runs each group of routes is
registered exactly when its flag is set. -/
structure Truthful (s : Rest) : Prop where
  off : s.flag .running = false → s.server = false
  routes : s.server = true → ∀ r, s.registered r = s.flag (.routes r)

theorem drainedFlags {s : Rest} (tracked : Tracked s) (drained : Drained s) (w : Switch) :
    s.flag w = s.wanted w := by
  have owned := tracked.owned w
  unfold Owned at owned
  split at owned
  · exact owned
  · rename_i id newest
    exact nomatch (drained.requests id).symm.trans owned

theorem drainedTruthful {s : Rest} (tracked : Tracked s) (drained : Drained s) : Truthful s := by
  have nothing : ∀ w, asked w s = none := fun w => by simp [asked,latest,drained.control]
  refine ⟨fun off => ?_,fun running r => ?_⟩
  · have stopped := tracked.stopping ((drainedFlags tracked drained .running).symm.trans off)
    simpa [eventual,nothing,drained.pc] using stopped
  · rw [drainedFlags tracked drained]
    cases tracked.right r with
    | waiting waiting => exact absurd (nothing _) waiting
    | handing update => simp [handing,drained.pc] at update
    | reading reading => simp [willRead,drained.pc] at reading
    | down down => simp [serving,running,drained.pc] at down
    | served expected => simpa [RestSwitches.expected,latest,drained.work] using expected

theorem askedSent {s t : Rest} {msg : Msg} (sent : s.control.send msg = some t.control)
    (w : Switch) : asked w t = (forSwitch w msg).or (asked w s) := by
  unfold asked
  rw [BoundedQueue.sendItems sent, latestAppend]

theorem askedReceived {s t : Rest} {msg : Msg} (received : s.control.receive = some (msg,t.control))
    (w : Switch) : asked w s = (asked w t).or (forSwitch w msg) := by
  unfold asked
  rw [BoundedQueue.receiveItems received, latestCons]

theorem askedOther {w : Switch} {msg : Msg} (other : msg.type ≠ w) : forSwitch w msg = none :=
  if_neg other

theorem askedOwn (msg : Msg) : forSwitch msg.type msg = some msg.on := if_pos rfl

/- Only the control task and the server make a group of routes come right; anybody else
leaves it so if the newest value and the waiting messages for it stay. -/
theorem rightKept {s t : Rest} {r : Route} (right : Right r s)
    (waits : asked (.routes r) s ≠ none → asked (.routes r) t ≠ none)
    (wanted : t.wanted (.routes r) = s.wanted (.routes r)) (pc : t.pc = s.pc)
    (server : t.server = s.server) (registered : t.registered = s.registered)
    (work : t.work = s.work) : Right r t := by
  cases right with
  | waiting waiting => exact .waiting (waits waiting)
  | handing update => exact .handing (by simpa [handing,pc,wanted] using update)
  | reading reading => exact .reading (by simpa [willRead,pc,server] using reading)
  | down down => exact .down (by simpa [serving,pc,server] using down)
  | served served => exact .served (by simpa [expected,registered,work,wanted] using served)

theorem requestKeeps {s t : Rest} {id : Nat} {msg : Msg} (tracked : Tracked s)
    (ok : step s (.request id msg) = some t) : Tracked t := by
  simp only [step] at ok
  split at ok <;> try contradiction
  rename_i free
  obtain ⟨control,sent,rfl⟩ := Option.map_eq_some_iff.mp ok
  have waits := askedSent (t := posted id msg control s) sent
  refine ⟨fun w => ?_,fun r v found => ?_,fun r v handed => ?_,tracked.starting,fun off => ?_,fun r => ?_⟩
  · by_cases own : msg.type = w
    · subst own
      simp [Owned,posted]
    · have owned := tracked.owned w
      have other : w ≠ msg.type := Ne.symm own
      simp only [Owned,posted,Function.update_of_ne other] at owned ⊢
      split at owned
      · exact owned
      · rename_i holder newest
        have : holder ≠ id := by rintro rfl; exact nomatch free.symm.trans owned
        rw [Function.update_of_ne this]
        exact owned
  · rw [waits] at found
    by_cases own : msg.type = .routes r
    · rw [← own, askedOwn] at found
      rw [← own]
      simpa [posted] using (Option.some.inj found).symm
    · rw [askedOther own] at found
      have other : Switch.routes r ≠ msg.type := Ne.symm own
      simpa [posted,Function.update_of_ne other] using tracked.asking r v found
  · rw [waits]
    by_cases own : msg.type = .routes r
    · rw [← own, askedOwn]
      exact .inr (Option.some_ne_none _)
    · have other : Switch.routes r ≠ msg.type := Ne.symm own
      rw [askedOther own]
      simpa [posted,Function.update_of_ne other] using tracked.handed r v handed
  · unfold eventual
    rw [waits]
    by_cases own : msg.type = .running
    · rw [← own, askedOwn]
      simpa [posted,own] using off
    · have other : Switch.running ≠ msg.type := Ne.symm own
      rw [askedOther own]
      exact tracked.stopping (by simpa [posted,Function.update_of_ne other] using off)
  · by_cases own : msg.type = .routes r
    · refine .waiting ?_
      rw [waits, ← own, askedOwn]
      exact Option.some_ne_none _
    · have other : Switch.routes r ≠ msg.type := Ne.symm own
      refine rightKept (tracked.right r) (fun waiting => ?_)
        (Function.update_of_ne other _ _) rfl rfl rfl rfl
      rwa [waits, askedOther own]

theorem writeKeeps {s t : Rest} {id : Nat} (tracked : Tracked s) (orderly : Orderly s (.write id))
    (ok : step s (.write id) = some t) : Tracked t := by
  simp only [step] at ok
  obtain ⟨msg,writing,rfl⟩ := Option.map_eq_some_iff.mp ok
  refine ⟨fun w => ?_,tracked.asking,tracked.handed,tracked.starting,tracked.stopping,fun r =>
    rightKept (tracked.right r) (fun waiting => waiting) rfl rfl rfl rfl rfl⟩
  have owned := tracked.owned w
  by_cases own : msg.type = w
  · subst own
    by_cases mine : s.newest msg.type = some id
    · simp only [Owned,mine] at owned
      rw [writing] at owned
      simpa [Owned,wrote,mine] using congrArg Msg.on (Option.some.inj owned)
    · cases newest : s.newest msg.type with
      | none =>
        have agrees : msg.on = s.wanted msg.type := by
          simpa [Orderly,misled,writing,newest] using orderly
        simpa [Owned,wrote,newest] using agrees
      | some holder =>
        have : holder ≠ id := fun same => mine (newest.trans (congrArg some same))
        simp only [Owned,newest] at owned
        simpa [Owned,wrote,newest,this,Function.update_of_ne this] using owned
  · have other : w ≠ msg.type := Ne.symm own
    have newest : (wrote id msg s).newest w = s.newest w := by
      unfold wrote
      split
      · exact Function.update_of_ne other _ _
      · rfl
    unfold Owned at owned ⊢
    rw [newest]
    split at owned
    · exact (Function.update_of_ne other _ _).trans owned
    · rename_i holder _
      have : holder ≠ id := by
        rintro rfl
        exact own (congrArg Msg.type (Option.some.inj (writing.symm.trans owned)))
      exact (Function.update_of_ne this _ _).trans owned

theorem gotIpKeeps {s t : Rest} (tracked : Tracked s) (ok : step s .gotIp = some t) :
    Tracked t := by
  simp only [step] at ok
  split at ok <;> try contradiction
  cases Option.some.inj ok
  exact ⟨tracked.owned,tracked.asking,tracked.handed,tracked.starting,tracked.stopping,fun r =>
    rightKept (tracked.right r) (fun waiting => waiting) rfl rfl rfl rfl rfl⟩

theorem gotIpEnqueueKeeps {s t : Rest} (tracked : Tracked s) (orderly : Orderly s .gotIpEnqueue)
    (ok : step s .gotIpEnqueue = some t) : Tracked t := by
  simp only [step] at ok
  split at ok <;> try contradiction
  obtain ⟨control,sent,rfl⟩ := Option.map_eq_some_iff.mp ok
  have waits := askedSent (t := {s with control := control, handler := false}) sent
  have routes : ∀ r, asked (.routes r) {s with control := control, handler := false} =
      asked (.routes r) s := fun r => waits (.routes r)
  have wanted : s.wanted .running = true := by simpa [Orderly,misled] using orderly
  refine ⟨tracked.owned,fun r v found => ?_,fun r v handed => ?_,tracked.starting,fun off => ?_,fun r => ?_⟩
  · exact tracked.asking r v ((routes r).symm.trans found)
  · rw [routes]
    exact tracked.handed r v handed
  · exact absurd wanted (Bool.eq_false_iff.mp off)
  · refine rightKept (tracked.right r) (fun waiting => ?_) rfl rfl rfl rfl rfl
    rwa [routes]

theorem dispatchHands {s : Rest} {msg : Msg} {r : Route} {v : Bool} (pc : s.pc = dispatch msg)
    (handed : handing r s = some v) : msg = ⟨.routes r,v⟩ := by
  obtain ⟨type,on⟩ := msg
  unfold handing at handed
  rw [pc] at handed
  cases type with
  | running => cases on <;> contradiction
  | routes q => cases q <;> cases r <;> simp_all [dispatch]

theorem handsDispatched {s : Rest} {r : Route} {v : Bool} (pc : s.pc = dispatch ⟨.routes r,v⟩) :
    handing r s = some v := by
  unfold handing
  rw [pc]
  cases r <;> rfl

theorem receiveKeeps {s : Rest} {msg : Msg} {control : BoundedQueue Msg 4} (tracked : Tracked s)
    (idle : s.pc = .idle) (received : s.control.receive = some (msg,control)) :
    Tracked (taken msg control s) := by
  have waits := askedReceived (t := taken msg control s) received
  refine ⟨tracked.owned,fun r v found => ?_,fun r v handed => ?_,fun r reading => ?_,fun off => ?_,fun r => ?_⟩
  · refine tracked.asking r v ?_
    rw [waits, found, Option.some_or]
  · by_cases waiting : asked (.routes r) (taken msg control s) = none
    · refine .inl (tracked.asking r v ?_)
      rw [waits, waiting, Option.none_or, dispatchHands rfl handed]
      exact askedOwn _
    · exact .inr waiting
  · obtain ⟨type,on⟩ := msg
    cases type with
    | running => cases on <;> contradiction
    | routes q => cases q <;> contradiction
  · have before := tracked.stopping off
    unfold eventual at before ⊢
    rw [waits] at before
    cases found : asked .running (taken msg control s) with
    | some v => simpa [found] using before
    | none =>
      rw [found] at before
      obtain ⟨type,on⟩ := msg
      cases type with
      | running =>
        cases on with
        | true => simp [forSwitch] at before
        | false => rfl
      | routes q => cases q <;> simpa [forSwitch,idle,taken,dispatch] using before
  · by_cases waiting : asked (.routes r) (taken msg control s) = none
    · cases tracked.right r with
      | waiting before =>
        obtain ⟨v,found⟩ := Option.ne_none_iff_exists'.mp before
        have newest := tracked.asking r v found
        rw [waits, waiting, Option.none_or] at found
        unfold forSwitch at found
        split at found <;> try contradiction
        rename_i type
        obtain ⟨_,on⟩ := msg
        subst type
        cases Option.some.inj found
        refine .handing ?_
        rw [handsDispatched rfl]
        exact congrArg some newest
      | handing update => simp [handing,idle] at update
      | reading reading => simp [willRead,idle] at reading
      | down down =>
        have off : s.server = false := by simpa [serving,idle] using down
        by_cases start : msg = ⟨.running,true⟩
        · subst start
          exact .reading (by simp [willRead,taken,dispatch,off])
        · exact .down (by simp [serving,taken,off])
      | served served => exact .served served
    · exact .waiting waiting

/- What the control task leaves alone while it works on a message. -/
structure Working (s t : Rest) : Prop where
  control : t.control = s.control
  flag : t.flag = s.flag
  requests : t.requests = s.requests
  wanted : t.wanted = s.wanted
  newest : t.newest = s.newest

theorem workingKeeps {s t : Rest} (tracked : Tracked s) (working : Working s t)
    (hands : ∀ r v, handing r t = some v → handing r s = some v)
    (starting : ∀ r, t.pc = .readFlag r → t.server = true)
    (goes : eventual t = eventual s)
    (right : ∀ r, asked (.routes r) s = none → Right r s → Right r t) : Tracked t := by
  have waits : ∀ w, asked w t = asked w s := fun w => by simp [asked,working.control]
  refine ⟨fun w => ?_,fun r v found => ?_,fun r v handed => ?_,starting,fun off => ?_,fun r => ?_⟩
  · have owned := tracked.owned w
    unfold Owned at owned ⊢
    rwa [working.newest, working.flag, working.requests, working.wanted]
  · rw [working.wanted]
    exact tracked.asking r v ((waits _).symm.trans found)
  · rw [working.wanted, waits]
    exact tracked.handed r v (hands r v handed)
  · rw [goes]
    exact tracked.stopping (by rwa [← working.wanted])
  · cases waiting : asked (.routes r) s with
    | none => exact right r waiting (tracked.right r)
    | some v =>
      refine .waiting ?_
      rw [waits, waiting]
      exact Option.some_ne_none _

theorem queueRoutesWorking (r : Route) (on : Bool) (pc : ControlPc) (s : Rest) :
    Working s {queueRoutes r on s with pc := pc} := by
  unfold queueRoutes
  split <;> exact ⟨rfl,rfl,rfl,rfl,rfl⟩

theorem queueRoutesServer (r : Route) (on : Bool) (s : Rest) :
    (queueRoutes r on s).server = s.server := by
  unfold queueRoutes
  split <;> rfl

theorem queueRoutesControl (r : Route) (on : Bool) (s : Rest) :
    (queueRoutes r on s).control = s.control := by
  unfold queueRoutes
  split <;> rfl

theorem queueRoutesExpected {s : Rest} (running : s.server = true) (q r : Route) (on : Bool)
    (pc : ControlPc) :
    expected r {queueRoutes q on s with pc := pc} = if q = r then on else expected r s := by
  unfold expected queueRoutes
  rw [if_pos running]
  change (latest (forRoute r) (s.work ++ [(q,on)])).getD (s.registered r) = _
  rw [latestAppend]
  by_cases same : q = r
  · simp [forRoute,same]
  · simp [forRoute,same]

theorem queueRoutesRight {s : Rest} {r : Route} {on : Bool} {pc : ControlPc}
    (newest : on = s.wanted (.routes r)) : Right r {queueRoutes r on s with pc := pc} := by
  by_cases running : s.server = true
  · refine .served ?_
    rw [queueRoutesExpected running, if_pos rfl, newest]
    exact (congrFun (queueRoutesWorking r _ pc s).wanted _).symm
  · refine .down ?_
    unfold serving
    rw [queueRoutesServer, Bool.eq_false_iff.mpr running, Bool.false_and]

theorem queueRoutesOther {s : Rest} {q r : Route} {on : Bool} {pc : ControlPc} (other : q ≠ r)
    (running : s.server = true) (served : expected r s = s.wanted (.routes r)) :
    Right r {queueRoutes q on s with pc := pc} := by
  refine .served ?_
  rw [queueRoutesExpected running, if_neg other, served]
  exact (congrFun (queueRoutesWorking q on pc s).wanted _).symm

theorem startServerKeeps {s : Rest} (tracked : Tracked s) (pc : s.pc = .startServer) :
    Tracked {s with server := true, pc := .readFlag .epskc} :=
  workingKeeps tracked ⟨rfl,rfl,rfl,rfl,rfl⟩ nofun (fun _ _ => rfl)
    (by simp [eventual,asked,pc]) (fun _ _ _ => .reading rfl)

theorem readFlagKeeps {s : Rest} {r : Route} {next : ControlPc} (tracked : Tracked s)
    (orderly : Orderly s .control) (pc : s.pc = .readFlag r)
    (goes : next = .idle ∧ r = .logs ∨ next = .readFlag .logs ∧ r = .epskc) :
    Tracked {queueRoutes r (s.flag (.routes r)) s with pc := next} := by
  have running := tracked.starting r pc
  refine workingKeeps tracked (queueRoutesWorking _ _ _ _) (fun q v handed => ?_) (fun q reading => ?_) ?_
    (fun q waiting right => ?_)
  · obtain ⟨rfl,_⟩ | ⟨rfl,_⟩ := goes <;> exact nomatch handed
  · rw [queueRoutesServer]
    exact running
  · unfold eventual asked
    rw [queueRoutesControl, queueRoutesServer, pc]
    obtain ⟨rfl,_⟩ | ⟨rfl,_⟩ := goes <;> simp [running]
  · by_cases own : r = q
    · subst own
      refine queueRoutesRight ?_
      simpa [Orderly,misled,pc,waiting] using orderly
    · obtain ⟨rfl,rfl⟩ | ⟨rfl,rfl⟩ := goes
      · cases q with
        | logs => contradiction
        | epskc =>
          cases right with
          | waiting before => exact absurd waiting before
          | handing update => simp [handing,pc] at update
          | reading reading => simp [willRead,pc] at reading
          | down down => simp [serving,pc,running] at down
          | served served => exact queueRoutesOther own running served
      · cases q with
        | epskc => contradiction
        | logs => exact .reading rfl

theorem alreadyServingKeeps {s : Rest} (tracked : Tracked s) (pc : s.pc = .startServer)
    (running : s.server = true) : Tracked {s with pc := .idle} := by
  refine workingKeeps tracked ⟨rfl,rfl,rfl,rfl,rfl⟩ nofun nofun (by simp [eventual,asked,pc,running])
    (fun r waiting right => ?_)
  cases right with
  | waiting before => exact absurd waiting before
  | handing update => simp [handing,pc] at update
  | reading reading => simp [willRead,pc,running] at reading
  | down down => simp [serving,pc,running] at down
  | served served => exact .served served

theorem stopServerKeeps {s : Rest} (tracked : Tracked s) (pc : s.pc = .stopServer) :
    Tracked {s with work := [], pc := .clearServer} :=
  workingKeeps tracked ⟨rfl,rfl,rfl,rfl,rfl⟩ nofun nofun (by simp [eventual,asked,pc])
    (fun _ _ _ => .down (Bool.and_false _))

theorem nothingToStopKeeps {s : Rest} (tracked : Tracked s) (pc : s.pc = .stopServer)
    (down : s.server = false) : Tracked {s with pc := .idle} :=
  workingKeeps tracked ⟨rfl,rfl,rfl,rfl,rfl⟩ nofun nofun (by simp [eventual,asked,pc,down])
    (fun _ _ _ => .down (by simp [serving,down]))

theorem clearServerKeeps {s : Rest} (tracked : Tracked s) (pc : s.pc = .clearServer) :
    Tracked {s with server := false, registered := fun _ => false, pc := .idle} :=
  workingKeeps tracked ⟨rfl,rfl,rfl,rfl,rfl⟩ nofun nofun (by simp [eventual,asked,pc])
    (fun _ _ _ => .down rfl)

theorem setFeatureKeeps {s : Rest} {on : Bool} (tracked : Tracked s) (pc : s.pc = .setFeature on) :
    Tracked {s with feature := on, pc := .queueRoutes .epskc on} := by
  have hands : ∀ r, handing r {s with feature := on, pc := .queueRoutes .epskc on} = handing r s :=
    fun r => by simp [handing,pc]
  refine workingKeeps tracked ⟨rfl,rfl,rfl,rfl,rfl⟩ (fun r v handed => (hands r).symm.trans handed) nofun
    (by simp [eventual,asked,pc]) (fun r waiting right => ?_)
  cases right with
  | waiting before => exact absurd waiting before
  | handing update => exact .handing ((hands r).trans update)
  | reading reading => simp [willRead,pc] at reading
  | down down => exact .down (by simpa [serving,pc] using down)
  | served served => exact .served served

theorem queueRoutesKeeps {s : Rest} {q : Route} {on : Bool} (tracked : Tracked s)
    (pc : s.pc = .queueRoutes q on) : Tracked {queueRoutes q on s with pc := .idle} := by
  refine workingKeeps tracked (queueRoutesWorking _ _ _ _) nofun nofun ?_ (fun r waiting right => ?_)
  · unfold eventual asked
    rw [queueRoutesControl, queueRoutesServer, pc]
  · by_cases own : q = r
    · subst own
      have hands : handing q s = some on := by simp [handing,pc]
      have newest := (tracked.handed q on hands).resolve_right (fun before => before waiting)
      exact queueRoutesRight newest
    · cases right with
      | waiting before => exact absurd waiting before
      | handing update => simp [handing,pc,Ne.symm own] at update
      | reading reading => simp [willRead,pc] at reading
      | down down =>
        refine .down ?_
        unfold serving at down ⊢
        rw [queueRoutesServer]
        simpa [pc] using down
      | served served =>
        by_cases running : s.server = true
        · exact queueRoutesOther own running served
        · refine .down ?_
          unfold serving
          rw [queueRoutesServer, Bool.eq_false_iff.mpr running, Bool.false_and]

theorem controlKeeps {s t : Rest} (tracked : Tracked s) (orderly : Orderly s .control)
    (ok : step s .control = some t) : Tracked t := by
  simp only [step,controlStep] at ok
  split at ok
  · rename_i idle
    split at ok <;> try contradiction
    rename_i received
    cases Option.some.inj ok
    exact receiveKeeps tracked idle received
  · rename_i pc
    split at ok <;> cases Option.some.inj ok
    · exact alreadyServingKeeps tracked pc ‹_›
    · exact startServerKeeps tracked pc
  · rename_i pc
    cases Option.some.inj ok
    exact readFlagKeeps tracked orderly pc (.inr ⟨rfl,rfl⟩)
  · rename_i pc
    cases Option.some.inj ok
    exact readFlagKeeps tracked orderly pc (.inl ⟨rfl,rfl⟩)
  · rename_i pc
    split at ok <;> cases Option.some.inj ok
    · exact stopServerKeeps tracked pc
    · exact nothingToStopKeeps tracked pc (Bool.eq_false_iff.mpr ‹_›)
  · rename_i pc
    cases Option.some.inj ok
    exact clearServerKeeps tracked pc
  · rename_i pc
    cases Option.some.inj ok
    exact setFeatureKeeps tracked pc
  · rename_i pc
    cases Option.some.inj ok
    exact queueRoutesKeeps tracked pc

theorem applyRoutesExpected {s : Rest} {q : Route} {on : Bool} {rest : List (Route × Bool)}
    (work : s.work = (q,on) :: rest) (running : s.server = true) (r : Route) :
    expected r (applyRoutes q on {s with work := rest}) = expected r s := by
  have before : expected r s = ((latest (forRoute r) rest).or (forRoute r (q,on))).getD (s.registered r) := by
    unfold expected
    rw [work, latestCons]
  rw [before]
  unfold expected applyRoutes
  by_cases own : q = r
  · subst own
    cases newer : latest (forRoute q) rest <;> by_cases same : on = s.registered q <;>
      simp [newer,forRoute,running,same]
  · have other : r ≠ q := Ne.symm own
    by_cases same : on = s.registered q
    · simp [forRoute,own,same]
    · simp [forRoute,own,running,same,Function.update_of_ne other]

theorem applyRoutesWorking (q : Route) (on : Bool) (s : Rest) (rest : List (Route × Bool)) :
    Working s (applyRoutes q on {s with work := rest}) := by
  unfold applyRoutes
  split <;> exact ⟨rfl,rfl,rfl,rfl,rfl⟩

theorem applyRoutesPlace (q : Route) (on : Bool) (s : Rest) :
    (applyRoutes q on s).pc = s.pc ∧ (applyRoutes q on s).server = s.server := by
  unfold applyRoutes
  split <;> exact ⟨rfl,rfl⟩

theorem serverKeeps {s t : Rest} (tracked : Tracked s) (ok : step s .server = some t) :
    Tracked t := by
  simp only [step] at ok
  split at ok <;> try contradiction
  rename_i q on rest work
  cases Option.some.inj ok
  have working := applyRoutesWorking q on s rest
  obtain ⟨pc,server⟩ := applyRoutesPlace q on {s with work := rest}
  refine workingKeeps tracked working (fun r v handed => ?_) (fun r reading => ?_) ?_ (fun r waiting right => ?_)
  · simpa [handing,pc] using handed
  · rw [server]
    exact tracked.starting r (pc.symm.trans reading)
  · simp only [eventual,asked,pc,server,working.control]
  · cases right with
    | waiting before => exact absurd waiting before
    | handing update => exact .handing (by simpa [handing,pc,working.wanted] using update)
    | reading reading => exact .reading (by simpa [willRead,pc,server] using reading)
    | down down => exact .down (by simpa [serving,pc,server] using down)
    | served served =>
      by_cases running : s.server = true
      · refine .served ?_
        rw [applyRoutesExpected work running, served, working.wanted]
      · refine .down ?_
        unfold serving
        rw [server, Bool.eq_false_iff.mpr running, Bool.false_and]

theorem bootTracked (flag : Switch → Bool) : Tracked (boot flag) :=
  ⟨fun _ => rfl,nofun,nofun,nofun,fun _ => rfl,fun _ => .down rfl⟩

theorem orderlyTracked {s : Rest} (reached : rest.Under Orderly s) : Tracked s := by
  refine underInvariant Tracked ?_ ?_ reached
  · rintro s ⟨flag,rfl⟩
    exact bootTracked flag
  · intro s l t tracked orderly ok
    cases l with
    | request id msg => exact requestKeeps tracked ok
    | write id => exact writeKeeps tracked orderly ok
    | gotIp => exact gotIpKeeps tracked ok
    | gotIpEnqueue => exact gotIpEnqueueKeeps tracked orderly ok
    | control => exact controlKeeps tracked orderly ok
    | server => exact serverKeeps tracked ok

/- Switched off is off, and the routes are what their flags say. -/
theorem settledTruthful {s : Rest} (reached : rest.Under Orderly s) (drained : Drained s) :
    Truthful s :=
  drainedTruthful (orderlyTracked reached) drained

/- Everything is worked off after one start by the GOT_IP handler. -/
def serverUp : List Label :=
  [.gotIp,.gotIpEnqueue,.control,.control,.control,.control,.server,.server]

def boots : Rest := boot fun _ => true

/- A switched off group of routes, orderly: request and write follow each other. -/
def logsOff : List Label :=
  serverUp ++ [.request 0 ⟨.routes .logs,false⟩,.control,.write 0,.control,.server]

theorem settledTruthfulOff : ∃ s, rest.Under Orderly s ∧ Drained s ∧ s.server = true ∧
    s.flag (.routes .logs) = false ∧ Truthful s := by
  obtain ⟨s,ran,drained,up,off⟩ : ∃ s, rest.run boots logsOff = some s ∧ Drained s ∧
      s.server = true ∧ s.flag (.routes .logs) = false :=
    ⟨_,rfl,⟨fun id => by cases id <;> rfl,rfl,rfl,rfl,rfl⟩,rfl,rfl⟩
  have reached : rest.Under Orderly s := underRun (.start ⟨_,rfl⟩) (by decide) ran
  exact ⟨s,reached,drained,up,off,settledTruthful reached drained⟩

/- The GOT_IP handler reads the flag after the stop was carried out and before the
requester writes it, and queues its start after that. -/
def staleStart : List Label :=
  serverUp ++ [.request 0 ⟨.running,false⟩,.control,.control,.control,.gotIp,.write 0,
    .gotIpEnqueue,.control,.control,.control,.control,.server,.server]

theorem staleStartServes : ∃ s, rest.Reachable s ∧ Drained s ∧ s.flag .running = false ∧
    s.server = true := by
  obtain ⟨s,ran,drained,off,up⟩ : ∃ s, rest.run boots staleStart = some s ∧ Drained s ∧
      s.flag .running = false ∧ s.server = true :=
    ⟨_,rfl,⟨fun id => by cases id <;> rfl,rfl,rfl,rfl,rfl⟩,rfl,rfl⟩
  exact ⟨s,reachableRun (.start ⟨_,rfl⟩) ran,drained,off,up⟩

end EpskcCommissioner.RestSwitches
