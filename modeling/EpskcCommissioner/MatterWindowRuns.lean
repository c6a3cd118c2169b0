import EpskcCommissioner.MatterWindow

/-! The runs of the Matter runtime: one request for a commissioning window at a time, and what
the copies of CHIP's state hold once the loop has handled its events. -/
namespace EpskcCommissioner.MatterWindow
open WifiDriver (EspErr espOk espFail)

variable {s t u : Matter}

def Requester.claimed : Requester → Bool
  | .schedule _ | .giveUp => true
  | _ => false

def Loop.claimed : Loop → Bool
  | .openTest _ | .openCall _ | .openClear _ => true
  | _ => false

def Item.claimed : Item → Bool
  | .openWork _ => true
  | _ => false

def waiting (s : Matter) : Nat := s.loop.claimed.toNat + s.queue.countP Item.claimed

def holds (s : Matter) : Option Nat → Bool
  | some id => (s.requester id).claimed
  | none => decide (0 < waiting s)

structure Claimed (s : Matter) : Prop where
  sole : Sole (holds s) s.pending
  one : waiting s ≤ 1

theorem holdsEq (requester : ∀ id, (t.requester id).claimed = (s.requester id).claimed)
    (same : waiting t = waiting s) : holds t = holds s := by
  funext p
  cases p with
  | none => simp only [holds, same]
  | some id => exact requester id

theorem claimedEq (claimed : Claimed s) (requester : ∀ id, (t.requester id).claimed = (s.requester id).claimed)
    (same : waiting t = waiting s) (pending : t.pending = s.pending) : Claimed t := by
  refine ⟨?_,same ▸ claimed.one⟩
  rw [holdsEq requester same, pending]
  exact claimed.sole

theorem holdsGoes (id : Nat) (pc : Requester) (s : Matter) :
    holds (goes id pc s) = Function.update (holds s) (some id) pc.claimed := by
  funext p
  cases p with
  | none => rw [Function.update_of_ne (Option.some_ne_none id).symm]; rfl
  | some other =>
    by_cases same : other = id
    · subst same
      simp [holds, goes]
    · rw [Function.update_of_ne fun wrong => same (Option.some.inj wrong)]
      simp [holds, goes, Function.update_of_ne same]

theorem claimedGoes {id : Nat} {pc : Requester} (claimed : Claimed s) (same : (s.requester id).claimed = pc.claimed) :
    Claimed (goes id pc s) := by
  refine ⟨?_,claimed.one⟩
  rw [holdsGoes]
  exact claimed.sole.same same

theorem waitingAppend (s : Matter) (item : Item) :
    waiting {s with queue := s.queue ++ [item]} = waiting s + item.claimed.toNat := by
  cases item <;> simp [waiting, Item.claimed, List.countP_append, ← Nat.add_assoc]

theorem claimedSchedule {id : Nat} {timeout : UInt16} (claimed : Claimed s) (held : (s.requester id).claimed = true) :
    Claimed (goes id .idle {s with queue := s.queue ++ [.openWork timeout]}) := by
  have mine : holds s (some id) = true := held
  have clear : waiting s = 0 := by
    by_contra busy
    have also : holds s none = true := decide_eq_true (Nat.pos_of_ne_zero busy)
    exact absurd (claimed.sole.alone _ _ also mine) (Option.some_ne_none id).symm
  have grown : waiting {s with queue := s.queue ++ [.openWork timeout]} = 1 := by
    rw [waitingAppend, clear]
    rfl
  refine ⟨?_,Nat.le_of_eq grown⟩
  have passed : holds (goes id .idle {s with queue := s.queue ++ [.openWork timeout]}) =
      Function.update (Function.update (holds s) (some id) false) none true := by
    rw [holdsGoes]
    funext p
    cases p with
    | none =>
      rw [Function.update_self, Function.update_of_ne (Option.some_ne_none id).symm]
      simp only [holds, grown]
      rfl
    | some other =>
      rw [Function.update_of_ne (Option.some_ne_none other)]
      by_cases same : other = id
      · subst same
        rw [Function.update_self, Function.update_self]
        rfl
      · have different : some other ≠ some id := fun wrong => same (Option.some.inj wrong)
        rw [Function.update_of_ne different, Function.update_of_ne different]
        rfl
  show Sole _ s.pending
  rw [passed, claimed.sole.taken mine]
  exact claimed.sole.pass mine none

theorem requestClaimed {id : Nat} {err : ChipError} (claimed : Claimed s)
    (stepped : requestStep id err s = some t) : Claimed t := by
  unfold requestStep at stepped
  cases here : s.requester id with
  | idle => simp [here] at stepped
  | started timeout =>
    simp only [here] at stepped
    split at stepped <;> cases stepped <;> exact claimedGoes claimed (by rw [here]; rfl)
  | window timeout =>
    simp only [here] at stepped
    cases stepped
    exact claimedGoes claimed (by rw [here]; split <;> rfl)
  | exchange timeout =>
    simp only [here] at stepped
    split at stepped
    · cases stepped
      exact claimedGoes claimed (by rw [here]; rfl)
    · rename_i free
      cases stepped
      have sole := claimed.sole
      rw [eq_false_of_ne_true free] at sole
      refine ⟨?_,claimed.one⟩
      rw [holdsGoes]
      exact sole.take (some id)
  | schedule timeout =>
    simp only [here] at stepped
    split at stepped <;> cases stepped
    · exact claimedSchedule claimed (by rw [here]; rfl)
    · exact claimedGoes claimed (by rw [here]; rfl)
  | giveUp =>
    simp only [here] at stepped
    cases stepped
    have mine : holds s (some id) = true := by rw [holds, here]; rfl
    refine ⟨?_,claimed.one⟩
    rw [holdsGoes]
    exact claimed.sole.give mine

theorem claimedClear {err : ChipError} (claimed : Claimed s) (here : s.loop = .openClear err) :
    Claimed {s with pending := false, loop := .openError err} := by
  have all : waiting s = 1 + s.queue.countP Item.claimed := by rw [waiting, here]; rfl
  have left : waiting {s with pending := false, loop := .openError err} = 0 := by
    have one := claimed.one
    rw [all] at one
    show 0 + s.queue.countP Item.claimed = 0
    omega
  have mine : holds s none = true := decide_eq_true (by rw [all]; omega)
  refine ⟨?_,by rw [left]; exact Nat.zero_le _⟩
  have gave : holds {s with pending := false, loop := .openError err} = Function.update (holds s) none false := by
    funext p
    cases p with
    | none => rw [Function.update_self, holds, left]; rfl
    | some other => rw [Function.update_of_ne (Option.some_ne_none other)]; rfl
  rw [gave]
  exact claimed.sole.give mine

theorem waitingTake {item : Item} {rest : List Item} (idle : s.loop = .idle) (queued : s.queue = item :: rest) :
    waiting (take item rest s) = waiting s := by
  cases item <;> simp [waiting, take, idle, queued, Loop.claimed, Item.claimed, List.countP_cons, Nat.add_comm]

theorem loopClaimed {err : ChipError} (claimed : Claimed s) (stepped : loopStep err s = some t) : Claimed t := by
  unfold loopStep at stepped
  cases here : s.loop with
  | idle =>
    simp only [here] at stepped
    split at stepped
    · cases stepped
    · rename_i item rest queued
      cases stepped
      exact claimedEq claimed (by cases item <;> exact fun _ => rfl) (waitingTake here queued) (by cases item <;> rfl)
  | openTest timeout =>
    simp only [here] at stepped
    cases stepped
    exact claimedEq claimed (fun _ => rfl) (by rw [waiting, waiting, here]; split <;> rfl) rfl
  | openCall timeout =>
    simp only [here] at stepped
    split at stepped <;> cases stepped
    · exact claimedEq claimed (fun _ => rfl)
        (by simp [waiting, here, Loop.claimed, Item.claimed, List.countP_append]) rfl
    · exact claimedEq claimed (fun _ => rfl) (by rw [waiting, waiting, here]; rfl) rfl
  | openClear err =>
    simp only [here] at stepped
    cases stepped
    exact claimedClear claimed here
  | openError err | fabricLoad | commissionedStore c | statusStore c =>
    simp only [here] at stepped
    cases stepped
    exact claimedEq claimed (fun _ => rfl) (by rw [waiting, waiting, here]; rfl) rfl

theorem initFrame {err : EspErr} (stepped : initStep err s = some t) : t.requester = s.requester ∧ t.loop = s.loop ∧
    t.queue = s.queue ∧ t.pending = s.pending ∧ t.calls = s.calls ∧ t.manager = s.manager ∧ t.fabrics = s.fabrics := by
  unfold initStep at stepped
  split at stepped <;> first | (split at stepped <;> cases stepped) | cases stepped
  all_goals exact ⟨rfl,rfl,rfl,rfl,rfl,rfl,rfl⟩

theorem claimedStep {l : Label} (claimed : Claimed s) (stepped : step s l = some t) : Claimed t := by
  cases l with
  | init err =>
    obtain ⟨requester,loop,queue,pending,_⟩ := initFrame stepped
    exact claimedEq claimed (fun _ => by rw [requester]) (by rw [waiting, loop, queue]; rfl) pending
  | call id timeout =>
    simp only [step] at stepped
    split at stepped
    · rename_i idle
      cases stepped
      exact claimedGoes claimed (by rw [idle]; rfl)
    · cases stepped
  | request id err => exact requestClaimed claimed stepped
  | loop err =>
    simp only [step] at stepped
    split at stepped
    · exact loopClaimed claimed stepped
    · cases stepped
  | window open_ =>
    simp only [step] at stepped
    split at stepped
    · cases stepped
      exact claimedEq claimed (fun _ => rfl) (by cases open_ <;> exact waitingAppend s _) rfl
    · cases stepped
  | fabrics n =>
    simp only [step] at stepped
    split at stepped
    · cases stepped
      exact claimedEq claimed (fun _ => rfl) (waitingAppend s .fabric) rfl
    · cases stepped

theorem claimedReached (reached : matter.Reachable s) : Claimed s := by
  refine reachableInvariant Claimed ?_ (fun s l t claimed stepped => claimedStep claimed stepped) reached
  rintro s ⟨fabrics,manager,rfl⟩
  exact ⟨.none fun p => by cases p <;> rfl,Nat.zero_le 1⟩

def InRange (timeout : UInt16) : Prop :=
  kMinCommissioningWindowSeconds ≤ timeout.toNat ∧ timeout.toNat ≤ kMaxCommissioningWindowSeconds

def Requester.Checked : Requester → Prop
  | .window timeout | .exchange timeout | .schedule timeout => InRange timeout
  | _ => True

def Item.Checked : Item → Prop
  | .openWork timeout => InRange timeout
  | _ => True

def Loop.Checked (manager : Bool) : Loop → Prop
  | .openTest timeout => InRange timeout
  | .openCall timeout => InRange timeout ∧ manager = false
  | _ => True

structure Checked (s : Matter) : Prop where
  requester : ∀ id, (s.requester id).Checked
  queue : ∀ item ∈ s.queue, item.Checked
  loop : s.loop.Checked s.manager
  calls : ∀ call ∈ s.calls, InRange call.1 ∧ call.2 = false

theorem goesChecked {id : Nat} {pc : Requester} (checked : Checked s) (passes : pc.Checked) : Checked (goes id pc s) := by
  refine ⟨fun other => ?_,checked.queue,checked.loop,checked.calls⟩
  by_cases same : other = id
  · simpa [goes, same] using passes
  · simpa [goes, same] using checked.requester other

theorem appendChecked (item : Item) (checked : Checked s) (passes : item.Checked) :
    Checked {s with queue := s.queue ++ [item]} := by
  refine ⟨checked.requester,fun queued among => ?_,checked.loop,checked.calls⟩
  rcases List.mem_append.mp among with earlier | last
  · exact checked.queue queued earlier
  · rw [List.mem_singleton.mp last]
    exact passes

theorem requestChecked {id : Nat} {err : ChipError} (checked : Checked s)
    (stepped : requestStep id err s = some t) : Checked t := by
  have mine := checked.requester id
  unfold requestStep at stepped
  cases here : s.requester id with
  | idle => simp [here] at stepped
  | started timeout =>
    simp only [here] at stepped
    split at stepped <;> cases stepped
    · exact goesChecked checked trivial
    · rename_i fits
      simp only [not_or,Nat.not_lt] at fits
      exact goesChecked checked fits.2
  | window timeout =>
    rw [here] at mine
    simp only [here] at stepped
    cases stepped
    exact goesChecked checked (by split; exacts [trivial,mine])
  | exchange timeout =>
    rw [here] at mine
    simp only [here] at stepped
    split at stepped <;> cases stepped
    · exact goesChecked checked trivial
    · exact goesChecked ⟨checked.requester,checked.queue,checked.loop,checked.calls⟩ mine
  | schedule timeout =>
    rw [here] at mine
    simp only [here] at stepped
    split at stepped <;> cases stepped
    · exact goesChecked (appendChecked _ checked mine) trivial
    · exact goesChecked checked trivial
  | giveUp =>
    simp only [here] at stepped
    cases stepped
    exact goesChecked ⟨checked.requester,checked.queue,checked.loop,checked.calls⟩ trivial

theorem takeChecked {item : Item} {rest : List Item} (checked : Checked s) (queued : s.queue = item :: rest) :
    Checked (take item rest s) := by
  have first := checked.queue
  rw [queued] at first
  have passes := first item List.mem_cons_self
  have others : ∀ later ∈ rest, later.Checked := fun later among => first later (List.mem_cons_of_mem _ among)
  cases item with
  | openWork timeout => exact ⟨checked.requester,others,passes,checked.calls⟩
  | opened | closed | other => exact ⟨checked.requester,others,checked.loop,checked.calls⟩
  | fabric => exact ⟨checked.requester,others,trivial,checked.calls⟩

theorem loopChecked {err : ChipError} (checked : Checked s) (stepped : loopStep err s = some t) : Checked t := by
  have mine := checked.loop
  unfold loopStep at stepped
  cases here : s.loop with
  | idle =>
    simp only [here] at stepped
    split at stepped <;> cases stepped
    rename_i queued
    exact takeChecked checked queued
  | openTest timeout =>
    rw [here] at mine
    simp only [here] at stepped
    cases stepped
    refine ⟨checked.requester,checked.queue,?_,checked.calls⟩
    cases shut : s.manager with
    | true => exact trivial
    | false => exact ⟨mine,rfl⟩
  | openCall timeout =>
    rw [here] at mine
    have called : ∀ call ∈ s.calls ++ [(timeout,s.manager)], InRange call.1 ∧ call.2 = false := by
      intro call among
      rcases List.mem_append.mp among with earlier | last
      · exact checked.calls call earlier
      · rw [List.mem_singleton.mp last]
        exact mine
    simp only [here] at stepped
    split at stepped <;> cases stepped
    · exact ⟨checked.requester,(appendChecked .opened checked trivial).queue,trivial,called⟩
    · exact ⟨checked.requester,checked.queue,trivial,called⟩
  | openClear err | openError err | fabricLoad | commissionedStore c | statusStore c =>
    simp only [here] at stepped
    cases stepped
    exact ⟨checked.requester,checked.queue,trivial,checked.calls⟩

theorem checkedStep {l : Label} (checked : Checked s) (stepped : step s l = some t) : Checked t := by
  cases l with
  | init err =>
    obtain ⟨requester,loop,queue,_,calls,manager,_⟩ := initFrame stepped
    exact ⟨requester ▸ checked.requester,queue ▸ checked.queue,by rw [loop, manager]; exact checked.loop,
      calls ▸ checked.calls⟩
  | call id timeout =>
    simp only [step] at stepped
    split at stepped <;> cases stepped
    exact goesChecked checked trivial
  | request id err => exact requestChecked checked stepped
  | loop err =>
    simp only [step] at stepped
    split at stepped
    · exact loopChecked checked stepped
    · cases stepped
  | window open_ =>
    simp only [step] at stepped
    split at stepped <;> cases stepped
    rename_i idle
    have grown := appendChecked (if open_ then .opened else .closed) checked (by cases open_ <;> exact trivial)
    exact ⟨grown.requester,grown.queue,by show s.loop.Checked _; rw [idle.2.1]; exact trivial,grown.calls⟩
  | fabrics n =>
    simp only [step] at stepped
    split at stepped <;> cases stepped
    exact ⟨checked.requester,(appendChecked .fabric checked trivial).queue,checked.loop,checked.calls⟩

theorem checkedReached (reached : matter.Reachable s) : Checked s := by
  refine reachableInvariant Checked ?_ (fun s l t checked stepped => checkedStep checked stepped) reached
  rintro s ⟨fabrics,manager,rfl⟩
  exact ⟨fun _ => trivial,fun _ among => absurd among List.not_mem_nil,trivial,fun _ among => absurd among List.not_mem_nil⟩

def lastWindow : List Item → Bool → Bool
  | [], b => b
  | .opened :: rest, _ => lastWindow rest true
  | .closed :: rest, _ => lastWindow rest false
  | _ :: rest, b => lastWindow rest b

theorem lastWindowTold (queue : List Item) (b open_ : Bool) :
    lastWindow (queue ++ [if open_ then .opened else .closed]) b = open_ := by
  induction queue generalizing b with
  | nil => cases open_ <;> rfl
  | cons item rest ih => cases item <;> exact ih _

theorem lastWindowOther {item : Item} (queue : List Item) (b : Bool) (other : item ≠ .opened ∧ item ≠ .closed) :
    lastWindow (queue ++ [item]) b = lastWindow queue b := by
  induction queue generalizing b with
  | nil =>
    cases item with
    | opened => exact (other.1 rfl).elim
    | closed => exact (other.2 rfl).elim
    | _ => rfl
  | cons first rest ih => cases first <;> exact ih _

theorem lastWindowTwice (queue : List Item) (b : Bool) :
    lastWindow queue (lastWindow queue b) = lastWindow queue b := by
  induction queue generalizing b with
  | nil => rfl
  | cons first rest ih =>
    cases first with
    | opened | closed => rfl
    | _ => exact ih _

def Init.starts : Init → Bool
  | .before | .starting | .running => false
  | _ => true

def Init.windowStored : Init → Bool
  | .before | .starting | .running | .windowLoad | .windowStore _ => false
  | _ => true

def Init.commissionedStored : Init → Bool
  | .statusStore _ | .errorStore | .battery | .done | .failed => true
  | _ => false

def Init.statusStored : Init → Bool
  | .errorStore | .battery | .done | .failed => true
  | _ => false

/- `matter_init` is past a store, also where it failed later. -/
def past (stored : Init → Bool) (s : Matter) : Bool := s.started && stored s.init

def StartedAs (s : Matter) : Prop := s.init ≠ .failed → s.started = s.init.starts

structure WindowCopied (s : Matter) : Prop where
  told : lastWindow s.queue s.manager = s.manager
  held : ∀ b, s.init = .windowStore b → lastWindow s.queue b = s.manager
  copied : past Init.windowStored s = true → lastWindow s.queue s.windowOpen = s.manager

/- The loop handles an event between the read and the store of `matter_init` that it is about. -/
def overtakes (s : Matter) : Label → Bool
  | .loop _ =>
    s.loop == .idle && match s.queue.head?, s.init with
      | some .opened, .windowStore _ | some .closed, .windowStore _ => true
      | some .fabric, .commissionedStore _ | some .fabric, .statusStore _ => true
      | _, _ => false
  | _ => false

theorem initStarted {err : EspErr} (known : StartedAs s) (stepped : initStep err s = some t) : StartedAs t := by
  unfold initStep at stepped
  cases here : s.init with
  | failed | done => simp [here] at stepped
  | starting | running | battery =>
    have same := known (by rw [here]; exact Init.noConfusion)
    simp only [here] at stepped same
    split at stepped <;> cases stepped
    · first | exact fun _ => same | exact fun _ => rfl
    · exact fun wrong => absurd rfl wrong
  | _ =>
    have same := known (by rw [here]; exact Init.noConfusion)
    simp only [here] at stepped same
    cases stepped
    exact fun _ => same

theorem initWindow {err : EspErr} (known : StartedAs s) (copied : WindowCopied s)
    (stepped : initStep err s = some t) : WindowCopied t := by
  unfold initStep at stepped
  cases here : s.init with
  | failed | done => simp [here] at stepped
  | before =>
    simp only [here] at stepped
    cases stepped
    exact ⟨copied.told,fun _ => nofun,by simp [past, Init.windowStored]⟩
  | starting | running | battery =>
    have same := known (by rw [here]; exact Init.noConfusion)
    have stored := copied.copied
    simp only [past, here] at stored
    simp only [here] at stepped same
    split at stepped <;> cases stepped <;> refine ⟨copied.told,fun _ => nofun,?_⟩
    all_goals simp_all [past, failInit, Init.windowStored, Init.starts]
  | windowLoad =>
    simp only [here] at stepped
    cases stepped
    refine ⟨copied.told,fun b read => ?_,by simp [past, Init.windowStored]⟩
    cases read
    exact copied.told
  | windowStore open_ =>
    have held := copied.held open_ here
    simp only [here] at stepped
    cases stepped
    exact ⟨copied.told,fun _ => nofun,fun _ => held⟩
  | fabricLoad | commissionedStore c | statusStore c | errorStore =>
    have stored := copied.copied
    simp only [past, here] at stored
    simp only [here] at stepped
    cases stepped
    exact ⟨copied.told,fun _ => nofun,stored⟩

theorem othersInit {l : Label} (stepped : step s l = some t) (other : ∀ err, l ≠ .init err) :
    t.init = s.init ∧ t.started = s.started := by
  cases l with
  | init err => exact (other err rfl).elim
  | call id timeout =>
    simp only [step] at stepped
    split at stepped <;> cases stepped
    exact ⟨rfl,rfl⟩
  | request id err =>
    simp only [step, requestStep] at stepped
    repeat' split at stepped
    all_goals cases stepped
    all_goals exact ⟨rfl,rfl⟩
  | loop err =>
    simp only [step, loopStep] at stepped
    split at stepped
    · split at stepped
      · split at stepped
        · cases stepped
        · rename_i item _ _
          cases stepped
          cases item <;> exact ⟨rfl,rfl⟩
      all_goals first | (split at stepped <;> cases stepped <;> exact ⟨rfl,rfl⟩) | (cases stepped; exact ⟨rfl,rfl⟩)
    · cases stepped
  | window open_ | fabrics n =>
    simp only [step] at stepped
    split at stepped <;> cases stepped
    exact ⟨rfl,rfl⟩

theorem startedStep {l : Label} (known : StartedAs s) (stepped : step s l = some t) : StartedAs t := by
  by_cases mine : ∃ err, l = .init err
  · obtain ⟨err,rfl⟩ := mine
    exact initStarted known stepped
  · obtain ⟨init,started⟩ := othersInit stepped (fun err same => mine ⟨err,same⟩)
    rw [StartedAs, init, started]
    exact known

theorem windowPosted (open_ : Bool) (queue : t.queue = s.queue ++ [if open_ then .opened else .closed])
    (manager : t.manager = open_) : WindowCopied t := by
  have all : ∀ b, lastWindow t.queue b = t.manager := by
    intro b
    rw [queue, lastWindowTold, manager]
  exact ⟨all _,fun b _ => all b,fun _ => all _⟩

theorem windowKept (copied : WindowCopied s) (last : ∀ b, lastWindow t.queue b = lastWindow s.queue b)
    (manager : t.manager = s.manager) (init : t.init = s.init) (started : t.started = s.started)
    (windowOpen : t.windowOpen = s.windowOpen) : WindowCopied t := by
  refine ⟨?_,fun b here => ?_,fun stored => ?_⟩
  · rw [last, manager]
    exact copied.told
  · rw [last, manager]
    exact copied.held b (init ▸ here)
  · rw [last, manager, windowOpen]
    exact copied.copied (by rw [past, init, started] at stored; exact stored)

theorem takeWindow {item : Item} {rest : List Item} {err : ChipError} (copied : WindowCopied s) (idle : s.loop = .idle)
    (queued : s.queue = item :: rest) (calm : overtakes s (.loop err) = false) : WindowCopied (take item rest s) := by
  have told := copied.told
  have held := copied.held
  have stored := copied.copied
  rw [queued] at told held stored
  have between : item = .opened ∨ item = .closed → ∀ b, s.init ≠ .windowStore b := by
    intro event b here
    rcases event with rfl | rfl <;> simp [overtakes, idle, queued, here] at calm
  -- what the event leaves in the flag is all that the queue before it told
  have again : ∀ open_, lastWindow rest open_ = s.manager → lastWindow rest s.manager = s.manager := by
    intro open_ last
    rw [← last, lastWindowTwice]
  cases item with
  | opened => exact ⟨again true told,fun b here => absurd here (between (.inl rfl) b),fun _ => told⟩
  | closed => exact ⟨again false told,fun b here => absurd here (between (.inr rfl) b),fun _ => told⟩
  | openWork timeout | fabric | other => exact ⟨told,held,stored⟩

theorem loopWindow {err : ChipError} (copied : WindowCopied s) (calm : overtakes s (.loop err) = false)
    (stepped : loopStep err s = some t) : WindowCopied t := by
  unfold loopStep at stepped
  cases here : s.loop with
  | idle =>
    simp only [here] at stepped
    split at stepped <;> cases stepped
    rename_i queued
    exact takeWindow copied here queued calm
  | openCall timeout =>
    simp only [here] at stepped
    split at stepped <;> cases stepped
    · exact windowPosted true rfl rfl
    · exact windowKept copied (fun _ => rfl) rfl rfl rfl rfl
  | openTest timeout | openClear err | openError err | fabricLoad | commissionedStore c | statusStore c =>
    simp only [here] at stepped
    cases stepped
    exact windowKept copied (fun _ => rfl) rfl rfl rfl rfl

theorem requestWindow {id : Nat} {err : ChipError} (copied : WindowCopied s)
    (stepped : requestStep id err s = some t) : WindowCopied t := by
  unfold requestStep at stepped
  cases here : s.requester id with
  | idle => simp [here] at stepped
  | schedule timeout =>
    simp only [here] at stepped
    split at stepped <;> cases stepped
    · exact windowKept copied (lastWindowOther s.queue · ⟨Item.noConfusion,Item.noConfusion⟩) rfl rfl rfl rfl
    · exact windowKept copied (fun _ => rfl) rfl rfl rfl rfl
  | started timeout | exchange timeout =>
    simp only [here] at stepped
    split at stepped <;> cases stepped <;> exact windowKept copied (fun _ => rfl) rfl rfl rfl rfl
  | window timeout | giveUp =>
    simp only [here] at stepped
    cases stepped
    exact windowKept copied (fun _ => rfl) rfl rfl rfl rfl

theorem windowStep {l : Label} (known : StartedAs s) (copied : WindowCopied s) (calm : overtakes s l = false)
    (stepped : step s l = some t) : WindowCopied t := by
  cases l with
  | init err => exact initWindow known copied stepped
  | request id err => exact requestWindow copied stepped
  | loop err =>
    simp only [step] at stepped
    split at stepped
    · exact loopWindow copied calm stepped
    · cases stepped
  | call id timeout =>
    simp only [step] at stepped
    split at stepped <;> cases stepped
    exact windowKept copied (fun _ => rfl) rfl rfl rfl rfl
  | window open_ =>
    simp only [step] at stepped
    split at stepped <;> cases stepped
    exact windowPosted open_ rfl rfl
  | fabrics n =>
    simp only [step] at stepped
    split at stepped <;> cases stepped
    exact windowKept copied (lastWindowOther s.queue · ⟨Item.noConfusion,Item.noConfusion⟩) rfl rfl rfl rfl

def hasFabric (s : Matter) : Bool := s.fabrics != 0

def Init.fabricRead : Init → Option Bool
  | .commissionedStore c | .statusStore c => some c
  | _ => none

def Loop.fabricRead : Loop → Option Bool
  | .commissionedStore c | .statusStore c => some c
  | _ => none

def Loop.rewritesFlag : Loop → Bool
  | .fabricLoad | .commissionedStore _ => true
  | _ => false

def Loop.rewritesStatus : Loop → Bool
  | .fabricLoad | .commissionedStore _ | .statusStore _ => true
  | _ => false

structure FabricCopied (s : Matter) : Prop where
  held : ∀ c, s.init.fabricRead = some c → .fabric ∈ s.queue ∨ c = hasFabric s
  loop : ∀ c, s.loop.fabricRead = some c → c = hasFabric s
  commissioned : past Init.commissionedStored s = true →
    .fabric ∈ s.queue ∨ s.loop.rewritesFlag = true ∨ s.commissioned = hasFabric s
  status : past Init.statusStored s = true → .fabric ∈ s.queue ∨ s.loop.rewritesStatus = true ∨
    s.status = statusOf (hasFabric s) ∨ s.init = .failed ∧ s.status = .error

theorem fabricKept (copied : FabricCopied s) (queue : .fabric ∈ s.queue → .fabric ∈ t.queue)
    (loop : t.loop.fabricRead = s.loop.fabricRead ∧ t.loop.rewritesFlag = s.loop.rewritesFlag ∧
      t.loop.rewritesStatus = s.loop.rewritesStatus) (init : t.init = s.init ∧ t.started = s.started)
    (fabrics : t.fabrics = s.fabrics) (commissioned : t.commissioned = s.commissioned)
    (status : t.status = s.status) : FabricCopied t := by
  have has : hasFabric t = hasFabric s := by rw [hasFabric, fabrics]; rfl
  have stays (stored : Init → Bool) : past stored t = past stored s := by rw [past, init.1, init.2]; rfl
  refine ⟨?_,?_,?_,?_⟩
  · intro c held
    rw [has]
    exact (copied.held c (init.1 ▸ held)).imp_left queue
  · intro c held
    rw [has]
    exact copied.loop c (loop.1 ▸ held)
  · rw [stays, loop.2.1, commissioned, has]
    exact fun stored => (copied.commissioned stored).imp_left queue
  · rw [stays, loop.2.2, status, has, init.1]
    exact fun stored => (copied.status stored).imp_left queue

theorem initFabric {err : EspErr} (known : StartedAs s) (copied : FabricCopied s)
    (stepped : initStep err s = some t) : FabricCopied t := by
  have flag := copied.commissioned
  have status := copied.status
  unfold initStep at stepped
  cases here : s.init with
  | failed | done => simp [here] at stepped
  | before | windowLoad | windowStore open_ =>
    simp only [here] at stepped
    cases stepped
    exact ⟨fun _ => nofun,copied.loop,by simp [past, Init.commissionedStored],by simp [past, Init.statusStored]⟩
  | starting | running =>
    have same : s.started = false := known (by rw [here]; exact Init.noConfusion) |>.trans (by rw [here]; rfl)
    simp only [here] at stepped
    split at stepped <;> cases stepped <;> refine ⟨fun _ => nofun,copied.loop,?_,?_⟩
    all_goals simp [past, failInit, same, Init.commissionedStored, Init.statusStored]
  | fabricLoad =>
    simp only [here] at stepped
    cases stepped
    refine ⟨fun c read => .inr ?_,copied.loop,by simp [past, Init.commissionedStored],by simp [past, Init.statusStored]⟩
    cases read
    rfl
  | commissionedStore c =>
    have held := copied.held c (by rw [here]; rfl)
    simp only [here] at stepped
    cases stepped
    refine ⟨fun b read => ?_,copied.loop,fun _ => held.imp_right .inr,by simp [past, Init.statusStored]⟩
    cases read
    exact held
  | statusStore c =>
    have held := copied.held c (by rw [here]; rfl)
    simp only [past, here] at flag
    simp only [here] at stepped
    cases stepped
    refine ⟨fun _ => nofun,copied.loop,flag,fun _ => held.imp_right fun same => .inr (.inl ?_)⟩
    rw [same]
    rfl
  | errorStore =>
    simp only [past, here] at flag status
    simp only [here] at stepped
    cases stepped
    refine ⟨fun _ => nofun,copied.loop,flag,fun stored => (status stored).imp_right (Or.imp_right ?_)⟩
    exact fun either => either.imp_right fun wrong => (nomatch wrong.1)
  | battery =>
    simp only [past, here] at flag status
    simp only [here] at stepped
    split at stepped <;> cases stepped
    · refine ⟨fun _ => nofun,copied.loop,flag,fun stored => (status stored).imp_right (Or.imp_right ?_)⟩
      exact fun either => either.imp_right fun wrong => (nomatch wrong.1)
    · exact ⟨fun _ => nofun,copied.loop,flag,fun _ => .inr (.inr (.inr ⟨rfl,rfl⟩))⟩

theorem takeFabric {item : Item} {rest : List Item} {err : ChipError} (copied : FabricCopied s) (idle : s.loop = .idle)
    (queued : s.queue = item :: rest) (calm : overtakes s (.loop err) = false) : FabricCopied (take item rest s) := by
  have left : item ≠ .fabric → .fabric ∈ s.queue → .fabric ∈ rest := by
    intro other among
    rw [queued] at among
    exact (List.mem_cons.mp among).resolve_left other.symm
  cases item with
  | fabric =>
    refine ⟨fun c held => ?_,fun _ => nofun,fun _ => .inr (.inl rfl),fun _ => .inr (.inl rfl)⟩
    change s.init.fabricRead = some c at held
    cases here : s.init <;> simp [here, Init.fabricRead] at held
    all_goals simp [overtakes, idle, queued, here] at calm
  | openWork timeout | opened | closed | other =>
    refine fabricKept copied (left Item.noConfusion) ?_ ⟨rfl,rfl⟩ rfl rfl rfl
    simp [take, idle, Loop.fabricRead, Loop.rewritesFlag, Loop.rewritesStatus]

theorem loopFabric {err : ChipError} (copied : FabricCopied s) (calm : overtakes s (.loop err) = false)
    (stepped : loopStep err s = some t) : FabricCopied t := by
  unfold loopStep at stepped
  cases here : s.loop with
  | idle =>
    simp only [here] at stepped
    split at stepped <;> cases stepped
    rename_i queued
    exact takeFabric copied here queued calm
  | openTest timeout =>
    simp only [here] at stepped
    cases stepped
    exact fabricKept copied id (by rw [here]; split <;> exact ⟨rfl,rfl,rfl⟩) ⟨rfl,rfl⟩ rfl rfl rfl
  | openCall timeout =>
    simp only [here] at stepped
    split at stepped <;> cases stepped
    · exact fabricKept copied (List.mem_append_left _) (by rw [here]; exact ⟨rfl,rfl,rfl⟩) ⟨rfl,rfl⟩ rfl rfl rfl
    · exact fabricKept copied id (by rw [here]; exact ⟨rfl,rfl,rfl⟩) ⟨rfl,rfl⟩ rfl rfl rfl
  | openClear err | openError err =>
    simp only [here] at stepped
    cases stepped
    exact fabricKept copied id (by rw [here]; exact ⟨rfl,rfl,rfl⟩) ⟨rfl,rfl⟩ rfl rfl rfl
  | fabricLoad =>
    simp only [here] at stepped
    cases stepped
    refine ⟨copied.held,fun c read => ?_,fun _ => .inr (.inl rfl),fun _ => .inr (.inl rfl)⟩
    cases read
    rfl
  | commissionedStore c =>
    have read := copied.loop c (by rw [here]; rfl)
    simp only [here] at stepped
    cases stepped
    refine ⟨copied.held,fun b again => ?_,fun _ => .inr (.inr read),fun _ => .inr (.inl rfl)⟩
    cases again
    exact read
  | statusStore c =>
    have read := copied.loop c (by rw [here]; rfl)
    have flag := copied.commissioned
    rw [here] at flag
    simp only [here] at stepped
    cases stepped
    refine ⟨copied.held,fun _ => nofun,flag,fun _ => .inr (.inr (.inl ?_))⟩
    rw [read]
    rfl

theorem requestFabric {n : Nat} {err : ChipError} (copied : FabricCopied s)
    (stepped : requestStep n err s = some t) : FabricCopied t := by
  unfold requestStep at stepped
  cases here : s.requester n with
  | idle => simp [here] at stepped
  | schedule timeout =>
    simp only [here] at stepped
    split at stepped <;> cases stepped
    · exact fabricKept copied (List.mem_append_left _) ⟨rfl,rfl,rfl⟩ ⟨rfl,rfl⟩ rfl rfl rfl
    · exact fabricKept copied id ⟨rfl,rfl,rfl⟩ ⟨rfl,rfl⟩ rfl rfl rfl
  | started timeout | exchange timeout =>
    simp only [here] at stepped
    split at stepped <;> cases stepped <;> exact fabricKept copied id ⟨rfl,rfl,rfl⟩ ⟨rfl,rfl⟩ rfl rfl rfl
  | window timeout | giveUp =>
    simp only [here] at stepped
    cases stepped
    exact fabricKept copied id ⟨rfl,rfl,rfl⟩ ⟨rfl,rfl⟩ rfl rfl rfl

theorem fabricStep {l : Label} (known : StartedAs s) (copied : FabricCopied s) (calm : overtakes s l = false)
    (stepped : step s l = some t) : FabricCopied t := by
  cases l with
  | init err => exact initFabric known copied stepped
  | request n err => exact requestFabric copied stepped
  | loop err =>
    simp only [step] at stepped
    split at stepped
    · exact loopFabric copied calm stepped
    · cases stepped
  | call n timeout =>
    simp only [step] at stepped
    split at stepped <;> cases stepped
    exact fabricKept copied id ⟨rfl,rfl,rfl⟩ ⟨rfl,rfl⟩ rfl rfl rfl
  | window open_ =>
    simp only [step] at stepped
    split at stepped <;> cases stepped
    exact fabricKept copied (List.mem_append_left _) ⟨rfl,rfl,rfl⟩ ⟨rfl,rfl⟩ rfl rfl rfl
  | fabrics n =>
    simp only [step] at stepped
    split at stepped <;> cases stepped
    rename_i idle
    have posted : Item.fabric ∈ s.queue ++ [.fabric] := List.mem_append_right _ List.mem_cons_self
    refine ⟨fun _ _ => .inl posted,fun c read => ?_,fun _ => .inl posted,fun _ => .inl posted⟩
    change s.loop.fabricRead = some c at read
    rw [idle.2] at read
    cases read

/- The runs in which no event overtakes `matter_init`. -/
def calm (s : Matter) (l : Label) : Prop := overtakes s l = false

instance : ∀ s l, Decidable (calm s l) := fun s l => inferInstanceAs (Decidable (overtakes s l = false))

theorem startedReached (reached : matter.Reachable s) : StartedAs s := by
  refine reachableInvariant StartedAs ?_ (fun s l t known stepped => startedStep known stepped) reached
  rintro s ⟨fabrics,manager,rfl⟩
  exact fun _ => rfl

theorem windowUnder (under : matter.Under calm s) : WindowCopied s := by
  refine underInvariantWith StartedAs WindowCopied (fun s under => startedReached (underReachable under)) ?_
    (fun s l t known copied met stepped => windowStep known copied met stepped) under
  rintro s ⟨fabrics,manager,rfl⟩
  exact ⟨rfl,fun _ => nofun,nofun⟩

theorem fabricUnder (under : matter.Under calm s) : FabricCopied s := by
  refine underInvariantWith StartedAs FabricCopied (fun s under => startedReached (underReachable under)) ?_
    (fun s l t known copied met stepped => fabricStep known copied met stepped) under
  rintro s ⟨fabrics,manager,rfl⟩
  exact ⟨fun _ => nofun,fun _ => nofun,nofun,nofun⟩

theorem lastWindowNone {queue : List Item} (b : Bool) (handled : ∀ item ∈ queue, item ≠ .opened ∧ item ≠ .closed) :
    lastWindow queue b = b := by
  induction queue with
  | nil => rfl
  | cons item rest ih =>
    have first := handled item List.mem_cons_self
    have others := ih fun later among => handled later (List.mem_cons_of_mem _ among)
    cases item with
    | opened => exact (first.1 rfl).elim
    | closed => exact (first.2 rfl).elim
    | _ => exact others

/- One request at a time has the pending flag, it is set just while one has it, and what reaches
CHIP is a length in range for a window that is shut. -/
theorem oneRequest (reached : matter.Reachable s) :
    (∀ p q, holds s p = true → holds s q = true → p = q) ∧ waiting s ≤ 1 ∧
    (s.pending = true ↔ (∃ id, (s.requester id).claimed = true) ∨ waiting s = 1) ∧
    ∀ call ∈ s.calls, InRange call.1 ∧ call.2 = false := by
  have claimed := claimedReached reached
  refine ⟨claimed.sole.alone,claimed.one,?_,(checkedReached reached).calls⟩
  rw [claimed.sole.told]
  have one := claimed.one
  constructor
  · rintro ⟨p,held⟩
    cases p with
    | some id => exact .inl ⟨id,held⟩
    | none => exact .inr (by have := of_decide_eq_true held; omega)
  · rintro (⟨id,held⟩ | busy)
    · exact ⟨some id,held⟩
    · exact ⟨none,decide_eq_true (by omega)⟩

theorem storedEarlier {init : Init} (stored : init.statusStored = true) :
    init.commissionedStored = true ∧ init.windowStored = true := by
  cases init with
  | errorStore | battery | done | failed => exact ⟨rfl,rfl⟩
  | _ => cases stored

theorem copiesSettle (under : matter.Under calm s) (past : s.started = true ∧ s.init.statusStored = true)
    (idle : s.loop = .idle) (handled : ∀ item ∈ s.queue, item ≠ .opened ∧ item ≠ .closed ∧ item ≠ .fabric) :
    s.windowOpen = s.manager ∧ s.commissioned = hasFabric s ∧
    (s.status = statusOf (hasFabric s) ∨ s.init = .failed ∧ s.status = .error) := by
  have none : ¬ Item.fabric ∈ s.queue := fun among => (handled _ among).2.2 rfl
  have stored (stage : Init → Bool) (later : stage s.init = true) : MatterWindow.past stage s = true := by
    rw [MatterWindow.past, past.1, later]
    rfl
  have copied := fabricUnder under
  refine ⟨?_,?_,?_⟩
  · have last := (windowUnder under).copied (stored _ (storedEarlier past.2).2)
    rw [lastWindowNone _ fun item among => ⟨(handled item among).1,(handled item among).2.1⟩] at last
    exact last
  · have flag := copied.commissioned (stored _ (storedEarlier past.2).1)
    exact (flag.resolve_left none).resolve_left (by rw [idle]; exact Bool.false_ne_true)
  · have status := copied.status (stored _ past.2)
    exact (status.resolve_left none).resolve_left (by rw [idle]; exact Bool.false_ne_true)

def asked : List Label :=
  [.init espOk,.init espOk,.init espOk,.init espOk,.init espOk,.init espOk,.init espOk,.init espOk,.init espOk,.init espOk,
   .call 0 300,.request 0 .none,.request 0 .none,.request 0 .none,.request 0 .none,
   .loop .none,.loop .none,.loop .none,.loop .none,.loop .none]

def askedEnd : Matter := (matter.run boot (asked ++ [.loop .none])).getD boot

theorem oneRequestAsked : askedEnd.calls = [(300,false)] ∧ ∀ call ∈ askedEnd.calls, InRange call.1 ∧ call.2 = false := by
  have ran : matter.run boot (asked ++ [.loop .none]) = some askedEnd := rfl
  exact ⟨rfl,(oneRequest (reachableRun (.start ⟨0,false,rfl⟩) ran)).2.2.2⟩

theorem copiesSettleAsked : askedEnd.manager = true ∧ askedEnd.windowOpen = askedEnd.manager := by
  have ran : matter.run boot (asked ++ [.loop .none]) = some askedEnd := rfl
  have under : matter.Under calm askedEnd := underRun (.start ⟨0,false,rfl⟩) (by decide) ran
  exact ⟨rfl,(copiesSettle under ⟨rfl,rfl⟩ rfl (fun _ among => absurd among List.not_mem_nil)).1⟩

/- Without the condition: a window that closes between the read and the store stays open for those
who ask. -/
example : (matter.run {boot with manager := true}
    ([.init espOk,.init espOk,.init espOk,.init espOk,.window false,.loop .none] ++ List.replicate 6 (.init espOk))).map
    (fun s => (s.manager,s.windowOpen,s.queue)) = some (false,true,[]) := rfl

end EpskcCommissioner.MatterWindow
