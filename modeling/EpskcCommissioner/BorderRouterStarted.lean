import EpskcCommissioner.BorderRouterStart

/-! No start request is lost: while nothing fails and the backbone stays, a request that comes
to nothing leaves another on its way or finds the border router starting. -/
namespace EpskcCommissioner.BorderRouterStarted
open WorkerJobs BorderRouterStart

variable {Fn Arg : Type}

/- Whether a step fails that the start needs, or the bit is cleared after it was set. -/
def failing (s : Startup Fn Arg) : Label Fn Arg → Bool
  | .disconnected => s.backbone
  | .step p false =>
    match s.pc p with
    | .threadInit | .create | .setName | .init => true
    | _ => false
  | _ => false

def Smooth (s : Startup Fn Arg) (l : Label Fn Arg) : Prop := failing s l = false

instance (s : Startup Fn Arg) (l : Label Fn Arg) : Decidable (Smooth s l) :=
  inferInstanceAs (Decidable (_ = _))

def asking : Pc → Bool
  | .threadInit | .getBits | .defer | .send | .fallback | .claimFallback | .run | .claimRun => true
  | _ => false

def tested : Pc → Bool
  | .claimFallback | .claimRun => true
  | pc => pc.claimed

def failed : Pc → Bool
  | .uncreated | .finish false => true
  | _ => false

def Coming (s : Startup Fn Arg) : Prop :=
  (∃ p, asking (s.pc p) = true) ∨ ∃ msg ∈ s.jobs.items, isBrStart msg = true

structure Going (s : Startup Fn Arg) : Prop where
  claimed : Claimed s
  early : s.threadReady = false → s.pc (.requester .appMain) = .threadInit
  used : ∀ p, tested (s.pc p) = true → s.threadReady = true
  good : ∀ p, failed (s.pc p) = false
  coming : s.backbone = true → s.started = true ∨ s.starting = true ∨ Coming s

variable {s t u : Startup Fn Arg} {p q : Party} {pc now : Pc}

theorem goToPc (p : Party) (pc : Pc) (s : Startup Fn Arg) (q : Party) :
    (goTo p pc s).pc q = if q = p then pc else s.pc q := Function.update_apply ..

theorem comingHere (asks : asking pc = true) : Coming (goTo p pc u) :=
  .inl ⟨p,by rw [goToPc, if_pos rfl]; exact asks⟩

theorem comingElse (other : q ≠ p) (asks : asking (u.pc q) = true) : Coming (goTo p pc u) :=
  .inl ⟨q,by rw [goToPc, if_neg other]; exact asks⟩

theorem comingKept (coming : Coming s) (here : s.pc p = now) (idle : asking now = false) (pcs : u.pc = s.pc)
    (jobs : ∀ msg ∈ s.jobs.items, isBrStart msg = true → msg ∈ u.jobs.items) : Coming (goTo p pc u) := by
  rcases coming with ⟨q,asks⟩ | ⟨msg,mem,start⟩
  · refine comingElse (q := q) ?_ (by rw [pcs]; exact asks)
    rintro rfl
    rw [here, idle] at asks
    cases asks
  · exact .inr ⟨msg,jobs msg mem start,start⟩

theorem comingEarly (going : Going s) (early : s.threadReady = false) (here : s.pc p = now)
    (leaves : now ≠ .threadInit) : Coming (goTo p pc s) := by
  have first := going.early early
  refine comingElse (q := .requester .appMain) ?_ (by rw [first]; rfl)
  rintro rfl
  exact leaves (here.symm.trans first)

theorem comingOn (going : Going s) (here : s.pc p = now) (idle : asking now = false) (set : s.backbone = true) :
    s.started = true ∨ s.starting = true ∨ Coming (goTo p pc s) := by
  rcases going.coming set with started | starting | coming
  · exact .inl started
  · exact .inr (.inl starting)
  · exact .inr (.inr (comingKept coming here idle rfl fun _ mem _ => mem))

theorem goingMoved (going : Going s) (claimed : Claimed (goTo p pc u)) (pcs : u.pc = s.pc)
    (thread : u.threadReady = s.threadReady) (here : s.pc p = now) (leaves : now ≠ .threadInit)
    (used : tested pc = true → s.threadReady = true) (good : failed pc = false)
    (coming : u.backbone = true → u.started = true ∨ u.starting = true ∨ Coming (goTo p pc u)) :
    Going (goTo p pc u) := by
  refine ⟨claimed,fun early => ?_,fun q tests => ?_,fun q => ?_,coming⟩
  · have first := going.early (thread.symm.trans early)
    have other : Party.requester .appMain ≠ p := by
      rintro rfl
      exact leaves (here.symm.trans first)
    rw [goToPc, if_neg other, pcs]
    exact first
  · show u.threadReady = true
    rw [thread]
    rw [goToPc] at tests
    split at tests
    · exact used tests
    · exact going.used q (by rw [← pcs]; exact tests)
  · rw [goToPc]
    split
    · exact good
    · rw [pcs]
      exact going.good q

theorem goingOn (going : Going s) (here : s.pc p = now) (leaves : now ≠ .threadInit)
    (same : now.claimed = pc.claimed) (used : tested pc = true → s.threadReady = true) (good : failed pc = false)
    (coming : s.backbone = true → s.started = true ∨ s.starting = true ∨ Coming (goTo p pc s)) :
    Going (goTo p pc s) :=
  goingMoved going (claimedKept going.claimed (here ▸ same) rfl rfl rfl) rfl rfl here leaves used good coming

theorem goingFree (going : Going s) (here : s.pc p = now) (leaves : now ≠ .threadInit)
    (without : now.claimed = false) (free : tested pc = false) (good : failed pc = false)
    (coming : s.backbone = true → s.started = true ∨ s.starting = true ∨ Coming (goTo p pc s)) :
    Going (goTo p pc s) := by
  have unclaimed : pc.claimed = false := by cases pc <;> first | rfl | cases free
  exact goingOn going here leaves (without.trans unclaimed.symm)
    (fun wrong => absurd (free.symm.trans wrong) Bool.false_ne_true) good coming

theorem goingInside (going : Going s) (here : s.pc p = now) (held : now.claimed = true)
    (still : pc.claimed = true) (good : failed pc = false) : Going (goTo p pc s) := by
  have starting : s.starting = true := going.claimed.sole.taken (p := p) (by rw [holds, here, held])
  have leaves : now ≠ .threadInit := by
    rintro rfl
    cases held
  have thread : s.threadReady = true := going.used p (by rw [here]; cases now <;> first | rfl | cases held)
  exact goingOn going here leaves (held.trans still.symm) (fun _ => thread) good (fun _ => .inr (.inl starting))

theorem goingClaim {taken : Pc} (going : Going s) (here : s.pc p = now) (leaves : now ≠ .threadInit)
    (without : now.claimed = false) (tests : tested now = true) (takes : taken.claimed = true)
    (good : failed taken = false) : Going (claim p taken s) := by
  have claimed : Claimed (claim p taken s) := claimClaimed going.claimed (by rw [here]; exact without) takes
  have thread : s.threadReady = true := going.used p (by rw [here]; exact tests)
  unfold claim at claimed ⊢
  split
  · rename_i free
    rw [if_pos free] at claimed
    exact goingMoved going claimed rfl rfl here leaves (fun _ => thread) good (fun _ => .inr (.inl rfl))
  · rename_i busy
    rw [if_neg busy] at claimed
    refine goingMoved going claimed rfl rfl here leaves (fun wrong => absurd wrong Bool.false_ne_true) rfl fun _ => ?_
    cases started : s.started with
    | true => exact .inl rfl
    | false =>
      cases starting : s.starting with
      | true => exact .inr (.inl rfl)
      | false =>
        rw [started, starting] at busy
        exact absurd rfl busy

theorem goingFinish (going : Going s) (here : s.pc p = .finish true) : Going (finish p true s) :=
  goingMoved going (finishClaimed going.claimed (by rw [here]; rfl) true) rfl rfl here
    Pc.noConfusion (fun wrong => absurd wrong Bool.false_ne_true) rfl (fun _ => .inl rfl)

theorem goingCreate {r : Requester} (going : Going s) (here : s.pc (.requester r) = .create) :
    Going (create r true s) := by
  have claimed : Claimed (create r true s) := createClaimed going.claimed here
  have starting : s.starting = true := going.claimed.sole.taken (p := .requester r) (by rw [holds, here]; rfl)
  have thread := going.used (.requester r) (by rw [here]; rfl)
  refine ⟨claimed,fun early => ?_,fun _ _ => thread,fun q => ?_,fun _ => .inr (.inl starting)⟩
  · rw [show (create r true s).threadReady = s.threadReady from rfl, thread] at early
    cases early
  · show failed ((goTo (.task r) .ready (goTo (.requester r) .idle s)).pc q) = false
    rw [goToPc]
    split
    · rfl
    · rw [goToPc]
      split
      · rfl
      · exact going.good q

theorem goingInit (going : Going s) (here : s.pc p = .threadInit) :
    Going (goTo p .getBits {s with threadReady := s.threadReady || true}) := by
  have ready : (s.threadReady || true) = true := Bool.or_true _
  refine ⟨claimedKept going.claimed (by rw [here]; rfl) rfl rfl rfl,fun early => ?_,fun _ _ => ready,fun q => ?_,
    fun _ => .inr (.inr (comingHere rfl))⟩
  · exact absurd (ready.symm.trans early).symm Bool.false_ne_true
  · rw [goToPc]
    split
    · rfl
    · exact going.good q

theorem goingReceive (going : Going s) (here : s.pc .worker = .idle) (stepped : receive s = some t) :
    Going t := by
  obtain ⟨msg,jobs,items,rfl⟩ := receiveCases stepped
  have claimed : Claimed (goTo .worker (if isBrStart msg then .run else .otherJob) {s with jobs := jobs}) :=
    claimedKept going.claimed (by rw [here]; cases isBrStart msg <;> rfl) rfl rfl rfl
  refine goingMoved going claimed rfl rfl here Pc.noConfusion ?_ ?_ fun backbone => ?_
  · cases isBrStart msg <;> exact fun wrong => absurd wrong Bool.false_ne_true
  · cases isBrStart msg <;> rfl
  · rcases going.coming backbone with started | starting | coming
    · exact .inl started
    · exact .inr (.inl starting)
    · refine .inr (.inr ?_)
      cases kind : isBrStart msg with
      | true => exact comingHere rfl
      | false =>
        refine comingKept coming here rfl rfl fun other mem start => ?_
        rw [items] at mem
        rcases List.mem_cons.mp mem with rfl | mem
        · rw [kind] at start
          cases start
        · exact mem

theorem goingSend {jobs : BoundedQueue (UiJobMsg Fn Arg) 4} (going : Going s) (here : s.pc p = .send)
    (sent : s.jobs.send .brStart = some jobs) : Going (goTo p .idle {s with jobs := jobs}) := by
  refine goingMoved going (claimedKept going.claimed (by rw [here]; rfl) rfl rfl rfl) rfl rfl here
    Pc.noConfusion (fun wrong => absurd wrong Bool.false_ne_true) rfl fun _ => ?_
  have mem : (.brStart : UiJobMsg Fn Arg) ∈ jobs.items := by
    rw [BoundedQueue.sendItems sent]
    exact List.mem_append_right _ List.mem_cons_self
  exact .inr (.inr (.inr ⟨.brStart,mem,rfl⟩))

/- A test that finds the Thread stack not ready leaves the start to `app_main`. -/
theorem goingTest {onward : Pc} (going : Going s) (here : s.pc p = now) (leaves : now ≠ .threadInit)
    (without : now.claimed = false) (free : onward.claimed = false) (good : failed onward = false)
    (asks : asking onward = true) : Going (goTo p (if s.threadReady then onward else .idle) s) := by
  cases ready : s.threadReady with
  | true =>
    simp only [if_true]
    exact goingOn going here leaves (without.trans free.symm) (fun _ => ready) good
      (fun _ => .inr (.inr (comingHere asks)))
  | false =>
    simp only [Bool.false_eq_true,if_false]
    exact goingFree going here leaves without rfl rfl
      (fun _ => .inr (.inr (comingEarly going ready here leaves)))

theorem partyGoing {ok : Bool} (going : Going s) (smooth : Smooth s (.step p ok))
    (stepped : partyStep p ok s = some t) : Going t := by
  unfold partyStep at stepped
  unfold Smooth failing at smooth
  cases here : s.pc p with
  | idle =>
    simp only [here] at stepped
    split at stepped
    · rename_i worker
      subst worker
      exact goingReceive going here stepped
    · cases stepped
  | threadInit =>
    simp only [here] at stepped
    cases stepped
    cases ok with
    | true => exact goingInit going here
    | false => simp [here] at smooth
  | getBits =>
    simp only [here] at stepped
    cases stepped
    cases backbone : s.backbone with
    | true =>
      simp only [if_true]
      exact goingFree going here Pc.noConfusion rfl rfl rfl (fun _ => .inr (.inr (comingHere rfl)))
    | false =>
      simp only [Bool.false_eq_true,if_false]
      exact goingFree going here Pc.noConfusion rfl rfl rfl
        (fun set => absurd (backbone.symm.trans set) Bool.false_ne_true)
  | setBit =>
    simp only [here] at stepped
    cases stepped
    exact goingMoved going (claimedKept going.claimed (by rw [here]; rfl) rfl rfl rfl) rfl rfl here
      Pc.noConfusion (fun wrong => absurd wrong Bool.false_ne_true) rfl
      (fun _ => .inr (.inr (comingHere rfl)))
  | defer =>
    simp only [here] at stepped
    cases stepped
    cases s.uiReady with
    | true =>
      exact goingFree going here Pc.noConfusion rfl rfl rfl (fun _ => .inr (.inr (comingHere rfl)))
    | false =>
      exact goingFree going here Pc.noConfusion rfl rfl rfl (fun _ => .inr (.inr (comingHere rfl)))
  | send =>
    simp only [here] at stepped
    split at stepped
    · rename_i jobs sent
      cases stepped
      exact goingSend going here sent
    · cases stepped
      exact goingFree going here Pc.noConfusion rfl rfl rfl (fun _ => .inr (.inr (comingHere rfl)))
  | fallback =>
    simp only [here] at stepped
    cases stepped
    exact goingTest going here Pc.noConfusion rfl rfl rfl rfl
  | run =>
    simp only [here] at stepped
    cases stepped
    exact goingTest going here Pc.noConfusion rfl rfl rfl rfl
  | claimFallback =>
    simp only [here] at stepped
    cases stepped
    exact goingClaim going here Pc.noConfusion rfl rfl rfl rfl
  | claimRun =>
    simp only [here] at stepped
    cases stepped
    exact goingClaim going here Pc.noConfusion rfl rfl rfl rfl
  | create =>
    simp only [here] at stepped
    split at stepped
    · cases stepped
      cases ok with
      | true => exact goingCreate going here
      | false => simp [here] at smooth
    · cases stepped
  | uncreated =>
    have fine := going.good p
    rw [here] at fine
    cases fine
  | otherJob =>
    simp only [here] at stepped
    cases stepped
    exact goingFree going here Pc.noConfusion rfl rfl rfl (comingOn going here rfl)
  | ready =>
    have thread := going.used p (by rw [here]; rfl)
    simp only [here,thread,if_true] at stepped
    cases stepped
    exact goingInside going here rfl rfl rfl
  | setName =>
    simp only [here] at stepped
    cases stepped
    cases ok with
    | true => exact goingInside going here rfl rfl rfl
    | false => simp [here] at smooth
  | init =>
    simp only [here] at stepped
    cases stepped
    cases ok with
    | true => exact goingInside going here rfl rfl rfl
    | false => simp [here] at smooth
  | finish started =>
    have fine := going.good p
    rw [here] at fine
    simp only [here] at stepped
    cases stepped
    cases started with
    | true => exact goingFinish going here
    | false => cases fine

theorem ipEventGoing {n : Nat} {event : IpEvent} (going : Going s) (stepped : ipEvent n event s = some t) :
    Going t := by
  unfold ipEvent at stepped
  split at stepped
  · rename_i free
    have moves : Going (goTo (.requester (.handler n)) .setBit s) :=
      goingFree going free.1 Pc.noConfusion rfl rfl rfl (comingOn going free.1 rfl)
    split at stepped
    · cases stepped
      exact moves
    · cases stepped
      exact moves
    · cases stepped
      exact going
  · cases stepped

theorem goingStill (going : Going s) (claimed : Claimed t) (pcs : t.pc = s.pc)
    (thread : t.threadReady = s.threadReady) (started : t.started = s.started) (starting : t.starting = s.starting)
    (backbone : t.backbone = true → s.backbone = true) (jobs : ∀ msg ∈ s.jobs.items, msg ∈ t.jobs.items) :
    Going t := by
  refine ⟨claimed,?_,?_,?_,fun set => ?_⟩
  · rw [thread, pcs]
    exact going.early
  · rw [thread, pcs]
    exact going.used
  · rw [pcs]
    exact going.good
  · rw [started, starting]
    rcases going.coming (backbone set) with started | starting | ⟨p,asks⟩ | ⟨msg,mem,start⟩
    · exact .inl started
    · exact .inr (.inl starting)
    · exact .inr (.inr (.inl ⟨p,by rw [pcs]; exact asks⟩))
    · exact .inr (.inr (.inr ⟨msg,jobs msg mem,start⟩))

theorem goingStep {l : Label Fn Arg} (going : Going s) (smooth : Smooth s l) (stepped : step s l = some t) :
    Going t := by
  have claimed := claimedStep going.claimed stepped
  cases l with
  | ipEvent n event => exact ipEventGoing going stepped
  | disconnected =>
    cases stepped
    exact goingStill going claimed rfl rfl rfl rfl (fun wrong => absurd wrong Bool.false_ne_true) fun _ mem => mem
  | uiReady =>
    cases stepped
    exact goingStill going claimed rfl rfl rfl rfl id fun _ mem => mem
  | enqueue msg =>
    simp only [step] at stepped
    split at stepped
    · cases stepped
    · obtain ⟨jobs,sent,rfl⟩ := Option.map_eq_some_iff.mp stepped
      refine goingStill going claimed rfl rfl rfl rfl id fun other mem => ?_
      rw [BoundedQueue.sendItems sent]
      exact List.mem_append_left _ mem
  | step p ok => exact partyGoing going smooth stepped

theorem goingUnder (under : startup.Under Smooth s) : Going s := by
  refine underInvariant Going ?_ (fun s l t going smooth stepped => goingStep going smooth stepped) under
  rintro s ⟨uiReady,rfl⟩
  refine ⟨bootClaimed uiReady,fun _ => rfl,fun p tests => ?_,fun p => ?_,
    fun wrong => absurd wrong Bool.false_ne_true⟩
  · simp only [boot] at tests
    split at tests <;> cases tests
  · simp only [boot]
    split <;> rfl

structure Quiet (s : Startup Fn Arg) : Prop where
  tasks : ∀ p, s.pc p = .idle
  drained : s.jobs.items = []

theorem quietStarted (going : Going s) (quiet : Quiet s) (backbone : s.backbone = true) : s.started = true := by
  rcases going.coming backbone with started | starting | ⟨p,asks⟩ | ⟨msg,mem,_⟩
  · exact started
  · obtain ⟨p,held⟩ := going.claimed.sole.told.mp starting
    rw [holds, quiet.tasks p] at held
    cases held
  · rw [quiet.tasks p] at asks
    cases asks
  · rw [quiet.drained] at mem
    cases mem

/- No two tasks initialise the border router at once, and none does again once it has
started, whatever fails. While nothing does and the backbone stays, the border router has
started when every task has come to its end. -/
theorem startedOnce (reached : startup.Reachable s) :
    (∀ p q, s.pc p = .init → s.pc q = .init → p = q) ∧
    (s.started = true → ∀ labels t, startup.run s labels = some t →
      t.started = true ∧ ∀ p, t.pc p ≠ .init) ∧
    (startup.Under Smooth s → Quiet s → s.backbone = true → s.started = true) := by
  have claimed := claimedReached reached
  refine ⟨fun p q first second => ?_,fun started labels t ran => ?_,fun under quiet backbone => ?_⟩
  · exact claimed.sole.alone p q (by rw [holds, first]; rfl) (by rw [holds, second]; rfl)
  · obtain ⟨still,after⟩ := startedForever claimed started ran
    exact ⟨still,startedNoInit after still⟩
  · exact quietStarted (goingUnder under) quiet backbone

def handler : Party := .requester (.handler 0)

def appMain : Party := .requester .appMain

/- An address comes before the Thread stack is ready: the worker passes over its job, and
`app_main` asks again. -/
def earlyEvent : List (Label Unit Unit) :=
  [.ipEvent 0 .gotIp,.step handler true,.step handler true,.step handler true,.step .worker true,
    .step .worker true,.step appMain true,.step appMain true,.step appMain true,.step appMain true,
    .step .worker true,.step .worker true,.step .worker true,.step .worker true,.step .worker true,
    .step .worker true,.step .worker true]

theorem startedOnceEarly : ∃ s : Startup Unit Unit, Quiet s ∧ s.started = true ∧ ∀ p, s.pc p ≠ .init := by
  have all : startup.Meets Smooth (boot true) earlyEvent := by decide
  obtain ⟨s,ran⟩ : ∃ s, startup.run (boot true) earlyEvent = some s := ⟨_,rfl⟩
  have first : startup.Under Smooth (boot true : Startup Unit Unit) := .start ⟨true,rfl⟩
  have under := underRun first all ran
  have quiet : Quiet s := by
    cases ran
    refine ⟨fun p => ?_,rfl⟩
    rcases p with (_ | n) | _ | (_ | n)
    · rfl
    · cases n <;> rfl
    · rfl
    · rfl
    · rfl
  have backbone : s.backbone = true := by
    cases ran
    rfl
  obtain ⟨_,forever,drained⟩ := startedOnce (underReachable under)
  have started := drained under quiet backbone
  exact ⟨s,quiet,started,(forever started [] s rfl).2⟩

end EpskcCommissioner.BorderRouterStarted
