import EpskcCommissioner.Machine
import Mathlib.Logic.Function.Basic

/-! The router preference of `thread.c`: any number of tasks in `thread_set_prefer_router` and
`thread_apply_router_preference`, one access to what they share at a time. What holds the
OpenThread lock is one step. -/
namespace EpskcCommissioner.RouterPreference

variable {Task : Type} [DecidableEq Task]

/- Where a task is: behind the store of `s_prefer_router`, before that of `s_last_promote_us`,
before the first test of `thread_apply_router_preference`, before its clock, before the
comparison, and before the lock. The last two hold `now`. -/
inductive Pc where
  | outside | stored (on : Bool) | reset | test | clock | compare (now : Nat) | lock (now : Nat)
  deriving DecidableEq, Repr

/- A request for promotion by the `now` of its task, and a store that forgets the last one. -/
inductive Event where
  | asked (now : Nat) | forgot
  deriving DecidableEq, Repr

/- `clock` is `esp_timer_get_time` and `lastPromote` is `s_last_promote_us`. `child` is whether the
role is OT_DEVICE_ROLE_CHILD. The last field is history, newest first. -/
structure Preference (Task : Type) where
  clock : Nat
  ready : Bool
  child : Bool
  eligible : Bool
  prefer : Bool
  lastPromote : Nat
  pc : Task → Pc
  events : List Event

inductive Label (Task : Type) where
  | tick (us : Nat)
  | ready
  | role (child : Bool)
  | setPreferRouter (task : Task) (on : Bool)
  | applyRouterPreference (task : Task)
  | proceed (task : Task)

def interval : Nat := 30 * 1000 * 1000

def goTo (task : Task) (pc : Pc) (s : Preference Task) : Preference Task :=
  {s with pc := Function.update s.pc task pc}

def proceed (task : Task) (s : Preference Task) : Option (Preference Task) :=
  match s.pc task with
  | .outside => none
  | .stored on =>
    if !s.ready then some (goTo task .outside s)
    else some (goTo task (if on then .reset else .outside) {s with eligible := true})
  | .reset => some (goTo task .test {s with lastPromote := 0, events := .forgot :: s.events})
  | .test => some (goTo task (if !s.prefer || !s.ready then .outside else .clock) s)
  | .clock => some (goTo task (.compare s.clock) s)
  | .compare now => some (goTo task (if now < s.lastPromote + interval then .outside else .lock now) s)
  | .lock now =>
    if s.child then some (goTo task .outside {s with lastPromote := now, events := .asked now :: s.events})
    else some (goTo task .outside s)

def step (s : Preference Task) : Label Task → Option (Preference Task)
  | .tick us => some {s with clock := s.clock + us}
  | .ready => some {s with ready := true}
  | .role child => some {s with child := child}
  | .setPreferRouter task on =>
    if s.pc task = .outside then some (goTo task (.stored on) {s with prefer := on}) else none
  | .applyRouterPreference task => if s.pc task = .outside then some (goTo task .test s) else none
  | .proceed task => proceed task s

def booted : Preference Task := ⟨0,false,false,true,false,0,fun _ => .outside,[]⟩

def preferences : Machine (Preference Task) (Label Task) := ⟨fun s => s = booted,step⟩

def Pc.passed : Pc → Bool
  | .lock _ => true
  | _ => false

/- No task compares while another is between its comparison and its request. -/
def Alone (s : Preference Task) : Label Task → Prop
  | .proceed task => ∀ now, s.pc task = .compare now → ∀ other, (s.pc other).passed = false
  | _ => True

/- Two requests with no `forgot` between them are 30 s apart. -/
def Spaced (events : List Event) : Prop :=
  ∀ front mid back : List Event, ∀ later earlier : Nat, .forgot ∉ mid →
    events = front ++ .asked later :: (mid ++ .asked earlier :: back) → earlier + interval ≤ later

/- What `s_last_promote_us` is behind these events. -/
def since : List Event → Nat
  | .asked now :: _ => now
  | .forgot :: _ | [] => 0

def Chained : List Event → Prop
  | [] => True
  | .forgot :: rest => Chained rest
  | .asked now :: rest => since rest + interval ≤ now ∧ Chained rest

theorem chainedBack {front back : List Event} (chained : Chained (front ++ back)) : Chained back := by
  induction front with
  | nil => exact chained
  | cons event front ih =>
    cases event with
    | asked now => exact ih chained.2
    | forgot => exact ih chained

theorem sinceBounds {mid back : List Event} {now : Nat} (none : .forgot ∉ mid)
    (chained : Chained (mid ++ .asked now :: back)) : now ≤ since (mid ++ .asked now :: back) := by
  induction mid with
  | nil => exact Nat.le_refl now
  | cons event mid ih =>
    cases event with
    | forgot => exact absurd List.mem_cons_self none
    | asked later =>
      have before := ih (fun mem => none (List.mem_cons_of_mem _ mem)) chained.2
      exact Nat.le_trans before (Nat.le_trans (Nat.le_add_right _ interval) chained.1)

theorem chainedSpaced {events : List Event} (chained : Chained events) : Spaced events := by
  rintro front mid back later earlier none rfl
  obtain ⟨apart,rest⟩ := chainedBack chained
  exact Nat.le_trans (Nat.add_le_add_right (sinceBounds none rest) interval) apart

theorem chainedLate {events : List Event} (chained : Chained events) {now : Nat} (asked : .asked now ∈ events) :
    interval ≤ now := by
  obtain ⟨front,back,rfl⟩ := List.append_of_mem asked
  exact Nat.le_trans (Nat.le_add_left interval _) (chainedBack chained).1

structure Inv (s : Preference Task) : Prop where
  last : s.lastPromote = since s.events
  chained : Chained s.events
  passed : ∀ task now, s.pc task = .lock now → s.lastPromote + interval ≤ now ∧
    ∀ other, other ≠ task → (s.pc other).passed = false

variable {s t : Preference Task} {l : Label Task} {task : Task} {pc : Pc}

theorem goToPc (task : Task) (pc : Pc) (s : Preference Task) (other : Task) :
    (goTo task pc s).pc other = if other = task then pc else s.pc other := Function.update_apply ..

theorem invGoTo (inv : Inv s) (last : t.lastPromote = since t.events) (chained : Chained t.events)
    (pcs : t.pc = s.pc) (less : t.lastPromote ≤ s.lastPromote) (free : pc.passed = false) : Inv (goTo task pc t) := by
  refine ⟨last,chained,fun one now here => ?_⟩
  rw [goToPc] at here
  split at here
  · rw [here] at free
    cases free
  · rw [pcs] at here
    obtain ⟨late,alone⟩ := inv.passed one now here
    refine ⟨Nat.le_trans (Nat.add_le_add_right less interval) late,fun other else_ => ?_⟩
    rw [goToPc, pcs]
    split
    · exact free
    · exact alone other else_

theorem invProceed (inv : Inv s) (alone : Alone s (.proceed task)) (taken : proceed task s = some t) : Inv t := by
  have still : ∀ {pc}, pc.passed = false → Inv (goTo task pc s) := fun free =>
    invGoTo inv inv.last inv.chained rfl (Nat.le_refl _) free
  unfold proceed at taken
  cases here : s.pc task with
  | outside =>
    rw [here] at taken
    cases taken
  | stored on =>
    rw [here] at taken
    dsimp only at taken
    split at taken
    · cases Option.some.inj taken
      exact still rfl
    · cases Option.some.inj taken
      refine invGoTo inv inv.last inv.chained rfl (Nat.le_refl _) ?_
      cases on <;> rfl
  | reset =>
    rw [here] at taken
    cases Option.some.inj taken
    exact invGoTo inv rfl inv.chained rfl (Nat.zero_le _) rfl
  | test =>
    rw [here] at taken
    cases Option.some.inj taken
    refine still ?_
    split <;> rfl
  | clock =>
    rw [here] at taken
    cases Option.some.inj taken
    exact still rfl
  | compare now =>
    rw [here] at taken
    cases Option.some.inj taken
    by_cases early : now < s.lastPromote + interval
    · rw [if_pos early]
      exact still rfl
    · rw [if_neg early]
      have nobody := alone now here
      refine ⟨inv.last,inv.chained,fun one later locked => ?_⟩
      rw [goToPc] at locked
      split at locked
      · rename_i same
        cases locked
        refine ⟨Nat.not_lt.mp early,fun other else_ => ?_⟩
        rw [goToPc, if_neg (same ▸ else_)]
        exact nobody other
      · have free := nobody one
        rw [locked] at free
        cases free
  | lock now =>
    rw [here] at taken
    dsimp only at taken
    obtain ⟨late,others⟩ := inv.passed task now here
    split at taken
    · cases Option.some.inj taken
      refine ⟨rfl,⟨inv.last ▸ late,inv.chained⟩,fun one later locked => ?_⟩
      rw [goToPc] at locked
      split at locked
      · cases locked
      · rename_i else_
        have free := others one else_
        rw [show s.pc one = .lock later from locked] at free
        cases free
    · cases Option.some.inj taken
      exact still rfl

theorem reachedInv (reached : preferences.Under Alone s) : Inv s := by
  refine underInvariant Inv ?_ ?_ reached
  · rintro s rfl
    exact ⟨rfl,trivial,nofun⟩
  · intro s l t inv alone taken
    cases l with
    | tick | ready | role =>
      cases Option.some.inj taken
      exact ⟨inv.last,inv.chained,inv.passed⟩
    | setPreferRouter task on =>
      obtain ⟨_,same⟩ := Option.ite_none_right_eq_some.mp taken
      cases Option.some.inj same
      exact invGoTo inv inv.last inv.chained rfl (Nat.le_refl _) rfl
    | applyRouterPreference task =>
      obtain ⟨_,same⟩ := Option.ite_none_right_eq_some.mp taken
      cases Option.some.inj same
      exact invGoTo inv inv.last inv.chained rfl (Nat.le_refl _) rfl
    | proceed task => exact invProceed inv alone taken

/- Whatever the tasks do: with no other one between the comparison and the request, requests are
30 s apart, unless the preference was switched on between them, and none is made in the first
30 s of a boot. -/
theorem promotionsSpaced (reached : preferences.Under Alone s) :
    Spaced s.events ∧ ∀ now, .asked now ∈ s.events → interval ≤ now := by
  have inv := reachedInv reached
  exact ⟨chainedSpaced inv.chained,fun _ asked => chainedLate inv.chained asked⟩

def proceeds (n : Nat) : List (Label Unit) := List.replicate n (.proceed ())

/- Switched on 40 s behind the boot, asked again 10 s later, and 30 s after that. -/
def attempts : List (Label Unit) :=
  [.tick 40000000,.ready,.role true,.setPreferRouter () true] ++ proceeds 6 ++
  [.tick 10000000,.applyRouterPreference ()] ++ proceeds 3 ++
  [.tick 30000000,.applyRouterPreference ()] ++ proceeds 4

theorem aloneOne (s : Preference Unit) (l : Label Unit) : Alone s l := by
  cases l with
  | proceed task =>
    intro now here other
    rw [show s.pc other = .compare now from here]
    rfl
  | tick | ready | role | setPreferRouter | applyRouterPreference => trivial

theorem promotionsSpacedTwice : ∃ s : Preference Unit, preferences.Under Alone s ∧
    s.events = [.asked 80000000,.asked 40000000,.forgot] ∧ Spaced s.events ∧ interval ≤ 40000000 := by
  have ran : (preferences.run booted attempts).any
      (fun s => s.events == [.asked 80000000,.asked 40000000,.forgot]) = true := by decide
  obtain ⟨s,reached,ends⟩ := runEnds rfl ran
  have events := beq_iff_eq.mp ends
  have under := underWeaken (fun s l _ => aloneOne s l) reached
  obtain ⟨spaced,late⟩ := promotionsSpaced under
  exact ⟨s,under,events,spaced,late 40000000 (by rw [events]; simp)⟩

/- Two tasks behind the comparison both ask. -/
theorem promotionsCross : ∃ s : Preference Bool, preferences.Reachable s ∧
    s.events = [.asked 40000000,.asked 40000000,.forgot] := by
  have ran : (preferences.run booted ([.tick 40000000,.ready,.role true,.setPreferRouter false true] ++
      List.replicate 4 (.proceed false) ++ [.applyRouterPreference true] ++ List.replicate 3 (.proceed true) ++
      [.proceed false,.proceed false,.proceed true])).any
      (fun s => s.events == [.asked 40000000,.asked 40000000,.forgot]) = true := by decide
  obtain ⟨s,reached,ends⟩ := runEnds rfl ran
  exact ⟨s,reached,beq_iff_eq.mp ends⟩

def Comes (task : Task) (s t : Preference Task) : Prop :=
  ∃ n, preferences.run s (List.replicate n (.proceed task)) = some t

theorem comesNext {u : Preference Task} (next : proceed task s = some u) (rest : Comes task u t) :
    Comes task s t := by
  obtain ⟨n,ran⟩ := rest
  refine ⟨n + 1,?_⟩
  rw [List.replicate_succ, Machine.run, show preferences.step s (.proceed task) = some u from next]
  exact ran

theorem goToAgain (task : Task) (pc now : Pc) (s : Preference Task) :
    goTo task pc (goTo task now s) = goTo task pc s := by
  simp [goTo]

theorem comesApplied (here : s.pc task = .test) (prefer : s.prefer = true) (ready : s.ready = true) :
    ∃ t, Comes task s t ∧ t.pc task = .outside ∧ t.events =
      if s.lastPromote + interval ≤ s.clock ∧ s.child then .asked s.clock :: s.events else s.events := by
  have out : ∀ u : Preference Task, (goTo task .outside u).pc task = .outside := fun u => by rw [goToPc, if_pos rfl]
  have first : proceed task s = some (goTo task .clock s) := by simp [proceed,here,prefer,ready]
  have second : proceed task (goTo task .clock s) = some (goTo task (.compare s.clock) s) := by
    rw [← goToAgain task (.compare s.clock) .clock s]
    simp [proceed,goTo]
  by_cases early : s.clock < s.lastPromote + interval
  · have third : proceed task (goTo task (.compare s.clock) s) = some (goTo task .outside s) := by
      rw [← goToAgain task .outside (.compare s.clock) s]
      simp [proceed,goTo,early]
    refine ⟨_,comesNext first (comesNext second (comesNext third ⟨0,rfl⟩)),out _,?_⟩
    rw [if_neg fun both => absurd both.1 (Nat.not_le.mpr early)]
    rfl
  · have third : proceed task (goTo task (.compare s.clock) s) = some (goTo task (.lock s.clock) s) := by
      rw [← goToAgain task (.lock s.clock) (.compare s.clock) s]
      simp [proceed,goTo,early]
    cases child : s.child with
    | true =>
      have last : proceed task (goTo task (.lock s.clock) s) = some (goTo task .outside
          {s with lastPromote := s.clock, events := .asked s.clock :: s.events}) := by
        simp [proceed,goTo,child]
      refine ⟨_,comesNext first (comesNext second (comesNext third (comesNext last ⟨0,rfl⟩))),out _,?_⟩
      rw [if_pos ⟨Nat.not_lt.mp early,rfl⟩]
      rfl
    | false =>
      have last : proceed task (goTo task (.lock s.clock) s) = some (goTo task .outside s) := by
        rw [← goToAgain task .outside (.lock s.clock) s]
        simp [proceed,goTo,child]
      refine ⟨_,comesNext first (comesNext second (comesNext third (comesNext last ⟨0,rfl⟩))),out _,?_⟩
      rw [if_neg fun both => Bool.false_ne_true both.2]
      rfl

/- `thread_set_prefer_router`, before it applies the preference. -/
def switchedOn (task : Task) (s : Preference Task) : Preference Task :=
  goTo task .test {s with prefer := true, eligible := true, lastPromote := 0, events := .forgot :: s.events}

/- "allow an immediate attempt": a task alone that switches the preference on asks at once exactly
where the device is a child and has been up for 30 s. -/
theorem switchAsks (ready : s.ready = true) (outside : s.pc task = .outside) :
    ∃ u t, step s (.setPreferRouter task true) = some u ∧ Comes task u t ∧ t.pc task = .outside ∧
      t.events = if interval ≤ s.clock ∧ s.child then .asked s.clock :: .forgot :: s.events
        else .forgot :: s.events := by
  have first : proceed task (goTo task (.stored true) {s with prefer := true}) =
      some (goTo task .reset {s with prefer := true, eligible := true}) := by
    rw [← goToAgain task .reset (.stored true) {s with prefer := true, eligible := true}]
    simp [proceed,goTo,ready]
  have second : proceed task (goTo task .reset {s with prefer := true, eligible := true}) =
      some (switchedOn task s) := by
    rw [switchedOn, ← goToAgain task .test .reset]
    simp [proceed,goTo]
  have test : (switchedOn task s).pc task = .test := by rw [switchedOn, goToPc, if_pos rfl]
  obtain ⟨t,comes,back,events⟩ := comesApplied test rfl ready
  rw [show (switchedOn task s).lastPromote = 0 from rfl, Nat.zero_add] at events
  exact ⟨_,t,if_pos outside,comesNext first (comesNext second comes),back,events⟩

end EpskcCommissioner.RouterPreference
