import EpskcCommissioner.LogRingOwners
import EpskcCommissioner.Machine

/-! Which partial line is given up when a task needs a slot and none is free: the slots take
turns, and the turn moves on only when a line is given up. So it is the oldest line's as long
as lines are begun in the order of the turns, and not otherwise. -/
namespace EpskcCommissioner.LogRingVictims
open LogText LogRing LogRingDevice LogRingTasks LogRingOwners

def openSlot (task : Nat) (ended : Bool) (ram : Ram) : Option (Fin 4) :=
  (List.finRange 4).find? (fun k => (ram.pending k).task == 0 || ended && (ram.pending k).task == task)

/- Where a call begins a line that it does not end, or nothing: it goes on with the task's
own line, or it leaves none open. -/
def begunIn (call : Said) (ram : Ram) : Option (Fin 4) :=
  if trailing [] call.text = [] ∨ call.text.contains 0x0a = false ∧ (findPending call.task ram).isSome then none
  else some ((openSlot call.task (call.text.contains 0x0a) ram).getD (victimOf ram))

def turn (victim : Nat) (k : Fin 4) : Nat := (k.val + 4 - victim % 4) % 4

/- The last two fields are history: when each slot was claimed, and the calls so far. -/
structure Ring where
  ram : Ram
  stamps : Fin 4 → Nat
  clock : Nat

def step (s : Ring) (call : Said) : Option Ring :=
  if call.task = 0 then none
  else some
    { ram := (owned call s.ram).1
      stamps := fun k => if begunIn call s.ram = some k then s.clock else s.stamps k
      clock := s.clock + 1 }

def ring : Machine Ring Said :=
  ⟨fun s => FreshRing s.ram ∧ s.ram.victim = 0 ∧ s.stamps = (fun _ => 0) ∧ s.clock = 0,step⟩

/- A line that is begun in a free slot has its turn behind all lines that others hold. -/
def InOrder (s : Ring) (call : Said) : Prop :=
  takesOver call s.ram = none → ∀ k, begunIn call s.ram = some k →
    ∀ j, (s.ram.pending j).task ≠ 0 → (s.ram.pending j).task ≠ call.task → turn s.ram.victim j < turn s.ram.victim k

variable {task : Nat} {nowMs : UInt32} {rest segment : List UInt8} {p : Option (Fin 4)} {ram : Ram} {k : Fin 4}

def loopBegun (task : Nat) (rest segment : List UInt8) (p : Option (Fin 4)) (ram : Ram) : Option (Fin 4) :=
  if trailing segment rest = [] ∨ rest.contains 0x0a = false ∧ p.isSome then none
  else some ((openSlot task (rest.contains 0x0a) ram).getD (victimOf ram))

structure Holders (task : Nat) (rest segment : List UInt8) (p : Option (Fin 4)) (ram after : Ram) : Prop where
  tasks : ∀ j, (after.pending j).task =
    if loopBegun task rest segment p ram = some j then task
    else if rest.contains 0x0a ∧ (ram.pending j).task = task then 0
    else (ram.pending j).task
  victim : after.victim = ram.victim +
    if loopBegun task rest segment p ram ≠ none ∧ openSlot task (rest.contains 0x0a) ram = none then 1 else 0

theorem openSlotNobody (absent : findPending task ram = none) (ended : Bool) :
    openSlot task ended ram = findPending 0 ram := by
  have other : ∀ k, ((ram.pending k).task == task) = false := fun k => beq_eq_false_iff_ne.mpr (findAbsent absent k)
  unfold openSlot findPending
  simp only [other,Bool.and_false,Bool.or_false]

theorem newlineHolders {after : Ram} {text : Text} (own : Own ram) (some : task ≠ 0)
    (found : findPending task ram = p) (pending : after.pending = match p with
      | none => ram.pending
      | .some k => (ram.setPending k ⟨0,text⟩).pending) (j : Fin 4) :
    (after.pending j).task = if (ram.pending j).task = task then 0 else (ram.pending j).task := by
  rw [pending]
  cases p with
  | none => exact (if_neg (findAbsent found j)).symm
  | some k =>
    have here := findTask found
    by_cases same : j = k
    · rw [same, if_pos here]
      exact congrArg Pending.task (setHere k _ ram)
    · have other : (ram.pending j).task ≠ task := fun also => same (own j k (also.trans here.symm) (also ▸ some))
      rw [if_neg other]
      exact congrArg Pending.task (setThere _ ram same)

theorem newlineOpen {after : Ram}
    (tasks : ∀ j, (after.pending j).task = if (ram.pending j).task = task then 0 else (ram.pending j).task)
    (ended : Bool) : openSlot task ended after = openSlot task true ram := by
  unfold openSlot
  congr 1
  funext j
  rw [tasks j]
  by_cases here : (ram.pending j).task = task
  · rw [if_pos here, here]
    simp
  · rw [if_neg here, beq_eq_false_iff_ne.mpr here, Bool.and_false, Bool.and_false]

theorem claimHolders (task : Nat) (nowMs : UInt32) (ram : Ram) :
    (claimPending task nowMs ram).1 = (findPending 0 ram).getD (victimOf ram) ∧
    (claimPending task nowMs ram).2.1.pending =
      Function.update ram.pending ((findPending 0 ram).getD (victimOf ram)) ⟨task,.empty⟩ ∧
    (claimPending task nowMs ram).2.1.victim = ram.victim + if findPending 0 ram = none then 1 else 0 := by
  unfold claimPending
  cases findPending 0 ram with
  | some k => exact ⟨rfl,rfl,rfl⟩
  | none =>
    refine ⟨rfl,?_,rfl⟩
    unfold commitLocked Ram.setPending
    dsimp only [Option.getD_none]
    rw [Function.update_idem]

theorem begunNothing {j : Fin 4} {ram : Ram} {b : Option (Fin 4)} (begun : b = none) :
    (if b = some j then task
      else if List.contains [] (0x0a : UInt8) ∧ (ram.pending j).task = task then 0
      else (ram.pending j).task) = (ram.pending j).task ∧
    (if b ≠ none ∧ openSlot task (List.contains [] 0x0a) ram = none then 1 else 0) = 0 := by
  subst begun
  rw [if_neg (Option.some_ne_none j).symm, if_neg (fun newline => Bool.false_ne_true newline.1),
    if_neg (fun both => both.1 rfl)]
  exact ⟨rfl,rfl⟩

theorem endHolders (found : findPending task ram = p) :
    Holders task [] segment p ram (ingestLoop task nowMs [] segment p ram).1 := by
  unfold ingestLoop
  by_cases last : segment = []
  · have begun : loopBegun task [] segment p ram = none := if_pos (.inl last)
    rw [if_pos last]
    exact ⟨fun j => (begunNothing begun).1.symm,congrArg (ram.victim + ·) (begunNothing (j := 0) begun).2.symm⟩
  · rw [if_neg last]
    cases p with
    | some k =>
      have begun : loopBegun task [] segment (some k) ram = none := if_pos (.inr ⟨rfl,rfl⟩)
      refine ⟨fun j => Eq.trans ?_ (begunNothing begun).1.symm,
        congrArg (ram.victim + ·) (begunNothing (j := 0) begun).2.symm⟩
      dsimp only
      by_cases same : j = k
      · rw [same, setHere]
      · rw [setThere _ ram same]
    | none =>
      obtain ⟨place,pending,victim⟩ := claimHolders task nowMs ram
      have free := openSlotNobody found false
      have begun : loopBegun task [] segment none ram = some ((findPending 0 ram).getD (victimOf ram)) := by
        unfold loopBegun
        rw [if_neg (fun either => either.elim last (fun both => Bool.false_ne_true both.2))]
        exact congrArg (fun k => some (Option.getD k (victimOf ram))) free
      refine ⟨fun j => ?_,?_⟩
      · rw [begun]
        dsimp only
        rw [place]
        by_cases same : j = (findPending 0 ram).getD (victimOf ram)
        · subst same
          rw [if_pos rfl, setHere, pending, Function.update_self]
        · have other := fun eq => same (Option.some.inj eq).symm
          rw [if_neg other, if_neg (fun newline => Bool.false_ne_true newline.1), setThere _ _ same,
            pending, Function.update_of_ne same]
      · have same : (loopBegun task [] segment none ram ≠ none ∧
            openSlot task (List.contains [] 0x0a) ram = none) = (findPending 0 ram = none) := by
          rw [begun, show openSlot task (List.contains [] 0x0a) ram = findPending 0 ram from free]
          exact propext (and_iff_right (Option.some_ne_none _))
        exact victim.trans (congrArg (ram.victim + ·) (if_congr (iff_of_eq same.symm) rfl rfl))

theorem loopHolders (own : Own ram) (some : task ≠ 0) (found : findPending task ram = p) :
    Holders task rest segment p ram (ingestLoop task nowMs rest segment p ram).1 := by
  induction rest generalizing segment p ram with
  | nil => exact endHolders found
  | cons b rest ih =>
    unfold ingestLoop
    by_cases plain : b ≠ 0x0a
    · have ends : (b :: rest).contains 0x0a = rest.contains 0x0a := by
        rw [List.contains_cons, beq_eq_false_iff_ne.mpr (Ne.symm plain), Bool.false_or]
      have begun : loopBegun task (b :: rest) segment p ram = loopBegun task rest (segment ++ [b]) p ram := by
        unfold loopBegun
        rw [ends, trailing, if_pos plain]
      rw [if_pos plain]
      obtain ⟨tasks,victim⟩ := @ih (segment ++ [b]) p ram own found
      refine ⟨fun j => ?_,?_⟩
      · rw [begun, ends]
        exact tasks j
      · rw [begun, ends]
        exact victim
    · have newline := not_not.mp plain
      have ends : (b :: rest).contains 0x0a = true := by
        rw [List.contains_cons, newline]
        rfl
      have after : ∀ next : Ram, Own next → findPending task next = none → next.victim = ram.victim →
          (∀ j, (next.pending j).task = if (ram.pending j).task = task then 0 else (ram.pending j).task) →
          Holders task (b :: rest) segment p ram (ingestLoop task nowMs rest [] none next).1 := by
        intro next owns absent same tasks
        have freed := newlineOpen tasks (rest.contains 0x0a)
        have victims : victimOf next = victimOf ram := by
          unfold victimOf
          simp only [same]
        have begun : loopBegun task (b :: rest) segment p ram = loopBegun task rest [] none next := by
          unfold loopBegun
          rw [ends, trailing, if_neg plain, freed, victims]
          simp
        obtain ⟨later,victim⟩ := @ih [] none next owns absent
        refine ⟨fun j => ?_,?_⟩
        · rw [begun, ends, later j]
          have other : ¬ (rest.contains 0x0a = true ∧ (next.pending j).task = task) :=
            fun both => findAbsent absent j both.2
          rw [if_neg other, tasks j]
          simp only [true_and]
        · rw [victim, begun, ends, same, freed]
      rw [if_neg plain]
      split
      · obtain ⟨minds,absent,_⟩ := newlineMinds (commitLocked p segment nowMs ram).1 .empty
          own some found (by cases p <;> rfl) (by cases p <;> rfl)
        exact after _ minds.own absent (by cases p <;> rfl)
          (@newlineHolders _ p _ _ .empty own some found (by cases p <;> rfl))
      · obtain ⟨minds,absent,_⟩ := newlineMinds (freePending p ram)
          (p.elim .empty (fun k => (ram.pending k).text)) own some found (by cases p <;> rfl)
          (by cases p <;> rfl)
        exact after _ minds.own absent (by cases p <;> rfl)
          (@newlineHolders _ p _ _ (p.elim .empty (fun k => (ram.pending k).text)) own some found
            (by cases p <;> rfl))

theorem callHolders {call : Said} (own : Own ram) (some : call.task ≠ 0) (cur : ram.cur ≠ none) :
    (∀ j, ((owned call ram).1.pending j).task =
      if begunIn call ram = .some j then call.task
      else if call.text.contains 0x0a ∧ (ram.pending j).task = call.task then 0
      else (ram.pending j).task) ∧
    (owned call ram).1.victim = ram.victim +
      if begunIn call ram ≠ none ∧ openSlot call.task (call.text.contains 0x0a) ram = none then 1 else 0 := by
  rw [(ownedCallSame call ram).1]
  unfold ingest
  rw [ringRuns cur, Bool.false_or]
  obtain ⟨tasks,victim⟩ := @loopHolders call.task call.nowMs call.text [] _ ram own some rfl
  by_cases empty : call.text = []
  · have begun : begunIn call ram = none := by
      unfold begunIn
      rw [empty]
      exact if_pos (.inl rfl)
    rw [empty, begun, if_pos (show List.isEmpty ([] : List UInt8) = true from rfl)]
    exact ⟨fun j => (begunNothing rfl).1.symm,congrArg (ram.victim + ·) (begunNothing (j := 0) rfl).2.symm⟩
  · rw [if_neg (fun isEmpty => empty (List.isEmpty_iff.mp isEmpty))]
    exact ⟨tasks,victim⟩

theorem takesOverBegun {call : Said} (taken : takesOver call ram = some k) :
    k = victimOf ram ∧ begunIn call ram = some k ∧
      openSlot call.task (call.text.contains 0x0a) ram = none := by
  obtain ⟨⟨more,absent,full⟩,same⟩ := Option.ite_none_right_eq_some.mp taken
  have shut := (openSlotNobody absent (call.text.contains 0x0a)).trans full
  refine ⟨(Option.some.inj same).symm,?_,shut⟩
  unfold begunIn
  rw [if_neg, shut]
  · exact same
  · rintro (nothing | ⟨_,found⟩)
    · exact more nothing
    · rw [absent] at found
      exact Bool.false_ne_true found

theorem begunOpen {call : Said} (spared : takesOver call ram = none) (begun : begunIn call ram = some k) :
    openSlot call.task (call.text.contains 0x0a) ram = some k ∧
      (call.text.contains 0x0a = false → findPending call.task ram = none) := by
  unfold begunIn at begun
  obtain ⟨keeps,place⟩ := Option.ite_none_left_eq_some.mp begun
  obtain ⟨more,fresh⟩ := not_or.mp keeps
  have absent : call.text.contains 0x0a = false → findPending call.task ram = none := fun goes =>
    Option.not_isSome_iff_eq_none.mp (fun found => fresh ⟨goes,found⟩)
  refine ⟨?_,absent⟩
  cases shut : openSlot call.task (call.text.contains 0x0a) ram with
  | some j =>
    rw [shut] at place
    exact place
  | none =>
    have closed : ∀ j, ((ram.pending j).task == 0 || call.text.contains 0x0a && (ram.pending j).task == call.task) ≠ true :=
      fun j => List.find?_eq_none.mp shut j (List.mem_finRange j)
    have full : findPending 0 ram = none := findNobody fun j free =>
      closed j (Bool.or_eq_true_iff.mpr (.inl (beq_iff_eq.mpr free)))
    have mine : findPending call.task ram = none := by
      cases ended : call.text.contains 0x0a with
      | false => exact absent ended
      | true =>
        refine findNobody fun j here => closed j (Bool.or_eq_true_iff.mpr (.inr ?_))
        exact Bool.and_eq_true_iff.mpr ⟨ended,beq_iff_eq.mpr here⟩
    exact absurd (if_pos ⟨more,mine,full⟩) (ne_of_eq_of_ne spared (Option.some_ne_none (victimOf ram)).symm)

theorem turnVictim (ram : Ram) : turn ram.victim (victimOf ram) = 0 := by
  unfold turn victimOf
  dsimp only
  omega

theorem turnFirst {j : Fin 4} (first : turn ram.victim j = 0) : j = victimOf ram := by
  unfold turn at first
  unfold victimOf
  have := j.isLt
  exact Fin.ext (by dsimp only; omega)

theorem turnNext (victim : Nat) (j : Fin 4) :
    turn (victim + 1) j = if turn victim j = 0 then 3 else turn victim j - 1 := by
  unfold turn
  have := j.isLt
  split <;> omega

structure Aged (s : Ring) : Prop where
  own : Own s.ram
  cur : s.ram.cur ≠ none
  past : ∀ j, (s.ram.pending j).task ≠ 0 → s.stamps j < s.clock
  order : ∀ i j, (s.ram.pending i).task ≠ 0 → (s.ram.pending j).task ≠ 0 →
    turn s.ram.victim i < turn s.ram.victim j → s.stamps i < s.stamps j

theorem freshAged {s : Ring} (fresh : FreshRing s.ram) : Aged s := by
  have nobody : ∀ j, (s.ram.pending j).task = 0 := fun j => congrArg Pending.task (fresh.pending j)
  exact ⟨(freshOwn fresh).1,fresh.cur,fun j held => absurd (nobody j) held,fun i _ held => absurd (nobody i) held⟩

theorem turnsMove {s : Ring} {call : Said} (order : InOrder s call)
    (victim : (owned call s.ram).1.victim = s.ram.victim +
      if begunIn call s.ram ≠ none ∧ openSlot call.task (call.text.contains 0x0a) s.ram = none then 1 else 0)
    {i j : Fin 4} (other : begunIn call s.ram ≠ some j) (held : (s.ram.pending j).task ≠ 0)
    (stays : call.text.contains 0x0a → (s.ram.pending j).task ≠ call.task)
    (before : turn (owned call s.ram).1.victim i < turn (owned call s.ram).1.victim j) :
    begunIn call s.ram ≠ some i ∧ turn s.ram.victim i < turn s.ram.victim j := by
  cases taken : takesOver call s.ram with
  | some k =>
    obtain ⟨here,begun,shut⟩ := takesOverBegun taken
    rw [if_pos ⟨begun ▸ Option.some_ne_none k,shut⟩] at victim
    rw [victim, turnNext, turnNext] at before
    have later : turn s.ram.victim j ≠ 0 := fun first =>
      other (begun.trans (congrArg some (here.trans (turnFirst first).symm)))
    rw [if_neg later] at before
    have bound : turn s.ram.victim j < 4 := Nat.mod_lt _ (by decide)
    split at before
    · omega
    · rename_i behind
      refine ⟨fun same => ?_,by omega⟩
      rw [begun, here] at same
      exact behind (Option.some.inj same ▸ turnVictim s.ram)
  | none =>
    have still : (owned call s.ram).1.victim = s.ram.victim := by
      rw [victim, if_neg]
      · rfl
      · rintro ⟨begins,shut⟩
        obtain ⟨k,begun⟩ := Option.ne_none_iff_exists'.mp begins
        exact Option.some_ne_none k ((begunOpen taken begun).1.symm.trans shut)
    rw [still] at before
    refine ⟨fun begun => ?_,before⟩
    have apart : (s.ram.pending j).task ≠ call.task := by
      cases ended : call.text.contains 0x0a with
      | true => exact stays ended
      | false => exact findAbsent ((begunOpen taken begun).2 ended) j
    have := order taken i begun j held apart
    omega

theorem agedStep {s t : Ring} {call : Said} (aged : Aged s) (order : InOrder s call)
    (stepped : step s call = some t) : Aged t := by
  obtain ⟨handle,same⟩ := Option.ite_none_left_eq_some.mp stepped
  cases Option.some.inj same
  have effect := @ownedEffect s.ram call aged.own handle aged.cur
  obtain ⟨tasks,victim⟩ := callHolders aged.own handle aged.cur
  have held : ∀ j, begunIn call s.ram ≠ some j → ((owned call s.ram).1.pending j).task ≠ 0 →
      (s.ram.pending j).task ≠ 0 ∧ (call.text.contains 0x0a → (s.ram.pending j).task ≠ call.task) := by
    intro j other still
    rw [tasks j, if_neg other] at still
    obtain ⟨kept,still⟩ := ite_ne_left_iff.mp still
    exact ⟨still.symm,fun ended here => kept ⟨ended,here⟩⟩
  refine ⟨effect.own,effect.cur ▸ aged.cur,fun j still => ?_,fun i j first second before => ?_⟩
  · dsimp only
    split
    · exact Nat.lt_succ_self _
    · rename_i other
      exact Nat.lt_succ_of_lt (aged.past j (held j other still).1)
  · dsimp only
    by_cases new : begunIn call s.ram = some j
    · have other : begunIn call s.ram ≠ some i := by
        intro also
        cases Option.some.inj (new.symm.trans also)
        exact Nat.lt_irrefl _ before
      rw [if_neg other, if_pos new]
      exact aged.past i (held i other first).1
    · obtain ⟨owner,stays⟩ := held j new second
      obtain ⟨other,earlier⟩ := turnsMove order victim new owner stays before
      rw [if_neg other, if_neg new]
      exact aged.order i j (held i other first).1 owner earlier

theorem underAged {s : Ring} (reached : ring.Under InOrder s) : Aged s := by
  refine underInvariant Aged ?_ (fun _ _ _ aged order stepped => agedStep aged order stepped) reached
  rintro s ⟨fresh,_⟩
  exact freshAged fresh

theorem reachedSound {s : Ring} (reached : ring.Reachable s) : Own s.ram ∧ s.ram.cur ≠ none := by
  refine reachableInvariant (fun s => Own s.ram ∧ s.ram.cur ≠ none) ?_ ?_ reached
  · rintro s ⟨fresh,_⟩
    exact ⟨(freshOwn fresh).1,fresh.cur⟩
  · rintro s call t ⟨own,cur⟩ stepped
    obtain ⟨handle,same⟩ := Option.ite_none_left_eq_some.mp stepped
    cases Option.some.inj same
    have effect := @ownedEffect s.ram call own handle cur
    exact ⟨effect.own,effect.cur ▸ cur⟩

/- The text of an unfinished line is still there after a call: held, or in a line. -/
def Survives (text : Text) (held : Option Text) (lines : List (UInt32 × Text)) : Prop :=
  text.bytes = [] ∨ (∃ after, held = some after ∧ text.bytes <+: after.bytes) ∨
    ∃ line ∈ lines, text.bytes <+: line.2.bytes

theorem assembleSurvives (text : Text) :
    Survives text (assemble nowMs rest segment (some text)).1 (assemble nowMs rest segment (some text)).2 := by
  induction rest generalizing segment with
  | nil =>
    unfold assemble
    split
    · exact .inr (.inl ⟨text,rfl,List.prefix_refl _⟩)
    · exact .inr (.inl ⟨_,rfl,List.prefix_append _ _⟩)
  | cons b rest ih =>
    unfold assemble
    split
    · exact ih
    · split
      · exact .inr (.inr ⟨_,List.mem_cons_self,List.prefix_append _ _⟩)
      · rename_i blank
        refine .inl (by_contra fun more => blank (.inr ?_))
        exact decide_eq_true more

theorem effectSurvives {call : Said} {done : Ram × List (Nat × Commit)} {t : Nat} {text : Text}
    (effect : Effect call ram done) (handle : t ≠ 0) (held : heldText t ram = some text) :
    Survives text (heldText t done.1) (linesFor t done.2) := by
  by_cases mine : t = call.task
  · subst mine
    rw [effect.held, effect.lines, held]
    exact assembleSurvives text
  · by_cases taken : ∃ k, takesOver call ram = some k ∧ (ram.pending k).task = t
    · obtain ⟨k,taken,rfl⟩ := taken
      obtain ⟨_,_,before,_,line⟩ := effect.taken k taken
      rw [line]
      cases Option.some.inj (held.symm.trans before)
      exact .inr (.inr ⟨_,List.mem_singleton_self _,List.prefix_refl _⟩)
    · have spared := effect.kept t handle mine (fun k same here => taken ⟨k,same,here⟩)
      rw [spared.1, held]
      exact .inr (.inl ⟨text,rfl,List.prefix_refl _⟩)

/- Two lines that are held, and the turn of the younger one comes first. -/
def OutOfOrder (s : Ring) : Prop :=
  ∃ k j, (s.ram.pending k).task ≠ 0 ∧ (s.ram.pending j).task ≠ 0 ∧
    turn s.ram.victim k < turn s.ram.victim j ∧ s.stamps j < s.stamps k

theorem turnSame {i j : Fin 4} {victim : Nat} (same : turn victim i = turn victim j) : i = j := by
  unfold turn at same
  have := i.isLt
  have := j.isLt
  exact Fin.ext (by omega)

theorem beginsOutOfOrder {s t : Ring} {call : Said} (aged : Aged s) (early : ¬ InOrder s call)
    (stepped : step s call = some t) : OutOfOrder t := by
  obtain ⟨handle,same⟩ := Option.ite_none_left_eq_some.mp stepped
  cases Option.some.inj same
  obtain ⟨tasks,victim⟩ := callHolders aged.own handle aged.cur
  simp only [InOrder,not_forall,exists_prop] at early
  obtain ⟨spared,k,begun,j,held,other,before⟩ := early
  have place := (begunOpen spared begun).1
  have still : (owned call s.ram).1.victim = s.ram.victim := by
    rw [victim, if_neg (fun both => Option.some_ne_none k (place.symm.trans both.2))]
    rfl
  have apart : j ≠ k := by
    rintro rfl
    have free := List.find?_some place
    simp only [Bool.or_eq_true,Bool.and_eq_true,beq_iff_eq] at free
    exact free.elim held (fun own => other own.2)
  have elsewhere : begunIn call s.ram ≠ some j := fun here => apart (Option.some.inj (here.symm.trans begun))
  refine ⟨k,j,?_,?_,?_,?_⟩
  · change ((owned call s.ram).1.pending k).task ≠ 0
    rw [tasks k, if_pos begun]
    exact handle
  · change ((owned call s.ram).1.pending j).task ≠ 0
    rw [tasks j, if_neg elsewhere, if_neg (fun own => other own.2)]
    exact held
  · change turn (owned call s.ram).1.victim k < turn (owned call s.ram).1.victim j
    rw [still]
    exact Nat.lt_of_le_of_ne (Nat.not_lt.mp before) (fun same => apart (turnSame same).symm)
  · change (if begunIn call s.ram = some j then s.clock else s.stamps j) <
      if begunIn call s.ram = some k then s.clock else s.stamps k
    rw [if_neg elsewhere, if_pos begun]
    exact aged.past j held

/- Nothing of an unfinished line is lost, and none of it gets into a line of another task. The
line that is given up is the oldest as long as lines are begun in the order of the turns, and
one that is not leaves a younger line in front of an older. -/
theorem oldestGivenUp (s : Ring) (call : Said) (handle : call.task ≠ 0) :
    (ring.Under InOrder s → ∀ k, takesOver call s.ram = some k →
      ∀ j, j ≠ k → (s.ram.pending j).task ≠ 0 ∧ s.stamps k < s.stamps j) ∧
    (ring.Under InOrder s → ¬ InOrder s call → ∀ t, step s call = some t → OutOfOrder t) ∧
    (ring.Reachable s → Effect call s.ram (owned call s.ram) ∧
      ∀ t text, t ≠ 0 → heldText t s.ram = some text →
        Survives text (heldText t (owned call s.ram).1) (linesFor t (owned call s.ram).2)) ∧
    (owned call s.ram).1 = (ingest call.task call.nowMs call.text s.ram).1 ∧
    (owned call s.ram).2.map Prod.snd = (ingest call.task call.nowMs call.text s.ram).2 := by
  refine ⟨fun reached k taken j other => ?_,fun reached early t stepped => ?_,fun reached => ?_,
    ownedCallSame call s.ram⟩
  · have aged := underAged reached
    obtain ⟨⟨_,_,full⟩,_⟩ := Option.ite_none_right_eq_some.mp taken
    have victim := (takesOverBegun taken).1
    have held := findAbsent full
    refine ⟨held j,aged.order k j (held k) (held j) ?_⟩
    have first : turn s.ram.victim k = 0 := victim ▸ turnVictim s.ram
    rw [first]
    exact Nat.pos_of_ne_zero (fun last => other ((turnFirst last).trans victim.symm))
  · exact beginsOutOfOrder (underAged reached) early stepped
  · obtain ⟨own,cur⟩ := reachedSound reached
    have effect := @ownedEffect s.ram call own handle cur
    exact ⟨effect,fun t text some held => effectSurvives effect some held⟩

instance (s : Ring) (call : Said) : Decidable (InOrder s call) := by
  unfold InOrder
  infer_instance

def fourBegin : List Said := [⟨1,0,[0x61]⟩,⟨2,0,[0x62]⟩,⟨3,0,[0x63]⟩,⟨4,0,[0x64]⟩]

def startedRing : Ring := ⟨startedRam,fun _ => 0,0⟩

/- With no slot freed in between, a fifth task gets that of the first. -/
theorem oldestGivenUpFirst : ∃ s, ring.Under InOrder s ∧ takesOver ⟨5,0,[0x65]⟩ s.ram = some 0 ∧
    ∀ j, j ≠ 0 → s.stamps 0 < s.stamps j := by
  have started : ring.start startedRing := ⟨startedFresh,rfl,rfl,rfl⟩
  obtain ⟨s,reached,full⟩ := @underEnds _ _ ring InOrder startedRing fourBegin
    (fun s => takesOver ⟨5,0,[0x65]⟩ s.ram == some 0) started (by decide) (by decide)
  have taken := beq_iff_eq.mp full
  exact ⟨s,reached,taken,fun j other => ((oldestGivenUp s ⟨5,0,[0x65]⟩ (by decide)).1 reached 0 taken j other).2⟩

/- The first task ends its line and the fifth begins one in its slot: the sixth gets that line's
slot, and the second task's line is older. -/
theorem oldestNotGivenUp : ¬ ∀ s, ring.Reachable s → ∀ call k, call.task ≠ 0 →
    takesOver call s.ram = some k → ∀ j, j ≠ k → (s.ram.pending j).task ≠ 0 → s.stamps k < s.stamps j := by
  intro oldest
  have started : ring.start startedRing := ⟨startedFresh,rfl,rfl,rfl⟩
  obtain ⟨s,reached,young⟩ := @runEnds _ _ ring startedRing (fourBegin ++ [⟨1,0,[0x0a]⟩,⟨5,0,[0x65]⟩])
    (fun s => takesOver ⟨6,0,[0x66]⟩ s.ram == some 0 && (s.ram.pending 1).task == 2 &&
      decide (s.stamps 1 < s.stamps 0)) started (by decide)
  simp only [Bool.and_eq_true,beq_iff_eq,decide_eq_true_eq] at young
  obtain ⟨⟨taken,held⟩,older⟩ := young
  have younger := oldest s reached ⟨6,0,[0x66]⟩ 0 (by decide) taken 1 (by decide) (by rw [held]; decide)
  exact absurd younger (Nat.lt_asymm older)

end EpskcCommissioner.LogRingVictims
