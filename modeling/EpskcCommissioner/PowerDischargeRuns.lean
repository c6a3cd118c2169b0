import EpskcCommissioner.Machine
import EpskcCommissioner.PowerDischarge

/-! The discharge rate against every poll, stored or not. The checks compare a poll with the
newest sample that is stored, so a rise between two polls is seen only where it goes beyond
that sample. -/
namespace EpskcCommissioner.PowerDischargeRuns
open PowerDischarge

def storedIn (p : Poll) (h : History) : Option (Fin 12) :=
  if p.invalid then none
  else if h.n ≠ 0 then
    if Breaks p (h.hist h.newest) then some h.reset.head
    else if p.nowUs - (h.hist h.newest).tUs < 60000000 then none
    else some h.head
  else some h.head

/- The poll does not go on with the run of the samples that are held. -/
def Restarts (h : History) (p : Poll) : Prop := h.n = 0 ∨ p.invalid ∨ Breaks p (h.hist h.newest)

instance (h : History) (p : Poll) : Decidable (Restarts h p) := by
  unfold Restarts
  infer_instance

/- The fields behind the history say what it came from: all polls, the poll that each slot's
sample came with, and the one that the run began with. -/
structure Meter where
  history : History
  polls : List Poll
  marks : Fin 12 → Nat
  begun : Nat

def step (s : Meter) (p : Poll) : Option Meter :=
  if s.polls.getLast?.any (fun q => p.nowUs < q.nowUs) then none
  else some
    { history := powerNoteSample p s.history
      polls := s.polls ++ [p]
      marks := fun i => if storedIn p s.history = some i then s.polls.length else s.marks i
      begun := if Restarts s.history p then s.polls.length else s.begun }

def meter : Machine Meter Poll := ⟨fun s => s = ⟨initial,[],fun _ => 0,0⟩,step⟩

/- A poll that reports more than the one before it does not go on with the run. -/
def RisesRestart (s : Meter) (p : Poll) : Prop :=
  ∀ q ∈ s.polls.getLast?, q.percent < p.percent → Restarts s.history p

/- No poll is on USB power or has no percentage, and none is late. -/
structure Unbroken (polls : List Poll) : Prop where
  valid : ∀ p ∈ polls, ¬ p.invalid
  gaps : polls.IsChain (fun p q => q.nowUs - p.nowUs ≤ 90000000)

def Falls (polls : List Poll) : Prop := polls.IsChain (fun p q => q.percent ≤ p.percent)

def window (s : Meter) : List Poll := s.polls.drop (s.marks s.history.oldest)

variable {h : History} {p : Poll} {s t : Meter}

def Held (h : History) (i : Fin 12) : Prop := h.n = 12 ∨ i.val < h.n

def InTurn (h : History) : Prop := h.n < 12 → h.head.val = h.n

theorem oldestHeld (some : h.n ≠ 0) : Held h h.oldest := by
  unfold Held History.oldest
  by_cases full : h.n = 12
  · exact .inl full
  · rw [if_neg full]
    exact .inr (Nat.pos_of_ne_zero some)

theorem storeInTurn (turn : InTurn h) (x : Stored) : InTurn (h.store x) := by
  intro few
  change (if h.n < 12 then h.n + 1 else h.n) < 12 at few
  change (h.head.val + 1) % 12 = if h.n < 12 then h.n + 1 else h.n
  split at few
  · rename_i short
    have := turn short
    rw [if_pos short]
    omega
  · rename_i full
    exact absurd few full

theorem storeHeld (turn : InTurn h) (x : Stored) {i : Fin 12} (held : Held (h.store x) i) : i = h.head ∨ Held h i := by
  unfold Held at held ⊢
  change (if h.n < 12 then h.n + 1 else h.n) = 12 ∨ i.val < (if h.n < 12 then h.n + 1 else h.n) at held
  have bound := i.isLt
  by_cases short : h.n < 12
  · have place := turn short
    rw [if_pos short] at held
    by_cases here : i.val = h.n
    · exact .inl (Fin.ext (here.trans place.symm))
    · exact .inr (.inr (by omega))
  · rw [if_neg short] at held
    exact .inr held

theorem storeNewest (h : History) (x : Stored) : (h.store x).hist (h.store x).newest = x := by
  have here : (h.store x).newest = h.head := by
    apply Fin.ext
    change ((h.head.val + 1) % 12 + 12 - 1) % 12 = h.head.val
    have := h.head.isLt
    omega
  rw [here]
  exact if_pos rfl

theorem storeOldest (turn : InTurn h) (some : h.n ≠ 0) (x : Stored) : (h.store x).oldest ≠ h.head := by
  unfold History.oldest
  change (if (if h.n < 12 then h.n + 1 else h.n) = 12 then h.head + 1 else 0) ≠ h.head
  have next : (h.head + 1).val = (h.head.val + 1) % 12 := rfl
  have bound := h.head.isLt
  have moves : h.head + 1 ≠ h.head := by
    intro same
    have values := congrArg Fin.val same
    omega
  by_cases short : h.n < 12
  · have place := turn short
    rw [if_pos short]
    split
    · exact moves
    · intro same
      have values : 0 = h.head.val := congrArg Fin.val same
      omega
  · have few := h.few
    rw [if_neg short, if_pos (show h.n = 12 by omega)]
    exact moves

theorem resetInTurn (h : History) : InTurn h.reset := fun _ => rfl

/- What a poll does to the history, and where its sample is stored. -/
inductive Noted (h : History) (p : Poll) : History → Option (Fin 12) → Prop where
  | reset (bad : p.invalid) : Noted h p h.reset none
  | restart (valid : ¬ p.invalid) (more : h.n ≠ 0) (breaks : Breaks p (h.hist h.newest)) :
      Noted h p (h.reset.store p.sample) (some h.reset.head)
  | first (valid : ¬ p.invalid) (empty : h.n = 0) : Noted h p (h.store p.sample) (some h.head)
  | skip (valid : ¬ p.invalid) (more : h.n ≠ 0) (goes : ¬ Breaks p (h.hist h.newest)) : Noted h p h none
  | store (valid : ¬ p.invalid) (more : h.n ≠ 0) (goes : ¬ Breaks p (h.hist h.newest)) :
      Noted h p (h.store p.sample) (some h.head)

theorem notedCases (h : History) (p : Poll) : Noted h p (powerNoteSample p h) (storedIn p h) := by
  unfold powerNoteSample storedIn
  by_cases bad : p.invalid
  · rw [if_pos bad, if_pos bad]
    exact .reset bad
  · rw [if_neg bad, if_neg bad]
    by_cases some : h.n ≠ 0
    · rw [if_pos some, if_pos some]
      by_cases breaks : Breaks p (h.hist h.newest)
      · rw [if_pos breaks, if_pos breaks]
        exact .restart bad some breaks
      · rw [if_neg breaks, if_neg breaks]
        by_cases early : p.nowUs - (h.hist h.newest).tUs < 60000000
        · rw [if_pos early, if_pos early]
          exact .skip bad some breaks
        · rw [if_neg early, if_neg early]
          exact .store bad some breaks
    · rw [if_neg some, if_neg some]
      exact .first bad (not_not.mp some)

/- The run that the held samples are of: it has no gap, and they all came in it. -/
structure Running (s : Meter) : Prop where
  begun : s.begun < s.polls.length
  unbroken : Unbroken (s.polls.drop s.begun)
  marks : ∀ i, Held s.history i → s.begun ≤ s.marks i
  newest : ∀ q ∈ s.polls.getLast?, (s.history.hist s.history.newest).tUs ≤ q.nowUs

structure Sound (s : Meter) : Prop where
  turn : InTurn s.history
  marked : ∀ i, Held s.history i → ∃ p, s.polls[s.marks i]? = some p ∧ p.sample = s.history.hist i
  run : s.history.n ≠ 0 → Running s

theorem noneHeld (none : h.n = 0) (i : Fin 12) : ¬ Held h i := by
  unfold Held
  omega

theorem soundFirst {h : History} (turn : InTurn h) (none : h.n = 0) (valid : ¬ p.invalid) (polls : List Poll)
    (marks : Fin 12 → Nat) : Sound ⟨h.store p.sample,polls ++ [p],
      fun i => if some h.head = some i then polls.length else marks i,polls.length⟩ := by
  have only : ∀ i, Held (h.store p.sample) i → some h.head = some i := fun i held =>
    congrArg some ((storeHeld turn _ held).resolve_right (noneHeld none i)).symm
  have last : (polls ++ [p]).getLast? = some p := List.getLast?_concat
  refine ⟨storeInTurn turn _,fun i held => ⟨p,?_,?_⟩,fun _ => ⟨?_,?_,fun i held => ?_,fun q mem => ?_⟩⟩
  · dsimp only
    rw [if_pos (only i held), List.getElem?_append_right (Nat.le_refl _), Nat.sub_self]
    rfl
  · exact (if_pos (Option.some.inj (only i held)).symm).symm
  · dsimp only
    rw [List.length_append, List.length_singleton]
    exact Nat.lt_succ_self _
  · dsimp only
    rw [List.drop_left]
    exact ⟨List.forall_mem_singleton.mpr valid,.singleton p⟩
  · dsimp only
    rw [if_pos (only i held)]
  · cases Option.some.inj (last.symm.trans mem)
    dsimp only
    rw [storeNewest]
    rfl

theorem unbrokenNext (run : Running s) (valid : ¬ p.invalid) (goes : ¬ Breaks p (s.history.hist s.history.newest)) :
    Unbroken ((s.polls ++ [p]).drop s.begun) := by
  obtain ⟨begun,unbroken,_,newest⟩ := run
  rw [List.drop_append_of_le_length (Nat.le_of_lt begun)]
  refine ⟨List.forall_mem_append.mpr ⟨unbroken.valid,List.forall_mem_singleton.mpr valid⟩,
    unbroken.gaps.append (.singleton p) ?_⟩
  intro q last r next
  cases Option.some.inj next
  rw [List.getLast?_drop, if_neg (Nat.not_le.mpr begun)] at last
  have := newest q last
  unfold Breaks at goes
  omega

theorem markedOld {i : Fin 12} {q : Poll} (found : s.polls[s.marks i]? = some q) :
    (s.polls ++ [p])[s.marks i]? = some q := by
  rw [List.getElem?_append_left (List.getElem?_eq_some_iff.mp found).1]
  exact found

theorem soundSkip (sound : Sound s) (some : s.history.n ≠ 0) (order : ∀ q ∈ s.polls.getLast?, q.nowUs ≤ p.nowUs)
    (valid : ¬ p.invalid) (goes : ¬ Breaks p (s.history.hist s.history.newest)) :
    Sound ⟨s.history,s.polls ++ [p],s.marks,s.begun⟩ := by
  have run := sound.run some
  refine ⟨sound.turn,fun i held => ?_,fun _ => ⟨?_,unbrokenNext run valid goes,run.marks,fun q mem => ?_⟩⟩
  · obtain ⟨q,found,same⟩ := sound.marked i held
    exact ⟨q,markedOld found,same⟩
  · dsimp only
    rw [List.length_append]
    exact Nat.lt_add_right _ run.begun
  · cases Option.some.inj ((List.getLast?_concat).symm.trans mem)
    obtain ⟨q,last⟩ : ∃ q, s.polls.getLast? = Option.some q := by
      cases none : s.polls.getLast? with
      | none =>
        have begun := run.begun
        rw [List.getLast?_eq_none_iff.mp none] at begun
        exact absurd begun (Nat.not_lt_zero _)
      | some q => exact ⟨q,rfl⟩
    exact (run.newest q last).trans (order q last)

theorem soundStore (sound : Sound s) (some : s.history.n ≠ 0) (valid : ¬ p.invalid)
    (goes : ¬ Breaks p (s.history.hist s.history.newest)) :
    Sound ⟨s.history.store p.sample,s.polls ++ [p],
      fun i => if Option.some s.history.head = .some i then s.polls.length else s.marks i,s.begun⟩ := by
  have run := sound.run some
  refine ⟨storeInTurn sound.turn _,fun i held => ?_,fun _ => ⟨?_,unbrokenNext run valid goes,fun i held => ?_,fun q mem => ?_⟩⟩
  · dsimp only
    by_cases here : i = s.history.head
    · refine ⟨p,?_,(if_pos here).symm⟩
      rw [if_pos (congrArg Option.some here.symm), List.getElem?_append_right (Nat.le_refl _), Nat.sub_self]
      rfl
    · obtain ⟨q,found,same⟩ := sound.marked i ((storeHeld sound.turn _ held).resolve_left here)
      refine ⟨q,?_,same.trans (if_neg here).symm⟩
      rw [if_neg (fun eq => here (Option.some.inj eq).symm)]
      exact markedOld found
  · dsimp only
    rw [List.length_append]
    exact Nat.lt_add_right _ run.begun
  · dsimp only
    split
    · exact Nat.le_of_lt run.begun
    · rename_i other
      exact run.marks i ((storeHeld sound.turn _ held).resolve_left (fun eq => other (congrArg Option.some eq.symm)))
  · cases Option.some.inj ((List.getLast?_concat).symm.trans mem)
    dsimp only
    rw [storeNewest]
    rfl

theorem soundStep (sound : Sound s) (stepped : step s p = some t) : Sound t := by
  obtain ⟨clock,same⟩ := Option.ite_none_left_eq_some.mp stepped
  cases Option.some.inj same
  have order : ∀ q ∈ s.polls.getLast?, q.nowUs ≤ p.nowUs := by
    intro q last
    rw [last] at clock
    exact Int.not_lt.mp (fun early => clock (decide_eq_true early))
  have noted := notedCases s.history p
  generalize powerNoteSample p s.history = next at noted ⊢
  generalize storedIn p s.history = stored at noted ⊢
  cases noted with
  | reset bad =>
    exact ⟨resetInTurn _,fun i held => absurd held (noneHeld rfl i),fun some => absurd rfl some⟩
  | restart valid some breaks =>
    rw [if_pos (show Restarts s.history p from .inr (.inr breaks))]
    exact soundFirst (resetInTurn _) rfl valid s.polls s.marks
  | first valid none =>
    rw [if_pos (show Restarts s.history p from .inl none)]
    exact soundFirst sound.turn none valid s.polls s.marks
  | skip valid some goes =>
    have stays : ¬ Restarts s.history p := fun restarts => restarts.elim some (fun bad => bad.elim valid goes)
    rw [if_neg stays]
    exact soundSkip sound some order valid goes
  | store valid some goes =>
    have stays : ¬ Restarts s.history p := fun restarts => restarts.elim some (fun bad => bad.elim valid goes)
    rw [if_neg stays]
    exact soundStore sound some valid goes

theorem reachedSound (reached : meter.Reachable s) : Sound s := by
  refine reachableInvariant Sound ?_ (fun s p t => soundStep) reached
  rintro s rfl
  exact ⟨fun _ => rfl,fun i held => absurd held (noneHeld rfl i),fun some => absurd rfl some⟩

theorem fallsStep (sound : Sound s) (falls : s.history.n ≠ 0 → Falls (s.polls.drop s.begun))
    (condition : RisesRestart s p) (stepped : step s p = some t) :
    t.history.n ≠ 0 → Falls (t.polls.drop t.begun) := by
  obtain ⟨_,same⟩ := Option.ite_none_left_eq_some.mp stepped
  cases Option.some.inj same
  intro _
  dsimp only
  by_cases restarts : Restarts s.history p
  · rw [if_pos restarts, List.drop_left]
    exact .singleton p
  · have some : s.history.n ≠ 0 := fun none => restarts (.inl none)
    have begun := (sound.run some).begun
    rw [if_neg restarts, List.drop_append_of_le_length (Nat.le_of_lt begun)]
    refine (falls some).append (.singleton p) ?_
    intro q last r next
    cases Option.some.inj next
    rw [List.getLast?_drop, if_neg (Nat.not_le.mpr begun)] at last
    exact Int.not_lt.mp (fun rise => restarts (condition q last rise))

theorem underFalls (reached : meter.Under RisesRestart s) : s.history.n ≠ 0 → Falls (s.polls.drop s.begun) := by
  refine underInvariantWith Sound (fun s => s.history.n ≠ 0 → Falls (s.polls.drop s.begun))
    (fun s reached => reachedSound (underReachable reached)) ?_
    (fun s p t sound falls condition stepped => fallsStep sound falls condition stepped) reached
  rintro s rfl some
  exact absurd rfl some

theorem windowRun (sound : Sound s) (some : s.history.n ≠ 0) : ∃ k, window s = (s.polls.drop s.begun).drop k := by
  refine ⟨s.marks s.history.oldest - s.begun,?_⟩
  rw [List.drop_drop, Nat.add_sub_cancel' ((sound.run some).marks _ (oldestHeld some))]
  rfl

theorem rateSome {now : Int} {given : ℚ × Int} (rate : powerDischargeRate now h = some given) : h.n ≠ 0 := by
  have two := (Option.ite_none_left_eq_some.mp rate).1
  omega

theorem riseStays (sound : Sound s) (missed : ¬ RisesRestart s p) (stepped : step s p = some t) :
    ¬ Falls (window t) := by
  obtain ⟨_,same⟩ := Option.ite_none_left_eq_some.mp stepped
  cases Option.some.inj same
  simp only [RisesRestart,not_forall,exists_prop] at missed
  obtain ⟨q,last,rise,goes⟩ := missed
  have some : s.history.n ≠ 0 := fun none => goes (.inl none)
  have noted := notedCases s.history p
  have inside : ∀ i, Held s.history i → s.marks i < s.polls.length := by
    intro i held
    obtain ⟨_,found,_⟩ := sound.marked i held
    exact (List.getElem?_eq_some_iff.mp found).1
  have mark : (if storedIn p s.history = Option.some (powerNoteSample p s.history).oldest then s.polls.length
      else s.marks (powerNoteSample p s.history).oldest) < s.polls.length := by
    generalize powerNoteSample p s.history = next at noted ⊢
    generalize storedIn p s.history = stored at noted ⊢
    cases noted with
    | reset bad => exact absurd (.inr (.inl bad)) goes
    | restart valid more breaks => exact absurd (.inr (.inr breaks)) goes
    | first valid empty => exact absurd empty some
    | skip valid more goes =>
      rw [if_neg (Option.some_ne_none _).symm]
      exact inside _ (oldestHeld some)
    | store valid more goes =>
      have other := storeOldest sound.turn some p.sample
      have held : Held (s.history.store p.sample) (s.history.store p.sample).oldest := by
        apply oldestHeld
        change (if s.history.n < 12 then s.history.n + 1 else s.history.n) ≠ 0
        split <;> omega
      rw [if_neg (fun eq => other (Option.some.inj eq).symm)]
      exact inside _ ((storeHeld sound.turn _ held).resolve_left other)
  intro falls
  unfold Falls window at falls
  dsimp only at falls
  rw [List.drop_append_of_le_length (Nat.le_of_lt mark)] at falls
  refine absurd ((List.isChain_append.mp falls).2.2 q ?_ p rfl) (Int.not_le.mpr rise)
  rw [List.getLast?_drop, if_neg (Nat.not_le.mpr mark)]
  exact last

/- Whenever a rate is given, the polls since the oldest sample that it uses were all on battery
and none was late; and where each rise begins a run anew, none reported a rise. A rise that does
not leaves one among them. -/
theorem rateOfOneRun (s : Meter) :
    (meter.Reachable s → ∀ now given, powerDischargeRate now s.history = some given → Unbroken (window s) ∧
      ∃ p, (window s).head? = some p ∧ p.sample = s.history.hist s.history.oldest) ∧
    (meter.Under RisesRestart s → ∀ now given, powerDischargeRate now s.history = some given → Falls (window s)) ∧
    (meter.Reachable s → ∀ p t, ¬ RisesRestart s p → step s p = some t → ¬ Falls (window t)) := by
  refine ⟨?_,?_,fun reached p t missed stepped => riseStays (reachedSound reached) missed stepped⟩
  · intro reached now given rate
    have some := rateSome rate
    have sound := reachedSound reached
    obtain ⟨k,same⟩ := windowRun sound some
    have unbroken := (sound.run some).unbroken
    obtain ⟨p,found,sample⟩ := sound.marked _ (oldestHeld some)
    refine ⟨same ▸ ⟨fun p mem => unbroken.valid p (List.mem_of_mem_drop mem),unbroken.gaps.drop k⟩,p,?_,sample⟩
    rw [window, List.head?_drop]
    exact found
  · intro reached now given rate
    have some := rateSome rate
    obtain ⟨k,same⟩ := windowRun (reachedSound (underReachable reached)) some
    rw [same]
    exact (underFalls reached some).drop k

instance (s : Meter) (p : Poll) : Decidable (RisesRestart s p) := by
  unfold RisesRestart
  infer_instance

def started : Meter := ⟨initial,[],fun _ => 0,0⟩

def falling : List Poll := (List.range 11).map (fun i => ⟨60000000 * i,80 - 2 * i / 10,true⟩)

theorem rateOfOneRunFalling : ∃ s, meter.Under RisesRestart s ∧
    (∃ given, powerDischargeRate 600000000 s.history = some given) ∧ Unbroken (window s) ∧ Falls (window s) := by
  obtain ⟨s,reached,ends⟩ := @underEnds _ _ meter RisesRestart started falling
    (fun s => (powerDischargeRate 600000000 s.history).isSome) rfl (by decide +kernel) (by decide +kernel)
  obtain ⟨given,rate⟩ := Option.isSome_iff_exists.mp ends
  exact ⟨s,reached,⟨given,rate⟩,((rateOfOneRun s).1 (underReachable reached) _ given rate).1,
    (rateOfOneRun s).2.1 reached _ given rate⟩

def corrected : List Poll :=
  [⟨0,80,true⟩,⟨30000000,78,true⟩,⟨40000000,79,true⟩] ++
    (List.range 9).map (fun i => ⟨60000000 * (i + 1),79,true⟩) ++ [⟨600000000,78,true⟩]

theorem riseMissed : ¬ ∀ s, meter.Reachable s → ∀ now given, powerDischargeRate now s.history = some given →
    Unbroken (window s) ∧ Falls (window s) := by
  intro all
  obtain ⟨s,reached,ends⟩ := @runEnds _ _ meter started corrected
    (fun s => (powerDischargeRate 600000000 s.history).isSome &&
      ((window s).map Poll.percent).take 3 == [80,78,79]) rfl (by decide +kernel)
  obtain ⟨rate,rise⟩ := Bool.and_eq_true_iff.mp ends
  obtain ⟨given,rate⟩ := Option.isSome_iff_exists.mp rate
  have falls : ((window s).map Poll.percent).IsChain (fun a b => b ≤ a) :=
    (List.isChain_map Poll.percent).mpr (all s reached _ given rate).2
  have front := falls.take 3
  rw [beq_iff_eq.mp rise] at front
  exact absurd front (by decide)

end EpskcCommissioner.PowerDischargeRuns
