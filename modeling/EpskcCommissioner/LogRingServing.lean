import EpskcCommissioner.LogRingRecovery

/-! What `log_ring_get` gives while a boot runs, however many lines it logs and whatever the
memory had at the start: of the running boot only lines that it committed whole, under
their own numbers. -/
namespace EpskcCommissioner.LogRingServing
open LogRing LogRingDevice LogRingSlots LogRingNumbers LogRingRunning LogRingInit LogRingRecovery CachedMemory

/- A boot runs: its last lines stand in the view of the ring, and those that are complete
have been committed whole. -/
structure Serving (s : Device) : Prop where
  cur : s.ram.cur = some s.boot.half
  numbered : Numbered 0 s.boot.lines
  latest : s.ram.latest = UInt32.ofNat s.boot.lines.length
  begun : s.boot.begun ≤ s.boot.lines.length
  unlocked : s.lock = none → s.boot.begun = s.boot.lines.length
  working : ∀ k, s.lock = some k → Working s.boot s.memory k
  bootId : s.memory.view (.bootId s.boot.half) = s.boot.id
  viewed : ∀ k, k < complete s → HasLine s.boot k s.memory.view
  whole : ∀ k c, k < complete s → s.boot.lines[k]? = some c → (s.boot.id,c) ∈ s.committed

structure Asleep (s : Device) : Prop where
  ram : s.ram = .cleared
  callers : ∀ id, s.callers id = .idle
  lock : s.lock = none

theorem servingEvict {s : Device} (serving : Serving s) (k : Line) :
    Serving {s with memory := s.memory.writeBack line k} :=
  {serving with working := fun k' held => workingView (serving.working k' held) rfl}

theorem servingGoTo {s : Device} (serving : Serving s) (id : Nat) (c : Caller) : Serving (goTo id c s) :=
  {serving with}

theorem servingWriteBack {s : Device} (serving : Serving s) (id : Nat) (work : List Line) (own : List Nat) :
    Serving (writeBackStep id work own s) := by
  cases work with
  | nil =>
    refine servingGoTo (s := {s with boot := {s.boot with returned := s.boot.returned ++ own}})
      {serving with working := fun k held => ?_} id .idle
    have working := serving.working k held
    exact ⟨working.later,working.committing,working.own⟩
  | cons k work => exact servingGoTo (servingEvict serving k) id (.writingBack work own)

theorem servingEnter {s : Device} (serving : Serving s) (free : s.lock = none) (id : Nat) (call : Call)
    (nowMs : UInt32) : Serving (enter id call nowMs s) := by
  obtain ⟨numbered,latest,cur,_,_⟩ := executeCounts call nowMs serving.latest
  have begun := serving.unlocked free
  have whole : complete s = s.boot.begun := by
    unfold complete
    rw [free]
  unfold enter
  generalize execute call nowMs s.ram = done at numbered latest cur ⊢
  obtain ⟨ram,commits⟩ := done
  dsimp only at numbered latest cur ⊢
  apply servingGoTo
  refine ⟨cur.trans serving.cur,?_,?_,?_,nofun,?_,serving.bootId,?_,?_⟩
  · intro k c found
    change (s.boot.lines ++ commits)[k]? = some c at found
    by_cases old : k < s.boot.lines.length
    · exact serving.numbered k c (olderLine old found)
    · rw [List.getElem?_append_right (Nat.le_of_not_lt old)] at found
      rw [numbered _ c found]
      exact congrArg UInt32.ofNat (by omega)
  · change ram.latest = UInt32.ofNat (s.boot.lines ++ commits).length
    rw [latest, List.length_append]
  · change s.boot.begun ≤ (s.boot.lines ++ commits).length
    rw [List.length_append]
    omega
  · intro k held
    cases Option.some.inj held
    exact workingEnter id commits begun
  · intro k done c found
    change k < s.boot.begun at done
    exact serving.viewed k (whole ▸ done) c (olderLine (begun ▸ done) found)
  · intro k c done found
    change k < s.boot.begun at done
    exact serving.whole k c (whole ▸ done) (olderLine (begun ▸ done) found)

theorem bootIdPerform {g h : Half} {i : Index} (m : Memory) (st : Store) :
    (perform h i m st).view (.bootId g) = m.view (.bootId g) := performOther m st (fun no => no)

theorem servingStore {s : Device} {k : Critical} {c : Commit} {st : Store} {rest : List Store}
    (serving : Serving s) (locked : s.lock = some k) (committing : k.committing = some (c,st :: rest))
    (more : rest ≠ []) :
    Serving {s with memory := perform s.boot.half (slotIndex c.seq) s.memory st
                    lock := some {k with committing := some (c,rest)}} := by
  have working := serving.working k locked
  obtain ⟨_,_,newest,_⟩ := working.committing c _ committing
  have before := completeCommitting locked committing
  refine ⟨serving.cur,serving.numbered,serving.latest,serving.begun,nofun,?_,?_,?_,?_⟩
  · intro k' held
    cases Option.some.inj held
    exact workingStore working committing more
  · exact (bootIdPerform s.memory st).trans serving.bootId
  · intro n done
    change n < s.boot.begun - 1 at done
    exact olderPerform serving.numbered st newest done (serving.viewed n (before ▸ done))
  · intro n d done found
    change n < s.boot.begun - 1 at done
    exact serving.whole n d (before ▸ done) found

theorem servingCheck {s : Device} {k : Critical} {c : Commit} {st : Store} (serving : Serving s)
    (locked : s.lock = some k) (committing : k.committing = some (c,[st])) :
    Serving {s with memory := perform s.boot.half (slotIndex c.seq) s.memory st
                    lock := some {k with committing := none}
                    committed := (s.boot.id,c) :: s.committed} := by
  have working := serving.working k locked
  obtain ⟨_,first,newest,shown⟩ := working.committing c _ committing
  have before := completeCommitting locked committing
  have last : ∀ {n}, n < s.boot.begun → ¬ n < s.boot.begun - 1 → n = s.boot.begun - 1 := by
    intro n done newer
    omega
  refine ⟨serving.cur,serving.numbered,serving.latest,serving.begun,nofun,?_,?_,?_,?_⟩
  · intro k' held
    cases Option.some.inj held
    exact workingCheck working
  · exact (bootIdPerform s.memory st).trans serving.bootId
  · intro n done
    change n < s.boot.begun at done
    by_cases older : n < s.boot.begun - 1
    · exact olderPerform serving.numbered st newest older (serving.viewed n (before ▸ older))
    · intro d found _
      rw [last done older] at found
      cases Option.some.inj (found.symm.trans newest)
      exact shown
  · intro n d done found
    change n < s.boot.begun at done
    by_cases older : n < s.boot.begun - 1
    · exact List.mem_cons_of_mem _ (serving.whole n d (before ▸ older) found)
    · rw [last done older] at found
      cases Option.some.inj (found.symm.trans newest)
      exact List.mem_cons_self

theorem servingBegin {s : Device} {k : Critical} {c : Commit} {later : List Commit} (serving : Serving s)
    (locked : s.lock = some k) (between : k.committing = none) (next : k.later = c :: later) :
    Serving {s with lock := some {k with committing := some (c,c.stores), later := later}
                    boot := {s.boot with begun := s.boot.begun + 1}} := by
  have working := serving.working k locked
  have before := completeBetween locked between
  refine ⟨serving.cur,serving.numbered,serving.latest,(workingNext working next).2,nofun,?_,serving.bootId,
    ?_,?_⟩
  · intro k' held
    cases Option.some.inj held
    exact workingBegin working next serving.bootId
  · intro n done d found free
    exact serving.viewed n (before ▸ done) d found (fun taken => free (Nat.lt_succ_of_lt taken))
  · intro n d done found
    exact serving.whole n d (before ▸ done) found

theorem servingRelease {s : Device} {k : Critical} (serving : Serving s) (locked : s.lock = some k)
    (between : k.committing = none) (last : k.later = []) (c : Caller) :
    Serving (goTo k.caller c {s with lock := none}) := by
  have working := serving.working k locked
  have before := completeBetween locked between
  apply servingGoTo
  refine ⟨serving.cur,serving.numbered,serving.latest,serving.begun,fun _ => workingLast working serving.begun last,
    nofun,serving.bootId,?_,?_⟩
  · exact fun n done => serving.viewed n (before ▸ done)
  · exact fun n d done found => serving.whole n d (before ▸ done) found

theorem servingProceed {s : Device} {k : Critical} (serving : Serving s) (locked : s.lock = some k) :
    Serving (sectionStep s.boot.half k s) := by
  unfold sectionStep
  split
  · rename_i c st rest committing
    dsimp only
    split
    · rename_i done
      subst done
      exact servingCheck serving locked committing
    · rename_i more
      exact servingStore serving locked committing more
  · rename_i c committing
    obtain ⟨some,_⟩ := (serving.working k locked).committing c [] committing
    exact absurd rfl some
  · rename_i between
    split
    · rename_i c later next
      exact servingBegin serving locked between next
    · rename_i last
      exact servingRelease serving locked between last _

theorem servingInit {s : Device} (asleep : Asleep s) (bootId : UInt64) : Serving (init bootId s) := by
  obtain ⟨cur,latest⟩ := initRamCur s.memory s.ram
  have none : complete (init bootId s) = 0 := by
    unfold complete init
    dsimp only
    rw [asleep.lock]
  refine ⟨cur,nofun,latest,Nat.le_refl _,fun _ => rfl,?_,?_,?_,?_⟩
  · intro k held
    exact absurd (asleep.lock.symm.trans held).symm (Option.some_ne_none k)
  · exact (initHeader s.memory bootId).1 (.bootId _) _ (if_pos rfl)
  · intro k done
    rw [none] at done
    exact absurd done (Nat.not_lt_zero _)
  · intro k c done
    rw [none] at done
    exact absurd done (Nat.not_lt_zero _)

def Known (s : Device) : Prop := Serving s ∨ Asleep s

theorem knownStep {s t : Device} {l : Label} (known : Known s) (taken : step s l = some t) : Known t := by
  rcases known with serving | asleep
  · cases stepped taken with
    | evict k => exact .inl (servingEvict serving k)
    | call id call nowMs _ => exact .inl (servingGoTo serving id _)
    | enter id call nowMs _ free => exact .inl (servingEnter serving free id call nowMs)
    | proceed h k cur locked =>
      cases Option.some.inj (serving.cur.symm.trans cur)
      exact .inl (servingProceed serving locked)
    | writeBack id work own _ => exact .inl (servingWriteBack serving id work own)
    | crash _ => exact .inr ⟨rfl,fun _ => rfl,rfl⟩
    | init bootId off =>
      rw [serving.cur] at off
      exact absurd off Bool.false_ne_true
  · rcases asleepStep (asleep.ram ▸ rfl) asleep.callers taken with ⟨k,rfl⟩ | ⟨bootId,_,rfl⟩
    · exact .inr ⟨asleep.ram,asleep.callers,asleep.lock⟩
    · exact .inl (servingInit asleep bootId)

theorem reachedKnown {s : Device} (reached : device.Reachable s) : Known s := by
  refine reachableInvariant Known ?_ (fun s l t => knownStep) reached
  rintro _ ⟨memory,rfl⟩
  exact .inr ⟨rfl,fun _ => rfl,rfl⟩

theorem reachedServing {s : Device} (reached : device.Reachable s) (runs : s.ram.cur.isSome) : Serving s := by
  rcases reachedKnown reached with serving | asleep
  · exact serving
  · rw [asleep.ram] at runs
    exact absurd runs Bool.false_ne_true

theorem windowPlace {n : Nat} {latest q : UInt32} (count : latest = UInt32.ofNat n) (numbered : q ≠ 0)
    (reached : q ≤ latest) (near : (latest - q).toNat < 1024) :
    ∃ k, k < n ∧ n ≤ k + 1024 ∧ q = UInt32.ofNat (k + 1) := by
  have some : q.toNat ≠ 0 := fun zero => numbered (UInt32.toNat_inj.mp zero)
  have low := UInt32.le_iff_toNat_le.mp reached
  have value : latest.toNat = n % 4294967296 := by
    rw [count]
    exact UInt32.toNat_ofNat'
  have most := Nat.mod_le n 4294967296
  rw [UInt32.toNat_sub_of_le _ _ reached] at near
  refine ⟨n - (latest.toNat - q.toNat) - 1,by omega,by omega,UInt32.toNat_inj.mp ?_⟩
  have back : (UInt32.ofNat (n - (latest.toNat - q.toNat) - 1 + 1)).toNat =
      (n - (latest.toNat - q.toNat) - 1 + 1) % 4294967296 := UInt32.toNat_ofNat'
  rw [back]
  omega

/- Between two critical sections, what is given of the running boot is a line that it
committed whole. -/
theorem currentWhole {s : Device} (serving : Serving s) (free : s.lock = none) {q : UInt32} {out : LineOut}
    (got : logRingGet .current q s.memory.view s.ram = some out) :
    ∃ c, (s.boot.id,c) ∈ s.committed ∧ Reads out c := by
  obtain ⟨h,half,numbered,reached,near,_,_,rfl⟩ := getFound got
  have own : some h = s.ram.cur := half.symm
  rw [if_pos own] at reached near
  cases Option.some.inj (own.trans serving.cur)
  obtain ⟨k,inside,recent,rfl⟩ := windowPlace serving.latest numbered reached near
  have begun := serving.unlocked free
  have done : k < complete s := by
    unfold complete
    rw [free]
    exact begun ▸ inside
  obtain ⟨c,line⟩ : ∃ c, s.boot.lines[k]? = some c := ⟨_,List.getElem?_eq_getElem inside⟩
  have seq : c.seq = UInt32.ofNat (k + 1) := by
    rw [serving.numbered k c line, Nat.zero_add]
  have kept : ¬Taken s.boot k := by
    unfold Taken
    omega
  obtain ⟨holds,_⟩ := shownHolds (serving.viewed k done c line kept)
  rw [seq] at holds
  exact ⟨c,serving.whole k c done line,seq.symm,holds.uptimeMs,holds.text⟩

end EpskcCommissioner.LogRingServing
