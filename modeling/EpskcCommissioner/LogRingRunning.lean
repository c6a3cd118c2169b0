import EpskcCommissioner.LogRingNumbers

/-! What holds while a boot runs: which of its lines the view of the ring shows, and which
of them the external memory has. -/
namespace EpskcCommissioner.LogRingRunning
open LogRing LogRingDevice LogRingSlots LogRingNumbers CachedMemory

def Taken (b : BootLog) (k : Nat) : Prop := k + 1024 < b.begun

/- The header that `log_ring_init` leaves and nobody changes after it. -/
def header (h : Half) (count : UInt32) (bootId : UInt64) : ∀ l, Option (Cell l)
  | .magic => some ringMagic
  | .layout => some ringLayout
  | .bootCount => some count
  | .active => some (UInt32.ofNat h.val)
  | .halfMagic g => if g = h then some halfMagic else none
  | .halfBootCount g => if g = h then some count else none
  | .bootId g => if g = h then some bootId else none
  | _ => none

def HasLine (b : BootLog) (k : Nat) (cells : Cells) : Prop :=
  ∀ c, b.lines[k]? = some c → ¬Taken b k → Shows (wanted b.half b.id c) cells

def HasLineBut (work : List Line) (b : BootLog) (k : Nat) (cells : Cells) : Prop :=
  ∀ c, b.lines[k]? = some c → ¬Taken b k → ShowsBut line work (wanted b.half b.id c) cells

def complete (s : Device) : Nat :=
  match s.lock with
  | some k => if k.committing.isSome then s.boot.begun - 1 else s.boot.begun
  | none => s.boot.begun

/- The critical section at work has the newest line in its hands and the rest before it;
its own lines are the last ones. -/
structure Working (b : BootLog) (memory : Memory) (k : Critical) : Prop where
  later : b.lines.drop b.begun = k.later
  committing : ∀ c stores, k.committing = some (c,stores) → stores ≠ [] ∧ 0 < b.begun ∧
    b.lines[b.begun - 1]? = some c ∧
    Shows (wanted b.half b.id c) (stores.foldl (perform b.half (slotIndex c.seq)) memory).view
  own : ∃ n, n ≤ b.lines.length ∧ k.own = List.range' n (b.lines.length - n) ∧
    k.written = noteWritten (b.lines.drop n)

structure Running (s : Device) : Prop where
  cur : s.ram.cur = some s.boot.half
  numbered : Numbered 0 s.boot.lines
  few : s.boot.lines.length < UInt32.size
  latest : s.ram.latest = UInt32.ofNat s.boot.lines.length
  begun : s.boot.begun ≤ s.boot.lines.length
  unlocked : s.lock = none → s.boot.begun = s.boot.lines.length
  working : ∀ k, s.lock = some k → Working s.boot s.memory k
  header : ∃ count, Shows (header s.boot.half count s.boot.id) s.memory.view ∧
    Shows (header s.boot.half count s.boot.id) s.memory.stored
  viewed : ∀ k, k < complete s → HasLine s.boot k s.memory.view
  writingBack : ∀ id work own, s.callers id = .writingBack work own →
    ∀ k ∈ own, k < complete s ∧ HasLineBut work s.boot k s.memory.stored
  returned : ∀ k ∈ s.boot.returned, k < complete s ∧ HasLine s.boot k s.memory.stored
  drawn : s.boot.id ∈ s.ids
  committed : ∀ i c, (i,c) ∈ s.committed → i ∈ s.ids ∧
    (i = s.boot.id → ∃ k, k < complete s ∧ s.boot.lines[k]? = some c)

theorem completeBegun (s : Device) : complete s ≤ s.boot.begun := by
  unfold complete
  split
  · split <;> omega
  · exact Nat.le_refl _

theorem runningGoTo {s : Device} {id : Nat} {c : Caller} (running : Running s)
    (own : ∀ work own, c ≠ .writingBack work own) : Running (goTo id c s) := by
  refine {running with writingBack := fun other work own' found => ?_}
  change Function.update s.callers id c other = _ at found
  rw [Function.update_apply] at found
  split at found
  · exact absurd found (own work own')
  · exact running.writingBack other work own' found

theorem performsView {h : Half} {i : Index} (stores : List Store) {m n : Memory}
    (same : m.view = n.view) :
    (stores.foldl (perform h i) m).view = (stores.foldl (perform h i) n).view := by
  induction stores generalizing m n with
  | nil => exact same
  | cons st rest ih =>
    refine ih ?_
    cases st <;> simp [perform,CachedMemory.store,same]

theorem workingView {b : BootLog} {m n : Memory} {k : Critical} (working : Working b m k)
    (same : n.view = m.view) : Working b n k := by
  refine ⟨working.later,fun c stores found => ?_,working.own⟩
  obtain ⟨some,first,newest,shown⟩ := working.committing c stores found
  refine ⟨some,first,newest,?_⟩
  rwa [performsView stores same]

theorem workingEnter {b : BootLog} {m : Memory} (id : Nat) (commits : List Commit)
    (begun : b.begun = b.lines.length) :
    Working {b with lines := b.lines ++ commits} m
      ⟨id,none,commits,noteWritten commits,List.range' b.lines.length commits.length⟩ := by
  refine ⟨?_,nofun,b.lines.length,?_,?_,?_⟩
  · change (b.lines ++ commits).drop b.begun = commits
    rw [begun, List.drop_left]
  · change b.lines.length ≤ (b.lines ++ commits).length
    rw [List.length_append]
    omega
  · change List.range' _ _ = List.range' _ ((b.lines ++ commits).length - b.lines.length)
    rw [List.length_append, Nat.add_sub_cancel_left]
  · change noteWritten commits = noteWritten ((b.lines ++ commits).drop b.lines.length)
    rw [List.drop_left]

theorem workingStore {b : BootLog} {m : Memory} {k : Critical} {c : Commit} {st : Store}
    {rest : List Store} (working : Working b m k) (committing : k.committing = some (c,st :: rest))
    (more : rest ≠ []) :
    Working b (perform b.half (slotIndex c.seq) m st) {k with committing := some (c,rest)} := by
  obtain ⟨_,first,newest,shown⟩ := working.committing c _ committing
  refine ⟨working.later,fun d stores found => ?_,working.own⟩
  cases Option.some.inj found
  exact ⟨more,first,newest,shown⟩

theorem workingCheck {b : BootLog} {m n : Memory} {k : Critical} (working : Working b m k) :
    Working b n {k with committing := none} :=
  ⟨working.later,nofun,working.own⟩

theorem workingNext {b : BootLog} {m : Memory} {k : Critical} {c : Commit} {later : List Commit}
    (working : Working b m k) (next : k.later = c :: later) :
    b.lines[b.begun]? = some c ∧ b.begun < b.lines.length := by
  have head := congrArg List.head? (working.later.trans next)
  rw [List.head?_drop] at head
  exact ⟨head,(List.getElem?_eq_some_iff.mp head).1⟩

theorem workingBegin {b : BootLog} {m : Memory} {k : Critical} {c : Commit} {later : List Commit}
    (working : Working b m k) (next : k.later = c :: later) (id : m.view (.bootId b.half) = b.id) :
    Working {b with begun := b.begun + 1} m {k with committing := some (c,c.stores), later := later} := by
  refine ⟨?_,fun d stores found => ?_,working.own⟩
  · change b.lines.drop (b.begun + 1) = later
    rw [← List.drop_drop, working.later, next]
    rfl
  · cases Option.some.inj found
    refine ⟨?_,Nat.succ_pos _,(workingNext working next).1,storesShow c m id⟩
    exact List.append_ne_nil_of_right_ne_nil _ nofun

theorem workingLast {b : BootLog} {m : Memory} {k : Critical} (working : Working b m k)
    (begun : b.begun ≤ b.lines.length) (last : k.later = []) : b.begun = b.lines.length := by
  have := List.drop_eq_nil_iff.mp (working.later.trans last)
  omega

theorem runningEvict {s : Device} (running : Running s) (k : Line) :
    Running {s with memory := s.memory.writeBack line k} := by
  refine {running with working := ?_, header := ?_, writingBack := ?_, returned := ?_}
  · exact fun k' held => workingView (running.working k' held) rfl
  · obtain ⟨count,viewed,stored⟩ := running.header
    exact ⟨count,viewed,showsWriteBack k viewed stored⟩
  · intro id work own found n mem
    obtain ⟨done,has⟩ := running.writingBack id work own found n mem
    exact ⟨done,fun c at' free => showsButWriteBack k (running.viewed n done c at' free) (has c at' free)⟩
  · intro n mem
    obtain ⟨done,has⟩ := running.returned n mem
    exact ⟨done,fun c at' free => showsWriteBack k (running.viewed n done c at' free) (has c at' free)⟩

theorem runningWriteBack {s : Device} {id : Nat} {work : List Line} {own : List Nat}
    (running : Running s) (here : s.callers id = .writingBack work own) :
    Running (writeBackStep id work own s) := by
  cases work with
  | nil =>
    refine runningGoTo (s := {s with boot := {s.boot with returned := s.boot.returned ++ own}})
      {running with working := fun k held => ?_, returned := fun n mem => ?_} nofun
    · have working := running.working k held
      exact ⟨working.later,working.committing,working.own⟩
    rcases List.mem_append.mp mem with before | now
    · exact running.returned n before
    · obtain ⟨done,has⟩ := running.writingBack id [] own here n now
      exact ⟨done,fun c at' free => showsButNil (has c at' free)⟩
  | cons k work =>
    have evicted := runningEvict running k
    refine {evicted with writingBack := fun other work' own' found n mem => ?_}
    change Function.update s.callers id _ other = _ at found
    rw [Function.update_apply] at found
    split at found
    · cases found
      obtain ⟨done,has⟩ := running.writingBack id _ _ here n mem
      exact ⟨done,fun c at' free => showsButNext (running.viewed n done c at' free) (has c at' free)⟩
    · exact evicted.writingBack other work' own' found n mem

theorem olderLine {b : BootLog} {commits : List Commit} {k : Nat} {c : Commit}
    (old : k < b.lines.length) (found : (b.lines ++ commits)[k]? = some c) : b.lines[k]? = some c := by
  rwa [List.getElem?_append_left old] at found

/- A step that leaves the external memory and the older lines: slots are only taken and
lines only completed. -/
structure Grows (s t : Device) : Prop where
  half : t.boot.half = s.boot.half
  id : t.boot.id = s.boot.id
  ids : t.ids = s.ids
  stored : t.memory.stored = s.memory.stored
  returned : t.boot.returned = s.boot.returned
  complete : complete s ≤ complete t
  lines : ∀ k, k < LogRingRunning.complete s → t.boot.lines[k]? = s.boot.lines[k]?
  taken : ∀ k, Taken s.boot k → Taken t.boot k

theorem writingBackGrows {s t : Device} {work : List Line} {k : Nat} (grows : Grows s t)
    (has : k < complete s ∧ HasLineBut work s.boot k s.memory.stored) :
    k < complete t ∧ HasLineBut work t.boot k t.memory.stored := by
  refine ⟨Nat.lt_of_lt_of_le has.1 grows.complete,fun c found free => ?_⟩
  rw [grows.stored, grows.half, grows.id]
  exact has.2 c ((grows.lines k has.1).symm.trans found) (fun taken => free (grows.taken k taken))

theorem returnedGrows {s t : Device} (running : Running s) (grows : Grows s t) :
    ∀ k ∈ t.boot.returned, k < complete t ∧ HasLine t.boot k t.memory.stored := by
  intro k mem
  rw [grows.returned] at mem
  obtain ⟨done,has⟩ := running.returned k mem
  refine ⟨Nat.lt_of_lt_of_le done grows.complete,fun c found free => ?_⟩
  rw [grows.stored, grows.half, grows.id]
  exact has c ((grows.lines k done).symm.trans found) (fun taken => free (grows.taken k taken))

theorem committedGrows {s t : Device} (running : Running s) (grows : Grows s t) {i : UInt64} {c : Commit}
    (mem : (i,c) ∈ s.committed) :
    i ∈ t.ids ∧ (i = t.boot.id → ∃ k, k < complete t ∧ t.boot.lines[k]? = some c) := by
  obtain ⟨drawn,own⟩ := running.committed i c mem
  refine ⟨grows.ids ▸ drawn,fun same => ?_⟩
  obtain ⟨k,done,found⟩ := own (same.trans grows.id)
  exact ⟨k,Nat.lt_of_lt_of_le done grows.complete,(grows.lines k done).trans found⟩

theorem runningEnter {s : Device} {id : Nat} {call : Call} {nowMs : UInt32} (running : Running s)
    (free : s.lock = none) (few : (enter id call nowMs s).boot.lines.length < UInt32.size) :
    Running (enter id call nowMs s) := by
  obtain ⟨numbered,latest,cur,prev,prevLatest⟩ := executeCounts call nowMs running.latest
  have begun := running.unlocked free
  have whole : complete s = s.boot.lines.length := by
    unfold complete
    rw [free]
    exact begun
  unfold enter at few ⊢
  generalize execute call nowMs s.ram = done at numbered latest cur few ⊢
  obtain ⟨ram,commits⟩ := done
  dsimp only at numbered latest cur few ⊢
  refine runningGoTo ?_ nofun
  have grows : Grows s
      {s with ram := ram
              lock := some ⟨id,none,commits,noteWritten commits,
                List.range' s.boot.lines.length commits.length⟩
              boot := {s.boot with lines := s.boot.lines ++ commits}} :=
    ⟨rfl,rfl,rfl,rfl,rfl,Nat.le_of_eq (whole.trans begun.symm),
      fun k done => List.getElem?_append_left (whole ▸ done),fun _ taken => taken⟩
  refine ⟨cur.trans running.cur,?_,few,?_,?_,nofun,?_,running.header,?_,?_,?_,running.drawn,?_⟩
  · intro k c found
    by_cases old : k < s.boot.lines.length
    · exact running.numbered k c (olderLine old found)
    · change (s.boot.lines ++ commits)[k]? = some c at found
      rw [List.getElem?_append_right (Nat.le_of_not_lt old)] at found
      rw [numbered _ c found]
      exact congrArg UInt32.ofNat (by omega)
  · change ram.latest = UInt32.ofNat (s.boot.lines ++ commits).length
    rw [latest, List.length_append]
  · change s.boot.begun ≤ (s.boot.lines ++ commits).length
    rw [List.length_append]
    omega
  · intro k held
    cases Option.some.inj held
    exact workingEnter id commits begun
  · intro k done c found
    have old : k < s.boot.lines.length := Nat.lt_of_lt_of_le done (Nat.le_of_eq begun)
    exact running.viewed k (whole.symm ▸ old) c (olderLine old found)
  · exact fun other work own found k mem => writingBackGrows grows (running.writingBack other work own found k mem)
  · exact returnedGrows running grows
  · exact fun i c mem => committedGrows running grows mem

theorem headerPerform {g h : Half} {i : Index} {count : UInt32} {bootId : UInt64} {m : Memory}
    (st : Store) (shown : Shows (header g count bootId) m.view) :
    Shows (header g count bootId) (perform h i m st).view := by
  intro l v want
  refine (performOther m st (fun inside => ?_)).trans (shown l v want)
  unfold inSlot at inside
  split at inside <;> contradiction

theorem olderPerform {b : BootLog} {c : Commit} {k : Nat} {m : Memory} (numbered : Numbered 0 b.lines)
    (st : Store) (newest : b.lines[b.begun - 1]? = some c) (older : k < b.begun - 1)
    (has : HasLine b k m.view) : HasLine b k (perform b.half (slotIndex c.seq) m st).view := by
  intro d found free
  refine showsPerform st (has d found free) ?_
  rw [numbered k d found, numbered _ c newest, Nat.zero_add, Nat.zero_add]
  unfold Taken at free
  exact slotIndexApart older (by omega)

theorem completeCommitting {s : Device} {k : Critical} {c : Commit} {stores : List Store}
    (locked : s.lock = some k) (committing : k.committing = some (c,stores)) :
    complete s = s.boot.begun - 1 := by
  unfold complete
  rw [locked]
  dsimp only
  rw [committing]
  rfl

theorem completeBetween {s : Device} {k : Critical} (locked : s.lock = some k)
    (committing : k.committing = none) : complete s = s.boot.begun := by
  unfold complete
  rw [locked]
  dsimp only
  rw [committing]
  rfl

theorem runningStore {s : Device} {k : Critical} {c : Commit} {st : Store} {rest : List Store}
    (running : Running s) (locked : s.lock = some k) (committing : k.committing = some (c,st :: rest))
    (more : rest ≠ []) :
    Running {s with memory := perform s.boot.half (slotIndex c.seq) s.memory st
                    lock := some {k with committing := some (c,rest)}} := by
  have working := running.working k locked
  obtain ⟨_,_,newest,_⟩ := working.committing c _ committing
  have before := completeCommitting locked committing
  have stays : complete {s with memory := perform s.boot.half (slotIndex c.seq) s.memory st
                                lock := some {k with committing := some (c,rest)}} = complete s := by
    rw [before]
    rfl
  have stored := performStored s.boot.half (slotIndex c.seq) s.memory st
  have grows : Grows s {s with memory := perform s.boot.half (slotIndex c.seq) s.memory st
                               lock := some {k with committing := some (c,rest)}} :=
    ⟨rfl,rfl,rfl,stored,rfl,Nat.le_of_eq stays.symm,fun _ _ => rfl,fun _ taken => taken⟩
  refine ⟨running.cur,running.numbered,running.few,running.latest,running.begun,nofun,?_,?_,?_,?_,?_,
    running.drawn,?_⟩
  · intro k' held
    cases Option.some.inj held
    exact workingStore working committing more
  · obtain ⟨count,viewed,kept⟩ := running.header
    refine ⟨count,headerPerform st viewed,?_⟩
    rwa [stored]
  · intro n done
    rw [stays] at done
    exact olderPerform running.numbered st newest (before ▸ done) (running.viewed n done)
  · exact fun id work own found n mem => writingBackGrows grows (running.writingBack id work own found n mem)
  · exact returnedGrows running grows
  · exact fun i d mem => committedGrows running grows mem

theorem runningCheck {s : Device} {k : Critical} {c : Commit} {st : Store} (running : Running s)
    (locked : s.lock = some k) (committing : k.committing = some (c,[st])) :
    Running {s with memory := perform s.boot.half (slotIndex c.seq) s.memory st
                    lock := some {k with committing := none}
                    committed := (s.boot.id,c) :: s.committed} := by
  have working := running.working k locked
  obtain ⟨_,first,newest,shown⟩ := working.committing c _ committing
  have before := completeCommitting locked committing
  have stored := performStored s.boot.half (slotIndex c.seq) s.memory st
  have grows : Grows s {s with memory := perform s.boot.half (slotIndex c.seq) s.memory st
                               lock := some {k with committing := none}
                               committed := (s.boot.id,c) :: s.committed} :=
    ⟨rfl,rfl,rfl,stored,rfl,completeBegun s,fun _ _ => rfl,fun _ taken => taken⟩
  refine ⟨running.cur,running.numbered,running.few,running.latest,running.begun,nofun,?_,?_,?_,?_,?_,
    running.drawn,?_⟩
  · intro k' held
    cases Option.some.inj held
    exact workingCheck working
  · obtain ⟨count,viewed,kept⟩ := running.header
    refine ⟨count,headerPerform st viewed,?_⟩
    rwa [stored]
  · intro n done
    change n < s.boot.begun at done
    by_cases older : n < s.boot.begun - 1
    · exact olderPerform running.numbered st newest older (running.viewed n (before ▸ older))
    · intro d found _
      have same : n = s.boot.begun - 1 := by omega
      subst same
      cases Option.some.inj (found.symm.trans newest)
      exact shown
  · exact fun id work own found n mem => writingBackGrows grows (running.writingBack id work own found n mem)
  · exact returnedGrows running grows
  · intro i d mem
    rcases List.mem_cons.mp mem with now | earlier
    · cases now
      exact ⟨running.drawn,fun _ => ⟨s.boot.begun - 1,Nat.sub_lt first Nat.one_pos,newest⟩⟩
    · exact committedGrows running grows earlier

theorem runningBegin {s : Device} {k : Critical} {c : Commit} {later : List Commit}
    (running : Running s) (locked : s.lock = some k) (between : k.committing = none)
    (next : k.later = c :: later) :
    Running {s with lock := some {k with committing := some (c,c.stores), later := later}
                    boot := {s.boot with begun := s.boot.begun + 1}} := by
  have working := running.working k locked
  have before := completeBetween locked between
  have inside := (workingNext working next).2
  have grows : Grows s {s with lock := some {k with committing := some (c,c.stores), later := later}
                               boot := {s.boot with begun := s.boot.begun + 1}} :=
    ⟨rfl,rfl,rfl,rfl,rfl,Nat.le_of_eq before,fun _ _ => rfl,fun _ taken => Nat.lt_succ_of_lt taken⟩
  obtain ⟨count,viewed,kept⟩ := running.header
  refine ⟨running.cur,running.numbered,running.few,running.latest,inside,nofun,?_,⟨count,viewed,kept⟩,
    ?_,?_,?_,running.drawn,?_⟩
  · intro k' held
    cases Option.some.inj held
    exact workingBegin working next (viewed (.bootId s.boot.half) _ (if_pos rfl))
  · intro n done d found free
    exact running.viewed n (before ▸ done) d found (fun taken => free (grows.taken n taken))
  · exact fun id work own found n mem => writingBackGrows grows (running.writingBack id work own found n mem)
  · exact returnedGrows running grows
  · exact fun i d mem => committedGrows running grows mem

theorem runningRelease {s : Device} {k : Critical} (running : Running s) (locked : s.lock = some k)
    (between : k.committing = none) (last : k.later = []) :
    Running (goTo k.caller (.writingBack (writeBackLines s.boot.half k.written.1 k.written.2) k.own)
      {s with lock := none}) := by
  have working := running.working k locked
  have before := completeBetween locked between
  have all := workingLast working running.begun last
  obtain ⟨start,within,own,written⟩ := working.own
  have grows : Grows s (goTo k.caller
      (.writingBack (writeBackLines s.boot.half k.written.1 k.written.2) k.own) {s with lock := none}) :=
    ⟨rfl,rfl,rfl,rfl,rfl,Nat.le_of_eq before,fun _ _ => rfl,fun _ taken => taken⟩
  refine ⟨running.cur,running.numbered,running.few,running.latest,running.begun,fun _ => all,nofun,
    running.header,?_,?_,?_,running.drawn,?_⟩
  · exact fun n done => running.viewed n (before ▸ done)
  · intro id work own' found n mem
    change Function.update s.callers k.caller _ id = _ at found
    rw [Function.update_apply] at found
    split at found
    · cases found
      rw [own] at mem
      have range := List.mem_range'_1.mp mem
      refine ⟨show n < s.boot.begun by omega,fun d line _ => showsButAll (fun l v want => ?_)⟩
      rw [written]
      have numbered : Numbered start (s.boot.lines.drop start) := by
        intro j e found
        rw [List.getElem?_drop] at found
        rw [running.numbered _ e found]
        exact congrArg UInt32.ofNat (by omega)
      have few := running.few
      have length : (s.boot.lines.drop start).length = s.boot.lines.length - start := List.length_drop
      refine writeBackCovers (k := n - start) numbered (by omega) (by omega) _ ?_
      have place : UInt32.ofNat (start + (n - start) + 1) = d.seq := by
        rw [running.numbered n d line]
        exact congrArg UInt32.ofNat (by omega)
      rw [place]
      exact inSlotLine (wantedInSlot want)
    · exact writingBackGrows grows (running.writingBack id work own' found n mem)
  · exact returnedGrows running grows
  · exact fun i d mem => committedGrows running grows mem

theorem runningProceed {s : Device} {k : Critical} (running : Running s) (locked : s.lock = some k) :
    Running (sectionStep s.boot.half k s) := by
  unfold sectionStep
  split
  · rename_i c st rest committing
    dsimp only
    split
    · rename_i done
      subst done
      exact runningCheck running locked committing
    · rename_i more
      exact runningStore running locked committing more
  · rename_i c committing
    obtain ⟨some,_⟩ := (running.working k locked).committing c [] committing
    exact absurd rfl some
  · rename_i between
    split
    · rename_i c later next
      exact runningBegin running locked between next
    · rename_i last
      exact runningRelease running locked between last

end EpskcCommissioner.LogRingRunning
