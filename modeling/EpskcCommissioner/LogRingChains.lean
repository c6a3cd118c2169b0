import EpskcCommissioner.LogRingRecovery

/-! Chains of boots, built from calls that have the device to themselves: such a call
returns, and what it leaves is known exactly. A boot that logs one line after another
fills its half; the boot after finds there what the check accepts. -/
namespace EpskcCommissioner.LogRingChains
open LogText LogRing LogRingDevice LogRingSlots LogRingNumbers LogRingRunning LogRingInit LogRingRecovery
  CachedMemory

variable {good : Device → Label → Prop}

/- A condition on nothing but the taking of the lock and `log_ring_init`. -/
def Lets (good : Device → Label → Prop) : Prop :=
  ∀ s l, (∀ id, l ≠ .enter id) → (∀ bootId, l ≠ .init bootId) → good s l

theorem letsWeaken {weaker : Device → Label → Prop} (lets : Lets good)
    (all : ∀ s l, good s l → weaker s l) : Lets weaker :=
  fun s l notEnter notInit => all s l (lets s l notEnter notInit)

theorem goToTwice (id : Nat) (c d : Caller) (s : Device) : goTo id c (goTo id d s) = goTo id c s := by
  unfold goTo
  dsimp only
  rw [Function.update_idem]

theorem goToSame {id : Nat} {c : Caller} {s : Device} (here : s.callers id = c) : goTo id c s = s := by
  unfold goTo
  rw [← here, Function.update_eq_self]

theorem goToHere (id : Nat) (c : Caller) (s : Device) : (goTo id c s).callers id = c :=
  Function.update_self ..

theorem proceeds {s : Device} {h : Half} {k : Critical} (lets : Lets good)
    (reached : device.Under good s) (cur : s.ram.cur = some h) (locked : s.lock = some k) :
    device.Under good (sectionStep h k s) := by
  refine .next reached (lets s .proceed nofun nofun) ?_
  change step s .proceed = _
  unfold step
  dsimp only
  rw [cur, locked]

theorem storesRun {s : Device} {h : Half} {k : Critical} {c : Commit} (lets : Lets good)
    (stores : List Store) (reached : device.Under good s) (cur : s.ram.cur = some h)
    (more : stores ≠ []) (locked : s.lock = some {k with committing := some (c,stores)}) :
    device.Under good
      {s with memory := stores.foldl (perform h (slotIndex c.seq)) s.memory
              lock := some {k with committing := none}
              committed := (s.boot.id,c) :: s.committed} := by
  induction stores generalizing s with
  | nil => contradiction
  | cons st rest ih =>
    have next := proceeds lets reached cur locked
    by_cases last : rest = []
    · subst last
      exact next
    · have stored : sectionStep h {k with committing := some (c,st :: rest)} s =
          {s with memory := perform h (slotIndex c.seq) s.memory st
                  lock := some {k with committing := some (c,rest)}} := if_neg last
      rw [stored] at next
      exact ih next cur last rfl

def commitTo (h : Half) (m : Memory) (c : Commit) : Memory :=
  c.stores.foldl (perform h (slotIndex c.seq)) m

theorem linesRun {s : Device} {h : Half} {k : Critical} (lets : Lets good) (commits : List Commit)
    (reached : device.Under good s) (cur : s.ram.cur = some h)
    (locked : s.lock = some {k with committing := none, later := commits}) :
    device.Under good
      {s with memory := commits.foldl (commitTo h) s.memory
              lock := some {k with committing := none, later := []}
              boot := {s.boot with begun := s.boot.begun + commits.length}
              committed := commits.foldl (fun done c => (s.boot.id,c) :: done) s.committed} := by
  induction commits generalizing s with
  | nil =>
    rw [← locked]
    exact reached
  | cons c later ih =>
    have begun := proceeds lets reached cur locked
    have some : c.stores ≠ [] := List.append_ne_nil_of_right_ne_nil _ nofun
    have stored := storesRun (k := {k with later := later}) lets c.stores begun cur some rfl
    have done := ih stored cur rfl
    rw [List.length_cons, Nat.add_comm later.length, ← Nat.add_assoc]
    exact done

theorem pushes {s : Device} {id : Nat} {work : List Line} {own : List Nat} (lets : Lets good)
    (reached : device.Under good (goTo id (.writingBack work own) s)) :
    device.Under good (writeBackStep id work own (goTo id (.writingBack work own) s)) := by
  refine .next reached (lets _ (.writeBack id) nofun nofun) ?_
  change step _ (.writeBack id) = _
  unfold step
  dsimp only
  rw [goToHere]

theorem pushesRun {s : Device} {id : Nat} {own : List Nat} (lets : Lets good) (work : List Line)
    (reached : device.Under good (goTo id (.writingBack work own) s)) :
    device.Under good
      (goTo id .idle
        {s with memory := s.memory.writeBackAll line work
                boot := {s.boot with returned := s.boot.returned ++ own}}) := by
  have next := pushes lets reached
  induction work generalizing s with
  | nil =>
    change device.Under good (goTo id .idle (goTo id (.writingBack [] own)
      {s with boot := {s.boot with returned := s.boot.returned ++ own}})) at next
    rwa [goToTwice] at next
  | cons k work ih =>
    change device.Under good (goTo id (.writingBack work own) (goTo id (.writingBack (k :: work) own)
      {s with memory := s.memory.writeBack line k})) at next
    rw [goToTwice] at next
    exact ih next (pushes lets next)

theorem enterDone {s : Device} {id : Nat} {call : Call} {nowMs : UInt32} {ram : Ram}
    {commits : List Commit} (c : Caller) (done : execute call nowMs s.ram = (ram,commits)) :
    enter id call nowMs (goTo id c s) = goTo id .locked
      {s with ram := ram
              lock := some ⟨id,none,commits,noteWritten commits,
                List.range' s.boot.lines.length commits.length⟩
              boot := {s.boot with lines := s.boot.lines ++ commits}} := by
  unfold enter goTo
  dsimp only
  rw [done]
  dsimp only
  rw [Function.update_idem]

def afterCall (h : Half) (ram : Ram) (commits : List Commit) (s : Device) : Device :=
  let written := noteWritten commits
  {s with ram := ram
          memory := (commits.foldl (commitTo h) s.memory).writeBackAll line
            (writeBackLines h written.1 written.2)
          boot := {s.boot with
            lines := s.boot.lines ++ commits
            begun := s.boot.begun + commits.length
            returned := s.boot.returned ++ List.range' s.boot.lines.length commits.length}
          committed := commits.foldl (fun done c => (s.boot.id,c) :: done) s.committed}

theorem callReturns {s : Device} {h : Half} {ram : Ram} {commits : List Commit} (id : Nat) (call : Call)
    (nowMs : UInt32) (lets : Lets good) (reached : device.Under good s) (cur : s.ram.cur = some h)
    (idle : s.callers id = .idle) (free : s.lock = none)
    (may : good (goTo id (.entering call nowMs) s) (.enter id))
    (done : execute call nowMs s.ram = (ram,commits)) (stays : ram.cur = some h) :
    device.Under good (afterCall h ram commits s) := by
  have called : device.Under good (goTo id (.entering call nowMs) s) := by
    refine .next reached (lets s (.call id call nowMs) nofun nofun) ?_
    exact if_pos ⟨idle,by rw [cur]; rfl⟩
  have entered : device.Under good (enter id call nowMs (goTo id (.entering call nowMs) s)) := by
    refine .next called may ?_
    change step _ (.enter id) = _
    unfold step
    dsimp only
    rw [goToHere, show (goTo id (.entering call nowMs) s).lock = none from free]
  rw [enterDone _ done] at entered
  have lines := linesRun (k := ⟨id,none,commits,noteWritten commits,
    List.range' s.boot.lines.length commits.length⟩) lets commits entered stays rfl
  have released := proceeds lets lines stays rfl
  have returned := pushesRun lets _ released
  have still : goTo id .idle (goTo id .locked (afterCall h ram commits s)) = afterCall h ram commits s :=
    (goToTwice ..).trans (goToSame idle)
  rw [← still]
  have unlocked : afterCall h ram commits s = {afterCall h ram commits s with lock := none} := by
    unfold afterCall
    rw [free]
  rw [unlocked]
  exact returned

structure Quiet (s : Device) : Prop where
  callers : ∀ id, s.callers id = .idle
  lock : s.lock = none
  cur : s.ram.cur = some s.boot.half
  latest : s.ram.latest = UInt32.ofNat s.boot.lines.length
  numbered : Numbered 0 s.boot.lines
  begun : s.boot.begun = s.boot.lines.length
  returned : ∀ k < s.boot.lines.length, k ∈ s.boot.returned
  header : ∃ count, Shows (header s.boot.half count s.boot.id) s.memory.view ∧
    Shows (header s.boot.half count s.boot.id) s.memory.stored

theorem quietInit {s : Device} {bootId : UInt64} (callers : ∀ id, s.callers id = .idle)
    (lock : s.lock = none) : Quiet (init bootId s) := by
  obtain ⟨cur,latest⟩ := initRamCur s.memory s.ram
  exact ⟨callers,lock,cur,latest,nofun,rfl,nofun,_,initHeader s.memory bootId⟩

/- `log_ring_line` with no text commits a line with no text. -/
def emptyLine (ram : Ram) : Commit := ⟨ram.latest + 1,0,none,[]⟩

def logLine (s : Device) : Device :=
  afterCall s.boot.half {s.ram with latest := s.ram.latest + 1, lastMs := 0} [emptyLine s.ram] s

theorem emptyLineDone {ram : Ram} {h : Half} (cur : ram.cur = some h) :
    execute (.logRingLine []) 0 ram =
      ({ram with latest := ram.latest + 1, lastMs := 0},[emptyLine ram]) := by
  have runs : ¬ram.cur.isNone = true := by
    rw [cur]
    exact Bool.false_ne_true
  exact if_neg runs

theorem performsStored {h : Half} {i : Index} (stores : List Store) (m : Memory) :
    (stores.foldl (perform h i) m).stored = m.stored := by
  induction stores generalizing m with
  | nil => rfl
  | cons st rest ih => exact (ih _).trans (performStored h i m st)

theorem performsHeader {g h : Half} {i : Index} {count : UInt32} {bootId : UInt64} (stores : List Store)
    (m : Memory) (shown : Shows (header g count bootId) m.view) :
    Shows (header g count bootId) (stores.foldl (perform h i) m).view := by
  induction stores generalizing m with
  | nil => exact shown
  | cons st rest ih => exact ih _ (headerPerform st shown)

theorem quietLine {s : Device} (quiet : Quiet s) : Quiet (logLine s) := by
  have seq : (emptyLine s.ram).seq = UInt32.ofNat (s.boot.lines.length + 1) := by
    change s.ram.latest + 1 = _
    rw [quiet.latest]
    exact (UInt32.ofNat_add s.boot.lines.length 1).symm
  have length : (logLine s).boot.lines.length = s.boot.lines.length + 1 := List.length_append
  refine ⟨quiet.callers,quiet.lock,quiet.cur,?_,?_,?_,?_,?_⟩
  · rw [length]
    exact seq
  · intro k c found
    change (s.boot.lines ++ [_])[k]? = some c at found
    by_cases old : k < s.boot.lines.length
    · exact quiet.numbered k c (olderLine old found)
    · have last : k = s.boot.lines.length := by
        obtain ⟨within,_⟩ := List.getElem?_eq_some_iff.mp found
        rw [List.length_append] at within
        exact Nat.le_antisymm (Nat.lt_succ_iff.mp within) (Nat.le_of_not_lt old)
      subst last
      rw [List.getElem?_concat_length] at found
      rw [← Option.some.inj found, Nat.zero_add]
      exact seq
  · rw [length]
    exact congrArg (· + 1) quiet.begun
  · intro k own
    rw [length] at own
    refine List.mem_append.mpr ?_
    rcases Nat.lt_succ_iff_lt_or_eq.mp own with older | newest
    · exact .inl (quiet.returned k older)
    · exact .inr (List.mem_singleton.mpr newest)
  · obtain ⟨count,viewed,stored⟩ := quiet.header
    have after := performsHeader (h := s.boot.half) (i := slotIndex (emptyLine s.ram).seq)
      (emptyLine s.ram).stores s.memory viewed
    refine ⟨count,?_,?_⟩
    · change Shows _ (CachedMemory.writeBackAll ..).view
      rw [writeBackAllView]
      exact after
    · refine showsWriteBackAll _ _ after (fun l v want => .inr ?_)
      exact (congrFun (performsStored _ s.memory) l).trans (stored l v want)

/- Every slot in the external memory is empty, or is in this half and has a line that was
committed under this ID. -/
def Slotted (h : Half) (bootId : UInt64) (s : Device) : Prop :=
  ∀ g i, (slotAt s.memory.stored g i).seq = 0 ∨
    g = h ∧ ∃ c, (bootId,c) ∈ s.committed ∧ Holds (slotAt s.memory.stored g i) c

theorem emptyInvalid {s : Slot} {bootId : UInt64} (empty : s.seq = 0) : ¬slotValid s bootId = true := by
  unfold slotValid
  rw [empty]
  exact Bool.false_ne_true

theorem slottedInit {s : Device} {h : Half} {bootId : UInt64} (next : UInt64) (slotted : Slotted h bootId s) :
    Slotted h bootId (init next s) := by
  intro g i
  have same : slotAt (init next s).memory.stored g i = slotAt s.memory.stored g i := by
    refine slotSame (fun l inside => ?_)
    obtain ⟨part,own⟩ := inSlotPart inside
    exact initStored _ _ (own ▸ nofun) (own ▸ nofun)
  rw [same]
  exact slotted g i

theorem slottedChecks {s : Device} {h : Half} {bootId : UInt64} (slotted : Slotted h bootId s)
    (known : s.memory.stored (.bootId h) = bootId) : ChecksOut (crash s) := by
  intro g i valid
  rcases slotted g i with empty | ⟨same,c,committed,holds⟩
  · exact absurd valid (emptyInvalid empty)
  · subst same
    refine ⟨c,?_,holds⟩
    change (s.memory.stored (.bootId g),c) ∈ s.committed
    rwa [known]

theorem writeBackOne {h : Half} {seq : UInt32} (numbered : seq ≠ 0) :
    writeBackLines h seq seq = slotLines h (slotIndex seq) := by
  unfold writeBackLines
  rw [if_neg numbered, UInt32.sub_self, if_neg (by decide)]
  change slotLines h (slotIndex (seq + 0)) ++ [] = _
  rw [UInt32.add_zero, List.append_nil]

theorem slottedLine {s : Device} (quiet : Quiet s) (slotted : Slotted s.boot.half s.boot.id s) :
    Slotted s.boot.half s.boot.id (logLine s) := by
  intro g i
  have memory : (logLine s).memory = (commitTo s.boot.half s.memory (emptyLine s.ram)).writeBackAll line
      (writeBackLines s.boot.half (emptyLine s.ram).seq (emptyLine s.ram).seq) := rfl
  have committed : (logLine s).committed = (s.boot.id,emptyLine s.ram) :: s.committed := rfl
  rw [memory, committed]
  by_cases own : (g = s.boot.half ∧ i = slotIndex (emptyLine s.ram).seq) ∧ (emptyLine s.ram).seq ≠ 0
  · obtain ⟨⟨rfl,rfl⟩,numbered⟩ := own
    obtain ⟨count,viewed,_⟩ := quiet.header
    have shown := storesShow (emptyLine s.ram) s.memory (viewed (.bootId s.boot.half) _ (if_pos rfl))
    rw [writeBackOne numbered]
    have every : ∀ l v, wanted s.boot.half s.boot.id (emptyLine s.ram) l = some v →
        line l ∈ slotLines s.boot.half (slotIndex (emptyLine s.ram).seq) :=
      fun l v want => inSlotLine (wantedInSlot want)
    have stored := showsWriteBackAll _ (commitTo s.boot.half s.memory (emptyLine s.ram)) shown
      (showsButAll every)
    exact .inr ⟨rfl,_,List.mem_cons_self,(shownHolds stored).1⟩
  · have same : slotAt ((commitTo s.boot.half s.memory (emptyLine s.ram)).writeBackAll line
        (writeBackLines s.boot.half (emptyLine s.ram).seq (emptyLine s.ram).seq)).stored g i =
        slotAt s.memory.stored g i := by
      refine slotSame (fun l inside => ?_)
      refine (writeBackAllOther _ _ (fun mem => ?_)).trans (congrFun (performsStored _ s.memory) l)
      by_cases numbered : (emptyLine s.ram).seq = 0
      · rw [numbered] at mem
        exact absurd mem List.not_mem_nil
      · rw [writeBackOne numbered] at mem
        exact own ⟨slotLinesOwn inside mem,numbered⟩
    rw [same]
    exact (slotted g i).imp_right (fun ⟨half,c,mem,holds⟩ => ⟨half,c,List.mem_cons_of_mem _ mem,holds⟩)

def blank : Cells
  | .magic | .layout | .bootCount | .active => 0
  | .halfMagic _ | .halfBootCount _ | .bootId _ => 0
  | .seq _ _ | .uptimeMs _ _ | .check _ _ => 0
  | .text _ _ _ => 0

/- The first boot after power on has logged `n` lines, one after another. -/
structure Logged (good : Device → Label → Prop) (n : Nat) (s : Device) : Prop where
  reached : device.Under good s
  quiet : Quiet s
  slotted : Slotted s.boot.half s.boot.id s
  id : s.boot.id = 7
  length : s.boot.lines.length = n
  ids : s.ids = [7]
  committed : ∀ i c, (i,c) ∈ s.committed → c ∈ s.boot.lines

theorem blankChecks : ChecksOut (powerOn blank) :=
  fun _ _ valid => absurd valid (emptyInvalid rfl)

theorem loggedNone (first : good (powerOn blank) (.init 7)) :
    Logged good 0 (init 7 (powerOn blank)) := by
  refine ⟨.next (.start ⟨blank,rfl⟩) first rfl,quietInit (fun _ => rfl) rfl,?_,rfl,rfl,rfl,nofun⟩
  exact slottedInit 7 (fun _ _ => .inl rfl)

theorem loggedLine {n : Nat} {s : Device} (lets : Lets good) (logged : Logged good n s)
    (may : good (goTo 0 (.entering (.logRingLine []) 0) s) (.enter 0)) :
    Logged good (n + 1) (logLine s) := by
  obtain ⟨reached,quiet,slotted,id,length,ids,committed⟩ := logged
  have slots : Slotted s.boot.half s.boot.id (logLine s) := slottedLine quiet slotted
  refine ⟨?_,quietLine quiet,slots,id,?_,ids,?_⟩
  · exact callReturns 0 (.logRingLine []) 0 lets reached quiet.cur (quiet.callers 0) quiet.lock may
      (emptyLineDone quiet.cur) quiet.cur
  · rw [← length]
    exact List.length_append
  · intro i c mem
    refine List.mem_append.mpr ?_
    rcases List.mem_cons.mp mem with now | earlier
    · exact .inr (List.mem_singleton.mpr (Prod.mk.inj now).2)
    · exact .inl (committed i c earlier)

theorem loggedLines (lets : Lets good) (first : good (powerOn blank) (.init 7)) (n : Nat)
    (may : ∀ s, s.boot.lines.length < n → good (goTo 0 (.entering (.logRingLine []) 0) s) (.enter 0)) :
    ∃ s, Logged good n s := by
  induction n with
  | zero => exact ⟨_,loggedNone first⟩
  | succ n ih =>
    obtain ⟨s,logged⟩ := ih (fun s few => may s (Nat.lt_succ_of_lt few))
    exact ⟨_,loggedLine lets logged (may s (logged.length ▸ Nat.lt_succ_self n))⟩

/- A crash and the next `log_ring_init`. -/
def reboot (bootId : UInt64) (s : Device) : Device := init bootId (crash s)

theorem rebootReached {s : Device} (bootId : UInt64) (lets : Lets good) (reached : device.Under good s)
    (quiet : Quiet s) (may : good (crash s) (.init bootId)) : device.Under good (reboot bootId s) := by
  have runs : s.ram.cur.isSome = true := by
    rw [quiet.cur]
    rfl
  have crashed : device.Under good (crash s) :=
    .next reached (lets s .crash nofun nofun) (if_pos runs)
  exact .next crashed may rfl

/- The first `log_ring_init` finds a header that it does not trust. -/
def Untrusted (s : Device) : Label → Prop
  | .init _ => s.ids = [] → trusted s.memory.view = false
  | _ => True

def Whole (s : Device) (l : Label) : Prop := Untrusted s l ∧ Trusted s l

theorem letsWhole : Lets Whole := by
  intro s l notEnter notInit
  cases l with
  | enter id => exact absurd rfl (notEnter id)
  | init bootId => exact absurd rfl (notInit bootId)
  | _ => exact ⟨trivial,trivial,trivial,trivial⟩

theorem fewLine {s : Device} (few : s.boot.lines.length + 1 < UInt32.size) :
    Few (goTo 0 (.entering (.logRingLine []) 0) s) (.enter 0) := by
  intro t stepped
  unfold step at stepped
  dsimp only at stepped
  rw [goToHere] at stepped
  split at stepped <;> try contradiction
  rename_i entering _
  cases entering
  rw [← Option.some.inj stepped]
  change (s.boot.lines ++ (logRingLine 0 [] s.ram).2).length < UInt32.size
  unfold logRingLine
  split
  · rw [List.append_nil]
    exact Nat.lt_of_succ_lt few
  · rw [List.length_append]
    exact few

theorem initRuns (bootId : UInt64) (s : Device) : (init bootId s).ram.cur.isSome := rfl

theorem loggedChecks {n : Nat} {s : Device} (logged : Logged good n s) : ChecksOut (crash s) := by
  obtain ⟨count,_,stored⟩ := logged.quiet.header
  exact slottedChecks logged.slotted (stored (.bootId s.boot.half) _ (if_pos rfl))

theorem loggedFresh {n : Nat} {s : Device} (logged : Logged good n s) : 8 ∉ (crash s).ids := by
  change 8 ∉ s.ids
  rw [logged.ids]
  decide

def oneLine : Device := logLine (init 7 (powerOn blank))

theorem oneLineLogged : Logged Whole 1 oneLine := by
  have none : Logged Whole 0 (init 7 (powerOn blank)) := loggedNone ⟨fun _ => rfl,blankChecks,nofun,trivial⟩
  exact loggedLine letsWhole none ⟨trivial,trivial,trivial,fewLine (by decide : 1 < UInt32.size)⟩

theorem oneLineStored {s : Device} {c : Commit} (logged : Logged Whole 1 s)
    (lines : s.boot.lines = [c]) : Shows (wanted s.boot.half s.boot.id c) s.memory.stored := by
  have quiet := logged.quiet
  have length := logged.length
  have reached : device.Under Trusted s := underWeaken (fun _ _ both => both.2) logged.reached
  rcases sound reached with ⟨running,_⟩ | off
  · obtain ⟨_,has⟩ := running.returned 0 (quiet.returned 0 (by omega))
    refine has c (by rw [lines]; rfl) (fun taken => ?_)
    unfold Taken at taken
    rw [quiet.begun] at taken
    omega
  · have cur := quiet.cur
    rw [off.ram] at cur
    contradiction

theorem quietReboot (bootId : UInt64) (s : Device) : Quiet (reboot bootId s) :=
  quietInit (fun _ => rfl) rfl

theorem rebootHalf {s : Device} (quiet : Quiet s) (next : UInt64) :
    trusted s.memory.stored = true ∧ halfOf (s.memory.stored .active) = s.boot.half ∧
    s.boot.half ≠ (reboot next s).boot.half := by
  obtain ⟨count,_,stored⟩ := quiet.header
  obtain ⟨trust,half⟩ := headerTrusted stored
  refine ⟨trust,half,?_⟩
  have apart := initApart (m := (crash s).memory) trust
  exact half ▸ apart

theorem halfAgain : ∀ {a b c : Half}, a ≠ b → b ≠ c → c = a := by decide

theorem rebootTwice {s : Device} (quiet : Quiet s) (next after : UInt64) :
    (reboot next s).memory.stored (.bootId s.boot.half) = s.boot.id ∧
    (reboot after (reboot next s)).boot.half = s.boot.half := by
  obtain ⟨_,_,apart⟩ := rebootHalf quiet next
  obtain ⟨_,_,again⟩ := rebootHalf (quietReboot next s) after
  obtain ⟨count,_,stored⟩ := quiet.header
  have kept := initStored (l := .bootId s.boot.half) (crash s).memory next nofun
    (fun same => apart (Line.half.inj same))
  exact ⟨kept.trans (stored (.bootId s.boot.half) _ (if_pos rfl)),halfAgain apart again⟩

theorem showsReboot {s : Device} {h : Half} {bootId : UInt64} {c : Commit} (next : UInt64)
    (shown : Shows (wanted h bootId c) s.memory.stored) :
    Shows (wanted h bootId c) (reboot next s).memory.stored := by
  intro l v want
  obtain ⟨part,own⟩ := inSlotPart (wantedInSlot want)
  exact (initStored (crash s).memory next (own ▸ nofun) (own ▸ nofun)).trans (shown l v want)

theorem previousGiven {s : Device} {c : Commit} (quiet : Quiet s)
    (slotted : Slotted s.boot.half s.boot.id s)
    (alone : ∀ d, (s.boot.id,d) ∈ s.committed → d.seq = c.seq)
    (shown : Shows (wanted s.boot.half s.boot.id c) s.memory.stored) (numbered : c.seq ≠ 0)
    (next : UInt64) :
    ∃ out, logRingGet .previous c.seq (reboot next s).memory.view (reboot next s).ram = some out := by
  obtain ⟨trust,half,apart⟩ := rebootHalf quiet next
  obtain ⟨count,_,stored⟩ := quiet.header
  have id : s.memory.stored (.bootId s.boot.half) = s.boot.id := stored (.bootId s.boot.half) _ (if_pos rfl)
  obtain ⟨prev,prevLatest⟩ := initRamTrusted (m := (crash s).memory) (crash s).ram trust
  change _ = some (halfOf (s.memory.stored .active)) at prev
  change _ = (scan (halfOf (s.memory.stored .active)) s.memory.stored).1 at prevLatest
  rw [half] at prev prevLatest
  have valid : accepted s.boot.half s.memory.stored (slotIndex c.seq) := by
    unfold accepted
    rw [id]
    exact shownValid shown numbered
  obtain ⟨holds,_⟩ := shownHolds shown
  have latest : (scan s.boot.half s.memory.stored).1 = c.seq := by
    obtain ⟨bounds,source⟩ := scanAll s.boot.half s.memory.stored
    have reached := bounds _ valid
    rw [holds.seq] at reached
    rcases source with zero | ⟨i,other,highest⟩
    · rw [zero] at reached
      have low := UInt32.le_iff_toNat_le.mp reached
      exact absurd (UInt32.toNat_inj.mp (Nat.le_zero.mp low)) numbered
    · rcases slotted s.boot.half i with empty | ⟨_,d,committed,own⟩
      · exact absurd other (emptyInvalid empty)
      · exact highest.trans (own.seq.trans (alone d committed))
  obtain ⟨slots,ids⟩ := initKeeps (crash s).memory next
  change ∃ out, logRingGet .previous c.seq (initMemory next (crash s).memory).view
    (initRam (crash s).memory (crash s).ram) = some out
  refine ⟨_,getGives prev ?_ numbered ?_ ?_ ?_ ?_⟩
  · exact fun same => apart (Option.some.inj same)
  · unfold accepted
    rw [slots, ids _ apart]
    exact valid
  · rw [slots]
    exact holds.seq
  · rw [prevLatest, latest]
    exact UInt32.le_refl _
  · rw [prevLatest, latest, UInt32.sub_self]
    decide

end EpskcCommissioner.LogRingChains
