import EpskcCommissioner.LogRing
import EpskcCommissioner.Machine

/-! The log ring over a chain of boots. Any number of tasks call `ingest` and
`log_ring_line`; the critical sections exclude each other, store by store, and the cache
lines are pushed out after them, line by line. A cache line may reach the memory at any
time, and a crash may strike at any time after `log_ring_init` has returned. The ring is
in external memory, so `s_writeback` is set. -/
namespace EpskcCommissioner.LogRingDevice
open LogRing

inductive Call where
  | ingest (task : Nat) (text : List UInt8)
  | logRingLine (text : List UInt8)
  deriving DecidableEq, Repr

def execute (call : Call) (nowMs : UInt32) (ram : Ram) : Ram × List Commit :=
  match call with
  | .ingest task text => ingest task nowMs text ram
  | .logRingLine text => logRingLine nowMs text ram

/- Where a caller is; `own` are the places of the lines that its call commits. -/
inductive Caller where
  | idle
  | entering (call : Call) (nowMs : UInt32)
  | locked
  | writingBack (work : List Line) (own : List Nat)
  deriving DecidableEq, Repr

/- The critical section at work: the rest of the stores of one line, and the lines after it. -/
structure Critical where
  caller : Nat
  committing : Option (Commit × List Store)
  later : List Commit
  written : UInt32 × UInt32
  own : List Nat
  deriving DecidableEq, Repr

/- What a boot has logged: its lines in order, how many of them have taken their slot, and
the places of those whose call has returned. -/
structure BootLog where
  id : UInt64
  half : Half
  lines : List Commit
  begun : Nat
  returned : List Nat
  deriving DecidableEq, Repr

/- From `boot` on the fields are history: the running boot and the one before it, the
lines committed whole with the ID of their boot, the IDs drawn so far, and what
`log_ring_get` gave of the previous boot when `log_ring_init` returned. -/
structure Device where
  memory : Memory
  ram : Ram
  callers : Nat → Caller
  lock : Option Critical
  boot : BootLog
  past : Option BootLog
  committed : List (UInt64 × Commit)
  ids : List UInt64
  recovered : UInt32 → Option LineOut

inductive Label where
  | evict (k : Line)
  | call (id : Nat) (call : Call) (nowMs : UInt32)
  | enter (id : Nat)
  | proceed
  | writeBack (id : Nat)
  | crash
  | init (bootId : UInt64)

def goTo (id : Nat) (c : Caller) (s : Device) : Device :=
  {s with callers := Function.update s.callers id c}

def enter (id : Nat) (call : Call) (nowMs : UInt32) (s : Device) : Device :=
  let (ram,commits) := execute call nowMs s.ram
  goTo id .locked
    {s with ram := ram
            lock := some
              { caller := id
                committing := none
                later := commits
                written := noteWritten commits
                own := List.range' s.boot.lines.length commits.length }
            boot := {s.boot with lines := s.boot.lines ++ commits}}

def sectionStep (h : Half) (k : Critical) (s : Device) : Device :=
  match k.committing with
  | some (c,st :: rest) =>
    let s := {s with memory := perform h (slotIndex c.seq) s.memory st}
    if rest = [] then
      {s with lock := some {k with committing := none}, committed := (s.boot.id,c) :: s.committed}
    else {s with lock := some {k with committing := some (c,rest)}}
  | some (_,[]) => {s with lock := some {k with committing := none}}
  | none =>
    match k.later with
    | c :: later =>
      {s with lock := some {k with committing := some (c,c.stores), later := later}
              boot := {s.boot with begun := s.boot.begun + 1}}
    | [] =>
      goTo k.caller (.writingBack (writeBackLines h k.written.1 k.written.2) k.own) {s with lock := none}

def writeBackStep (id : Nat) (work : List Line) (own : List Nat) (s : Device) : Device :=
  match work with
  | k :: work => goTo id (.writingBack work own) {s with memory := s.memory.writeBack line k}
  | [] => goTo id .idle {s with boot := {s.boot with returned := s.boot.returned ++ own}}

def crash (s : Device) : Device :=
  {s with memory := s.memory.lose
          ram := .cleared
          callers := fun _ => .idle
          lock := none
          past := some s.boot}

def init (bootId : UInt64) (s : Device) : Device :=
  let memory := initMemory bootId s.memory
  let ram := initRam s.memory s.ram
  {s with memory := memory
          ram := ram
          boot := ⟨bootId,halfOf ((initRing s.memory).view .active),[],0,[]⟩
          ids := bootId :: s.ids
          recovered := fun seq => logRingGet .previous seq memory.view ram}

def step (s : Device) : Label → Option Device
  | .evict k => some {s with memory := s.memory.writeBack line k}
  | .call id call nowMs =>
    if s.callers id = .idle ∧ s.ram.cur.isSome then some (goTo id (.entering call nowMs) s) else none
  | .enter id =>
    match s.callers id, s.lock with
    | .entering call nowMs, none => some (enter id call nowMs s)
    | _, _ => none
  | .proceed =>
    match s.ram.cur, s.lock with
    | some h, some k => some (sectionStep h k s)
    | _, _ => none
  | .writeBack id =>
    match s.callers id with
    | .writingBack work own => some (writeBackStep id work own s)
    | _ => none
  | .crash => if s.ram.cur.isSome then some (crash s) else none
  | .init bootId => if s.ram.cur.isNone then some (init bootId s) else none

inductive Stepped (s : Device) : Label → Device → Prop where
  | evict (k : Line) : Stepped s (.evict k) {s with memory := s.memory.writeBack line k}
  | call (id : Nat) (call : Call) (nowMs : UInt32) (runs : s.ram.cur.isSome) :
      Stepped s (.call id call nowMs) (goTo id (.entering call nowMs) s)
  | enter (id : Nat) (call : Call) (nowMs : UInt32) (entering : s.callers id = .entering call nowMs)
      (free : s.lock = none) : Stepped s (.enter id) (enter id call nowMs s)
  | proceed (h : Half) (k : Critical) (cur : s.ram.cur = some h) (locked : s.lock = some k) :
      Stepped s .proceed (sectionStep h k s)
  | writeBack (id : Nat) (work : List Line) (own : List Nat)
      (here : s.callers id = .writingBack work own) :
      Stepped s (.writeBack id) (writeBackStep id work own s)
  | crash (runs : s.ram.cur.isSome) : Stepped s .crash (crash s)
  | init (bootId : UInt64) (off : s.ram.cur.isNone) : Stepped s (.init bootId) (init bootId s)

theorem stepped {s t : Device} {l : Label} (taken : step s l = some t) : Stepped s l t := by
  cases l with
  | evict k =>
    cases Option.some.inj taken
    exact .evict k
  | call id call nowMs =>
    obtain ⟨⟨_,runs⟩,same⟩ := Option.ite_none_right_eq_some.mp taken
    cases Option.some.inj same
    exact .call id call nowMs runs
  | enter id =>
    unfold step at taken
    dsimp only at taken
    split at taken <;> try contradiction
    rename_i call nowMs entering free
    cases Option.some.inj taken
    exact .enter id call nowMs entering free
  | proceed =>
    unfold step at taken
    dsimp only at taken
    split at taken <;> try contradiction
    rename_i h k cur locked
    cases Option.some.inj taken
    exact .proceed h k cur locked
  | writeBack id =>
    unfold step at taken
    dsimp only at taken
    split at taken <;> try contradiction
    rename_i work own here
    cases Option.some.inj taken
    exact .writeBack id work own here
  | crash =>
    obtain ⟨runs,same⟩ := Option.ite_none_right_eq_some.mp taken
    cases Option.some.inj same
    exact .crash runs
  | init bootId =>
    obtain ⟨off,same⟩ := Option.ite_none_right_eq_some.mp taken
    cases Option.some.inj same
    exact .init bootId off

/- Power on: the external memory has anything. -/
def powerOn (memory : Cells) : Device where
  memory := ⟨memory,memory⟩
  ram := .cleared
  callers := fun _ => .idle
  lock := none
  boot := ⟨0,0,[],0,[]⟩
  past := none
  committed := []
  ids := []
  recovered := fun _ => none

def device : Machine Device Label := ⟨fun s => ∃ memory, s = powerOn memory,step⟩

end EpskcCommissioner.LogRingDevice
