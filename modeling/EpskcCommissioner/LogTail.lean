import Mathlib.Data.List.Nodup
import EpskcCommissioner.Machine

/-! `tools/logtail.py` following a device over `GET /logs`. The tail's fetches are single
steps of the machine; between any two of them the device may log lines or reboot.
A line is known by the boot it is from, counted from the first, and its number, which
is taken not to wrap. -/
namespace EpskcCommissioner.LogTail

variable {Id : Type}

/- One boot's half of the ring as `log_ring_info` describes it. -/
structure Boot (Id : Type) where
  id : Id
  latest : Nat
  ordinal : Nat
  deriving DecidableEq, Repr

/- `history` lists the IDs of all boots so far; a boot's ordinal is its place there. -/
structure Device (Id : Type) where
  current : Boot Id
  previous : Option (Boot Id)
  resetReason : String
  history : List Id
  deriving DecidableEq, Repr

/- The parts of a page that the tail reads, and the boot that its lines are from. -/
structure Page (Id : Type) where
  bootId : Id
  latestSeq : Nat
  resetReason : String
  lines : List Nat
  ordinal : Nat
  deriving DecidableEq, Repr

structure Line where
  boot : Nat
  seq : Nat
  deriving DecidableEq, Repr

inductive Note where
  | overwritten (count : Nat)
  | notRetained
  | rebooted (reason : String)
  deriving DecidableEq, Repr

def logRingLines : Nat := 1024
def pageLimit : Nat := 200

def oldestSeq (latest : Nat) : Nat :=
  if latest = 0 then 0 else if latest > logRingLines then latest - logRingLines + 1 else 1

/- Where `h_logs` starts; 0 is nowhere. -/
def startSeq (after latest : Nat) : Nat :=
  let start := if after ≥ latest then 0 else after + 1
  if start ≠ 0 ∧ start < oldestSeq latest then oldestSeq latest else start

/- `h_logs`: the first `limit` lines after `after` that can be read. -/
def hLogs (reason : String) (readable : Nat → Bool) (after : Nat) (b : Boot Id) : Page Id where
  bootId := b.id
  latestSeq := b.latest
  resetReason := reason
  lines :=
    let start := startSeq after b.latest
    if start = 0 then []
    else ((List.range' start (b.latest + 1 - start)).filter readable).take pageLimit
  ordinal := b.ordinal

/- `Tail`, with all that it has written and noted. -/
structure Tail (Id : Type) where
  bootId : Option Id
  cursor : Nat
  written : List Line
  notes : List Note
  deriving DecidableEq, Repr

/- `_consume`, and whether it asks for more. -/
def consume (page : Page Id) (t : Tail Id) : Tail Id × Bool :=
  let gap := match page.lines.head? with
    | some first => if first > t.cursor + 1 then [.overwritten (first - t.cursor - 1)] else []
    | none => []
  let cursor := page.lines.getLast?.getD t.cursor
  ({t with written := t.written ++ page.lines.map (Line.mk page.ordinal)
           cursor := cursor
           notes := t.notes ++ gap},
    !page.lines.isEmpty && decide (cursor < page.latestSeq))

/- One turn of the loop in `drain`, and whether there is another. -/
def drainPage (page : Page Id) (t : Tail Id) : Tail Id × Bool :=
  let t := if t.bootId.isNone then {t with bootId := some page.bootId} else t
  let (t,more) := consume page t
  if more then (t,true)
  else if page.latestSeq > t.cursor && page.lines.isEmpty then
    ({t with cursor := page.latestSeq},false)
  else (t,false)

/- Where `poll` is: before its first fetch, before it looks for the lost boot, in
`drain('previous')` or in `drain('current')`. -/
inductive Pc (Id : Type) where
  | idle
  | rebooted (page : Page Id)
  | drainPrevious (page : Page Id)
  | drainCurrent
  deriving DecidableEq, Repr

structure Follow (Id : Type) where
  device : Device Id
  tail : Tail Id
  pc : Pc Id
  deriving DecidableEq, Repr

/- A fetch may find any lines unreadable; a failed one ends the poll. -/
inductive Label (Id : Type) where
  | log (lines : Nat)
  | reboot (id : Id) (retained : Bool) (reason : String)
  | fetch (readable : Nat → Bool)
  | fail

def log (lines : Nat) (d : Device Id) : Device Id :=
  {d with current := {d.current with latest := d.current.latest + lines}}

def reboot (id : Id) (retained : Bool) (reason : String) (d : Device Id) : Device Id where
  current := ⟨id,0,d.history.length⟩
  previous := if retained then some d.current else none
  resetReason := reason
  history := d.history ++ [id]

/- The rest of `poll` once the lines of the boot before are dealt with. -/
def newBoot (page : Page Id) (s : Follow Id) : Follow Id :=
  {s with tail := {s.tail with bootId := some page.bootId
                               cursor := 0
                               notes := s.tail.notes ++ [.rebooted page.resetReason]}
          pc := .drainCurrent}

def consumeThen (page : Page Id) (more done : Follow Id → Follow Id) (s : Follow Id) : Follow Id :=
  let (tail,again) := consume page s.tail
  if again then more {s with tail := tail} else done {s with tail := tail}

def goTo (pc : Pc Id) (s : Follow Id) : Follow Id := {s with pc := pc}

variable [DecidableEq Id]

def pollCurrent (page : Page Id) (s : Follow Id) : Follow Id :=
  match s.tail.bootId with
  | none =>
    consumeThen page (goTo .drainCurrent) (goTo .idle)
      {s with tail := {s.tail with bootId := some page.bootId}}
  | some id =>
    if page.bootId ≠ id then goTo (.rebooted page) s
    else consumeThen page (goTo .drainCurrent) (goTo .idle) s

def pollPrevious (page : Page Id) (old : Option (Page Id)) (s : Follow Id) : Follow Id :=
  match old with
  | some old =>
    if some old.bootId = s.tail.bootId then
      consumeThen old (goTo (.drainPrevious page)) (newBoot page) s
    else newBoot page {s with tail := {s.tail with notes := s.tail.notes ++ [.notRetained]}}
  | none => newBoot page {s with tail := {s.tail with notes := s.tail.notes ++ [.notRetained]}}

def drain (page : Option (Page Id)) (done : Follow Id → Follow Id) (s : Follow Id) : Follow Id :=
  match page with
  | none => done s
  | some page =>
    let (tail,again) := drainPage page s.tail
    if again then {s with tail := tail} else done {s with tail := tail}

def fetch (readable : Nat → Bool) (s : Follow Id) : Follow Id :=
  let page := hLogs s.device.resetReason readable
  match s.pc with
  | .idle => pollCurrent (page (if s.tail.bootId.isSome then s.tail.cursor else 0) s.device.current) s
  | .rebooted new => pollPrevious new (s.device.previous.map (page s.tail.cursor)) s
  | .drainPrevious new => drain (s.device.previous.map (page s.tail.cursor)) (newBoot new) s
  | .drainCurrent => drain (some (page s.tail.cursor s.device.current)) (goTo .idle) s

def step (s : Follow Id) : Label Id → Option (Follow Id)
  | .log lines => some {s with device := log lines s.device}
  | .reboot id retained reason =>
    if id ∈ s.device.history then none
    else some {s with device := reboot id retained reason s.device}
  | .fetch readable => some (fetch readable s)
  | .fail => some (goTo .idle s)

def started (d : Device Id) : Follow Id := ⟨d,⟨none,0,[],[]⟩,.idle⟩

/- The halves are from the two newest boots of a device whose boot IDs differ. -/
structure Retains (d : Device Id) : Prop where
  fresh : d.history.Nodup
  newest : d.history.length = d.current.ordinal + 1
  current : d.history[d.current.ordinal]? = some d.current.id
  previous : ∀ b, d.previous = some b → b.ordinal + 1 = d.current.ordinal ∧
    d.history[b.ordinal]? = some b.id

def follow (Id : Type) [DecidableEq Id] : Machine (Follow Id) (Label Id) :=
  ⟨fun s => ∃ d, Retains d ∧ s = started d,step⟩

end EpskcCommissioner.LogTail
