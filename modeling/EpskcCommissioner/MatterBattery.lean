import Mathlib.Logic.Function.Basic
import EpskcCommissioner.Machine

/-! Battery reporting over Matter: samples are handed to the CHIP event loop through one
pending flag and one snapshot. Any number of tasks may note samples, start reporting or
run the watchdog; every shared access of `matter_battery.cpp` is a step of its own. -/
namespace EpskcCommissioner.MatterBattery

/- `power_status_t`, as far as `matter_note_power` reads it. -/
structure PowerStatus where
  percent : Int
  battMv : Int
  present : Bool
  percentEstimated : Bool
  vbus : Bool
  charging : Bool
  full : Bool
  deriving DecidableEq, Repr

/- `matter_battery_sample_t` -/
structure Sample where
  atMs : Nat
  percent : Int
  millivolts : Int
  valid : Bool
  present : Bool
  estimated : Bool
  usb : Bool
  charging : Bool
  full : Bool
  deriving DecidableEq, Repr

/- `matter_battery_values_t`: -1 is Matter's null, in `level` it retains the last one. -/
structure Values where
  percentHalf : Int
  millivolts : Int
  status : Int
  charge : Int
  level : Int
  deriving DecidableEq, Repr

inductive Attribute where
  | percent | voltage | status | charge | level
  deriving DecidableEq, Repr

def field (v : Values) : Attribute → Int
  | .percent => v.percentHalf
  | .voltage => v.millivolts
  | .status => v.status
  | .charge => v.charge
  | .level => v.level

def withField (v : Values) (a : Attribute) (value : Int) : Values :=
  match a with
  | .percent => {v with percentHalf := value}
  | .voltage => {v with millivolts := value}
  | .status => {v with status := value}
  | .charge => {v with charge := value}
  | .level => {v with level := value}

theorem fieldWithField (v : Values) (a b : Attribute) (value : Int) :
    field (withField v a value) b = if a = b then value else field v b := by
  cases a <;> cases b <;> rfl

def matterBatteryConvert (s : Sample) (now : Nat) : Values :=
  if !s.valid || decide (now < s.atMs) || decide (now - s.atMs ≥ 60000) then ⟨-1,-1,0,0,-1⟩
  else if !s.present then ⟨-1,-1,3,0,-1⟩
  else
    let known := !s.estimated && decide (s.percent ≥ 0) && decide (s.percent ≤ 100)
    { percentHalf := if known then s.percent * 2 else -1
      millivolts := if s.millivolts ≥ 2500 ∧ s.millivolts ≤ 4350 then s.millivolts else -1
      status := if s.usb then 2 else 1
      charge := if !s.usb then 3 else if s.full then 2 else if s.charging then 1 else 3
      level := if known then (if s.percent ≤ 5 then 2 else if s.percent < 15 then 1 else 0) else -1 }

/- `matter_battery_voltage_due`; time never runs back, so the difference is one. -/
def matterBatteryVoltageDue (previous next : Int) (last now : Nat) : Bool :=
  decide (previous ≠ next) &&
    (decide (previous < 0) || decide (next < 0) || decide (now - last ≥ 60000))

/- `publish` compares each attribute in its own way before it updates it. -/
def due (sent next : Values) (voltageAt now : Nat) : Attribute → Bool
  | .percent => decide (next.percentHalf ≠ sent.percentHalf)
  | .voltage => matterBatteryVoltageDue sent.millivolts next.millivolts voltageAt now
  | .status => decide (next.status ≠ sent.status)
  | .charge => decide (next.charge ≠ sent.charge)
  | .level => decide (next.level ≥ 0) && decide (next.level ≠ sent.level)

def nullable (size : Nat) (v : Int) : Option Nat :=
  if v < 0 then none else some (v.toNat % size)

def enum8 (v : Int) : Option Nat := some (v % 256).toNat

def encode : Attribute → Int → Option Nat
  | .percent, v => nullable 256 v
  | .voltage, v => nullable 4294967296 v
  | .status, v => enum8 v
  | .charge, v => enum8 v
  | .level, v => enum8 v

def reading : Option Nat → Int
  | none => -1
  | some n => n

inductive Requester where
  | idle
  | sampled (next : Sample)
  | requesting | exchanging | scheduling | failed
  deriving DecidableEq, Repr

inductive Publisher where
  | idle | entered | released
  | copied (sample : Sample)
  | updating (sample : Sample) (now : Nat) (failed : Bool) (a : Attribute)
  deriving DecidableEq, Repr

structure Publish where
  sample : Sample
  now : Nat
  failed : Bool
  deriving DecidableEq, Repr

/- `jobs` counts the publish jobs in the CHIP queue, `written` is what each attribute was
last updated to. The last three fields are history: whether ScheduleWork has failed and
whether a request cleared the pending flag after a failure, both since the latest
sample, and the last finished publish. -/
structure Battery where
  ready : Bool
  pending : Bool
  sample : Sample
  jobs : Nat
  publisher : Publisher
  sent : Values
  voltageAt : Nat
  written : Attribute → Option (Option Nat)
  requester : Nat → Requester
  clock : Nat
  scheduleFailed : Bool
  flagLost : Bool
  last : Option Publish

inductive Label where
  | tick (ms : Nat)
  | note (id : Nat) (status : Option PowerStatus)
  | start (id : Nat)
  | watchdog (id : Nat)
  | proceed (id : Nat) (ok : Bool)
  | publish (ok : Bool)

/- `matter_note_power`; no status is a missing one or an error. -/
def noted (status : Option PowerStatus) (now : Nat) : Sample :=
  match status with
  | none => ⟨now,0,0,false,false,false,false,false,false⟩
  | some p => ⟨now,p.percent,p.battMv,true,p.present,p.percentEstimated,p.vbus,p.charging,p.full⟩

def goTo (id : Nat) (pc : Requester) (s : Battery) : Battery :=
  {s with requester := Function.update s.requester id pc}

def proceed (id : Nat) (ok : Bool) (s : Battery) : Option Battery :=
  match s.requester id with
  | .idle => none
  | .sampled next =>
    some (goTo id .requesting {s with sample := next, scheduleFailed := false, flagLost := false})
  | .requesting => some (goTo id (if s.ready then .exchanging else .idle) s)
  | .exchanging =>
    some (if s.pending then goTo id .idle s else goTo id .scheduling {s with pending := true})
  | .scheduling =>
    some (if ok then goTo id .idle {s with jobs := s.jobs + 1}
      else goTo id .failed {s with scheduleFailed := true})
  | .failed => some (goTo id .idle {s with pending := false, flagLost := true})

/- One attribute of a publish run, with the cache that only the event loop writes. -/
def update (a : Attribute) (next : Values) (now : Nat) (ok : Bool) (s : Battery) : Battery :=
  if due s.sent next s.voltageAt now a && ok then
    {s with sent := withField s.sent a (field next a)
            voltageAt := if a = .voltage then now else s.voltageAt
            written := Function.update s.written a (some (encode a (field next a)))}
  else s

def following : Attribute → Option Attribute
  | .percent => some .voltage
  | .voltage => some .status
  | .status => some .charge
  | .charge => some .level
  | .level => none

def publishStep (ok : Bool) (s : Battery) : Option Battery :=
  match s.publisher with
  | .idle => if s.jobs = 0 then none else some {s with jobs := s.jobs - 1, publisher := .entered}
  | .entered => some {s with pending := false, publisher := .released}
  | .released => some {s with publisher := .copied s.sample}
  | .copied x => some {s with publisher := .updating x s.clock false .percent}
  | .updating x now failed a =>
    let next := matterBatteryConvert x now
    let failed := failed || (due s.sent next s.voltageAt now a && !ok)
    match following a with
    | some b => some {update a next now ok s with publisher := .updating x now failed b}
    | none => some {update a next now ok s with publisher := .idle, last := some ⟨x,now,failed⟩}

def step (s : Battery) : Label → Option Battery
  | .tick ms => some {s with clock := s.clock + ms}
  | .note id status =>
    if s.requester id = .idle then some (goTo id (.sampled (noted status s.clock)) s) else none
  | .start id =>
    if s.requester id = .idle then some (goTo id .requesting {s with ready := true}) else none
  | .watchdog id => if s.requester id = .idle then some (goTo id .requesting s) else none
  | .proceed id ok => proceed id ok s
  | .publish ok => publishStep ok s

def boot : Battery where
  ready := false
  pending := false
  sample := ⟨0,0,0,false,false,false,false,false,false⟩
  jobs := 0
  publisher := .idle
  sent := ⟨-2,-2,-2,-2,-2⟩
  voltageAt := 0
  written := fun _ => none
  requester := fun _ => .idle
  clock := 0
  scheduleFailed := false
  flagLost := false
  last := none

def battery : Machine Battery Label := ⟨fun s => s = boot,step⟩

end EpskcCommissioner.MatterBattery
