import EpskcCommissioner.BatteryPage
import EpskcCommissioner.Csv
import EpskcCommissioner.UtcTime

/-! The `Recorder` of battery_record.py: how it is rebuilt from the CSV and what `ingest`
writes, write by write, as each one is flushed before the next. All that it writes to the CSV
is ASCII, so a character here is a byte there. The status file is left out: nothing reads it. -/
namespace EpskcCommissioner.BatteryRecord
open Decimal Json BatteryPage UtcTime

inductive PyError where
  | valueError (message : String)
  | keyError
  | typeError
  | overflowError
  deriving DecidableEq, Repr

inductive Event where
  | boot (bootId : BootId)
  | deviceReboot (bootId previousBootId : BootId)
  | missingSamples (bootId : BootId) (expectedSeq : Int) (firstAvailableSeq : Nat)
  deriving DecidableEq, Repr

/- An empty CSV stands for a missing one too, as the code asks for both at once. -/
structure Disk where
  csv : List Char
  events : List Event
  deriving DecidableEq, Repr

structure Recorder where
  bootId : Option BootId
  lastSeq : Int
  count : Nat
  batteryCount : Nat
  deriving DecidableEq, Repr

def fields : List (List Char) :=
  ["boot_id","sample_utc_estimate","received_utc"].map String.toList ++ sampleFields.map String.toList

def headerLine : List Char := Csv.recordText fields

structure Row where
  bootId : List Char
  estimate : Time
  received : Time
  sample : Sample
  deriving DecidableEq, Repr

def boolCell (b : Bool) : List Char := if b then "True".toList else "False".toList

def optionCell : Option Int → List Char
  | none => []
  | some n => signed n

def sampleCells (s : Sample) : List (List Char) :=
  [digits s.seq,digits s.uptimeMs,boolCell s.valid,optionCell s.percent,optionCell s.battMv,
    optionCell s.vbusMv,optionCell s.vsysMv,optionCell s.pmicTempC,boolCell s.present,boolCell s.usb,
    boolCell s.charging,boolCell s.full,boolCell s.estimated,digits s.screenPercent,digits s.rawSt1,
    digits s.rawSt2]

def Row.cells (row : Row) : List (List Char) :=
  row.bootId :: row.estimate.isoformat :: row.received.isoformat :: sampleCells row.sample

def Row.line (row : Row) : List Char := Csv.recordText row.cells

/- `row['valid'] and row['present'] and not row['usb']` -/
def onBattery (valid present usb : Bool) : Bool := valid && present && !usb

inductive Write where
  | event (e : Event)
  | csv (text : List Char)
  deriving DecidableEq, Repr

/- What `ingest` writes, leaves in memory and returns or raises. -/
structure Outcome where
  writes : List Write
  recorder : Recorder
  result : Except PyError Bool

def gapEvent (boot : BootId) (lastSeq : Int) (seq : Nat) : List Write :=
  if seq ≠ lastSeq + 1 then [.event (.missingSamples boot (lastSeq + 1) seq)] else []

/- The loop over the rows. `header` is what the CSV still has to be started with: it goes to
the disk with the first row, or as the file is closed. -/
def saveRows (page : Page) (received : Time) :
    (header : List Char) → List Sample → Recorder → Outcome
  | header, [], r => ⟨if header = [] then [] else [.csv header],r,.ok (r.lastSeq < page.latestSeq)⟩
  | header, row :: rows, r =>
    let gap := gapEvent page.bootId r.lastSeq row.seq
    match received.minus (page.deviceUptimeMs - row.uptimeMs) with
    | none => ⟨gap ++ (if header = [] then [] else [.csv header]),r,.error .overflowError⟩
    | some estimate =>
      let line := Row.line ⟨page.bootId.shown,estimate,received,row⟩
      let r := {r with
        lastSeq := row.seq
        count := r.count + 1
        batteryCount := r.batteryCount + (onBattery row.valid row.present row.usb).toNat}
      let rest := saveRows page received [] rows r
      {rest with writes := gap ++ .csv (header ++ line) :: rest.writes}

def ingestRows (csv : List Char) (page : Page) (received : Time) (r : Recorder) : Outcome :=
  let rows := page.samples.filter (fun row => r.lastSeq < row.seq)
  if rows = [] ∧ r.lastSeq < page.latestSeq then
    ⟨[],r,.error (.valueError "history page made no progress")⟩
  else if rows = [] then ⟨[],r,.ok (r.lastSeq < page.latestSeq)⟩
  else saveRows page received (if csv = [] then headerLine else []) rows r

/- `Recorder.ingest` of a page that passed its checks. -/
def ingestPage (csv : List Char) (r : Recorder) (page : Page) (received : Time) : Outcome :=
  if r.bootId = some page.bootId then ingestRows csv page received r
  else
    let event :=
      match r.bootId with
      | none => Event.boot page.bootId
      | some previous => .deviceReboot page.bootId previous
    let fresh := {r with bootId := some page.bootId, lastSeq := 0}
    if r.lastSeq ≠ 0 then ⟨[.event event],fresh,.ok (0 < page.latestSeq)⟩
    else
      let rest := ingestRows csv page received fresh
      {rest with writes := .event event :: rest.writes}

def ingest (csv : List Char) (r : Recorder) (page : Value) (received : Time) : Outcome :=
  match validatePage page with
  | .error message => ⟨[],r,.error (.valueError message)⟩
  | .ok page => ingestPage csv r page received

def perform (d : Disk) : Write → Disk
  | .event e => {d with events := d.events ++ [e]}
  | .csv text => {d with csv := d.csv ++ text}

/- `bytes.rfind(b'\n')` -/
def rfindNewline (tail : List Char) : Option Nat :=
  (tail.reverse.findIdx? (· == '\n')).map (tail.length - 1 - ·)

/- The truncation of a partial last row: the CSV from then on. -/
def truncated (csv : List Char) : Except PyError (List Char) :=
  let tail := csv.drop (csv.length - 4096)
  if tail.getLast? = some '\n' then .ok csv
  else
    match rfindNewline tail with
    | none => .error (.valueError "CSV has no complete trailing row")
    | some pos => .ok (csv.take (csv.length - tail.length + pos + 1))

def parseBool (cell : List Char) : Except PyError Bool :=
  if cell = "True".toList then .ok true
  else if cell = "False".toList then .ok false
  else .error .keyError

/- `int(row[field]) if row[field] else None` -/
def parseInt (cell : List Char) : Except PyError (Option Int) :=
  if cell = [] then .ok none
  else
    match readInteger cell with
    | some n => .ok (some n)
    | none => .error (.valueError "invalid literal for int() with base 10")

/- A row of the `DictReader`, with its conversions in the order of `SAMPLE_FIELDS`. -/
def readRow (r : Recorder) (row : List (List Char)) : Except PyError Recorder :=
  match row with
  | [boot,_,_,seq,uptime,valid,percent,batt,vbus,vsys,temp,present,usb,charging,full,estimated,
      screen,st1,st2] => do
    let seq ← parseInt seq
    let _ ← parseInt uptime
    let valid ← parseBool valid
    let _ ← parseInt percent
    let _ ← parseInt batt
    let _ ← parseInt vbus
    let _ ← parseInt vsys
    let _ ← parseInt temp
    let present ← parseBool present
    let usb ← parseBool usb
    let _ ← parseBool charging
    let _ ← parseBool full
    let _ ← parseBool estimated
    let _ ← parseInt screen
    let _ ← parseInt st1
    let _ ← parseInt st2
    match seq with
    | none => .error .typeError
    | some seq =>
      .ok ⟨some (.text boot),seq,r.count + 1,
        r.batteryCount + (onBattery valid present usb).toNat⟩
  | _ => .error (.valueError "malformed CSV row")

def newRecorder : Recorder := ⟨none,0,0,0⟩

/- `Recorder.__init__`: the CSV it leaves and the recorder. A blank line is no row. -/
def init (csv : List Char) : Except PyError (List Char × Recorder) :=
  if csv = [] then .ok ([],newRecorder)
  else do
    let kept ← truncated csv
    match Csv.records kept with
    | [] => .error (.valueError "CSV schema mismatch")
    | header :: rows =>
      if header ≠ fields then .error (.valueError "CSV schema mismatch")
      else do
        let r ← (rows.filter (· ≠ [])).foldlM readRow newRecorder
        .ok (kept,r)

end EpskcCommissioner.BatteryRecord
