import EpskcCommissioner.LogJson
import EpskcCommissioner.LogRingCurrent
import EpskcCommissioner.PowerLog

/-! `h_logs` of `otbr_rest.c`: a page of the log ring as JSON or as text. Small writes are
gathered into chunks; `send k` is the result of the k-th chunk. -/
namespace EpskcCommissioner.RestLogs
open WifiDriver (EspErr espOk espFail)
open LogRing LogRingCurrent LogJson Decimal Paging
open PowerLog (Micros UrlQuery KeyValue pageParams hex16)
open Utf8 (encode)

inductive ResetReason where
  | powerOn | sw | panic | intWdt | taskWdt | wdt | deepSleep | brownout | usb | jtag | other
  deriving DecidableEq, Repr

def uiResetReasonStr : ResetReason → String
  | .powerOn => "power on"
  | .sw => "software"
  | .panic => "panic"
  | .intWdt => "interrupt watchdog"
  | .taskWdt => "task watchdog"
  | .wdt => "watchdog"
  | .deepSleep => "deep sleep"
  | .brownout => "brownout"
  | .usb => "USB"
  | .jtag => "JTAG"
  | .other => "unknown"

/- `query_choice`: whether the key names the second of two words. -/
def queryChoice (first second : String) : KeyValue → Option Bool
  | .notFound => some false
  | .failed => none
  | .found value =>
    if value ≠ encode first.toList ∧ value ≠ encode second.toList then none
    else some (value == encode second.toList)

structure Params where
  after : UInt32
  limit : UInt32
  previous : Bool
  text : Bool
  deriving DecidableEq, Repr

def logsParams (q : UrlQuery) : Except String Params :=
  if q.length = 0 then .ok ⟨0,200,false,false⟩
  else if !q.copied then .error "query too long"
  else
    match pageParams 200 "limit must be 1..200" q with
    | .error message => .error message
    | .ok (after,limit) =>
      match queryChoice "current" "previous" (q.key "boot") with
      | none => .error "boot must be current or previous"
      | some previous =>
        match queryChoice "json" "text" (q.key "format") with
        | none => .error "format must be json or text"
        | some text => .ok ⟨after,limit,previous,text⟩

def bootName (previous : Bool) : String := if previous then "previous" else "current"

def jsonPageHead (previous : Bool) (info : LogRingInfo) (reason : ResetReason) (now : Micros) : List Char :=
  "\x7b\"schema\":1,\"boot\":\"".toList ++ (bootName previous).toList ++ "\",\"boot_id\":\"".toList ++
    hex16 info.bootId ++ "\",\"boot_count\":".toList ++ digits info.bootCount.toNat ++
    ",\"reset_reason\":\"".toList ++ (uiResetReasonStr reason).toList ++ "\",\"device_uptime_ms\":".toList ++
    digits (now.val / 1000) ++ ",\"capacity\":".toList ++ digits 1024 ++
    ",\"oldest_seq\":".toList ++ digits info.oldestSeq.toNat ++
    ",\"latest_seq\":".toList ++ digits info.latestSeq.toNat ++
    ",\"last_uptime_ms\":".toList ++ digits info.lastUptimeMs.toNat ++ ",\"lines\":[".toList

def textPageHead (previous : Bool) (info : LogRingInfo) (reason : ResetReason) : List Char :=
  "# ".toList ++ (bootName previous).toList ++ " boot ".toList ++ digits info.bootCount.toNat ++
    ", lines ".toList ++ digits info.oldestSeq.toNat ++ "..".toList ++ digits info.latestSeq.toNat ++
    ", this boot started by: ".toList ++ (uiResetReasonStr reason).toList ++ "\n".toList

/- `batch` of `logs_scratch_t` as far as it is used, and the chunks that were sent. -/
structure Scratch where
  sent : List (List UInt8)
  batch : List UInt8
  deriving DecidableEq, Repr

def batchSize : Nat := 1536

section
variable (send : Nat → EspErr)

def logsSend (data : List UInt8) (s : Scratch) : Scratch × EspErr :=
  if batchSize < s.batch.length + data.length then
    if s.batch ≠ [] ∧ send s.sent.length ≠ espOk then (s,espFail)
    else
      let sent := if s.batch = [] then s.sent else s.sent ++ [s.batch]
      if batchSize < data.length then
        if send sent.length ≠ espOk then (⟨sent,[]⟩,send sent.length) else (⟨sent ++ [data],[]⟩,espOk)
      else (⟨sent,data⟩,espOk)
  else (⟨s.sent,s.batch ++ data⟩,espOk)

def sendLine (text first : Bool) (line : LineOut) (s : Scratch) : Scratch × EspErr :=
  if text then logsSend send (cString line.text ++ [0x0a]) s
  else
    let row := logRingJson line rowRoom
    let (s,err) := if row = [] then (s,espFail) else if first then (s,espOk) else logsSend send [0x2c] s
    if err = espOk then logsSend send row s else (s,err)

def sendLines (text : Bool) : (first : Bool) → List LineOut → Scratch → Scratch × EspErr
  | _, [], s => (s,espOk)
  | first, line :: lines, s =>
    match sendLine send text first line s with
    | (s,err) => if err = espOk then sendLines text false lines s else (s,err)

/- The response from its head on: the chunks, and what the handler returns. -/
def sendPage (text : Bool) (head : List Char) (lines : List LineOut) : List (List UInt8) × EspErr :=
  let head := encode head
  let (s,err) := if head.length < 400 then logsSend send head ⟨[],[]⟩ else (⟨[],[]⟩,espFail)
  let (s,err) := if err = espOk then sendLines send text true lines s else (s,err)
  let (s,err) := if err = espOk ∧ !text then logsSend send [0x5d,0x7d] s else (s,err)
  let flush := err = espOk ∧ s.batch ≠ []
  let err := if flush then send s.sent.length else err
  let sent := if flush ∧ err = espOk then s.sent ++ [s.batch] else s.sent
  if err ≠ espOk then (sent,espFail)
  else if send sent.length ≠ espOk then (sent,send sent.length)
  else (sent ++ [[]],espOk)

end

/- What the handler sends; an empty chunk ends the response. -/
inductive Response where
  | sendErr (message : String)
  | json (status body : String)
  | chunked (chunks : List (List UInt8)) (err : EspErr)
  deriving DecidableEq, Repr

def which (previous : Bool) : Which := if previous then .previous else .current

/- `get boot seq` is what `log_ring_get` gives when the loop asks for `seq`. -/
def hLogs (q : UrlQuery) (info : Which → Option LogRingInfo) (get : Which → UInt32 → Option LineOut)
    (allocated : Bool) (reason : ResetReason) (now : Micros) (send : Nat → EspErr) : Response :=
  match logsParams q with
  | .error message => .sendErr message
  | .ok p =>
    match info (which p.previous) with
    | none =>
      .json "404 Not Found"
        (if p.previous then
          "\x7b\"error\":\"no previous boot log: last start was a power-on or new firmware\"\x7d"
        else "\x7b\"error\":\"log capture unavailable\"\x7d")
    | some info =>
      if !allocated then .json "503 Service Unavailable" "\x7b\"error\":\"out of memory\"\x7d"
      else
        let head :=
          if p.text then textPageHead p.previous info reason else jsonPageHead p.previous info reason now
        let lines := readPage (get (which p.previous)) info.latestSeq 4294967296
          (firstSeq p.after info.oldestSeq info.latestSeq) p.limit.toNat
        let sent := sendPage send p.text head lines
        .chunked sent.1 sent.2

end EpskcCommissioner.RestLogs
