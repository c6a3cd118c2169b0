import EpskcCommissioner.CString
import EpskcCommissioner.DatasetHex

/-! The options of `POST /node/ba-epskc/key`: `otbr_rest_parse_epskc_options` as it walks the
body, and the handler around it. A body that is accepted is written by one grammar. -/
namespace EpskcCommissioner.EpskcOptions
open WifiDriver CBytes CString DatasetHex

def minus : UInt8 := 0x2d
def plus : UInt8 := 0x2b
def zero : UInt8 := 0x30
def colon : UInt8 := 0x3a
def comma : UInt8 := 0x2c
def opening : UInt8 := 0x7b
def closing : UInt8 := 0x7d

/- `long` of the target. -/
def longMin : Int := -2147483648
def longMax : Int := 2147483647

def lifetimeKey : List UInt8 := [0x6c,0x69,0x66,0x65,0x74,0x69,0x6d,0x65]
def portKey : List UInt8 := [0x70,0x6f,0x72,0x74]

structure Strtol where
  value : Int
  stop : List UInt8
  range : Bool
  deriving DecidableEq, Repr

/- `strtol` with base 10; `stop` is what `*end` becomes, and `range` is ERANGE. -/
def strtol (p : List UInt8) : Checked Strtol := do
  let sign ← skipWhile isSpace p
  let c ← charAt sign
  let first := if c = minus ∨ c = plus then sign.tail else sign
  let stop ← skipWhile isDecimal first
  let magnitude : Int := number (first.take (first.length - stop.length))
  let value := if c = minus then -magnitude else magnitude
  return if stop.length = first.length then ⟨0,p,false⟩
    else if value < longMin then ⟨longMin,stop,true⟩
    else if longMax < value then ⟨longMax,stop,true⟩
    else ⟨value,stop,false⟩

structure Args where
  lifetime : Int
  port : Int
  sawLifetime : Bool
  sawPort : Bool
  deriving DecidableEq, Repr

/- Where the integer at `p` ends by the grammar of JSON: its digits, and a sign before. -/
def digitsEnd (p : List UInt8) : Checked (Option (List UInt8)) := do
  let digit ← charAt p
  if digit = zero then
    let next ← charAt p.tail
    return if isDecimal next then none else some p.tail
  else if isDecimal digit then
    let stop ← skipWhile isDecimal p.tail
    return some stop
  else return none

def numberEnd (p : List UInt8) : Checked (Option (List UInt8)) := do
  let c ← charAt p
  digitsEnd (if c = minus then p.tail else p)

def store (key : List UInt8) (keyLen : Nat) (value : Int) (s : Args) : Option Args :=
  if keyLen = 8 ∧ key.take keyLen = lifetimeKey ∧ s.sawLifetime = false then
    some {s with lifetime := value, sawLifetime := true}
  else if keyLen = 4 ∧ key.take keyLen = portKey ∧ s.sawPort = false then
    some {s with port := value, sawPort := true}
  else none

def readValue (key : List UInt8) (keyLen : Nat) (p : List UInt8) (s : Args) :
    Checked (Option (List UInt8 × Args)) := do
  match ← numberEnd p with
  | none => return none
  | some stop =>
    let read ← strtol p
    if read.stop ≠ stop ∨ read.range = true then return none
    else return (store key keyLen read.value s).map (fun t => (read.stop,t))

def inKey (c : UInt8) : Bool := c != 0 && c != quote

/- A member from its quote on: what follows it, and what it stores. Nothing is where the
parser returns false. -/
def member (p : List UInt8) (s : Args) : Checked (Option (List UInt8 × Args)) := do
  let c ← charAt p
  if c ≠ quote then return none
  else
    let key := p.tail
    let p ← skipWhile inKey key
    let c ← charAt p
    if c ≠ quote then return none
    else
      let keyLen := key.length - p.length
      let p ← skipWhile isSpace p.tail
      let c ← charAt p
      if c ≠ colon then return none
      else
        let p ← skipWhile isSpace p.tail
        readValue key keyLen p s

def finish (p : List UInt8) (s : Args) : Checked (Bool × Args) := do
  let p ← skipWhile isSpace p
  let c ← charAt p
  return (c == 0,s)

def loop : (fuel : Nat) → List UInt8 → Args → Checked (Bool × Args)
  | 0, _, _ => .error .fuel
  | fuel + 1, p, s => do
    let p ← skipWhile isSpace p
    let c ← charAt p
    if c = closing then finish p.tail s
    else
      match ← member p s with
      | none => return (false,s)
      | some (p,s) =>
        let p ← skipWhile isSpace p
        let c ← charAt p
        if c = comma then
          let next ← skipWhile isSpace p.tail
          let c ← charAt next
          if c = closing then return (false,s) else loop fuel p.tail s
        else if c = closing then finish p.tail s
        else return (false,s)

def otbrRestParseEpskcOptions (body : List UInt8) (lifetime port : Int) : Checked (Bool × Args) := do
  let s : Args := ⟨lifetime,port,false,false⟩
  let p ← skipWhile isSpace body
  let c ← charAt p
  if c = 0 then return (true,s)
  else if c ≠ opening then return (false,s)
  else loop p.length p.tail s

/- What `thread_share_start_on` leaves: its result, and the code of a key that it opened. -/
structure ShareStarted (State : Type) where
  state : State
  result : EspErr
  code : String

structure Answer extends Reply where
  cacheControl : String
  deriving DecidableEq, Repr

def respond (status body : String) : Answer := ⟨⟨status,body⟩,"no-store"⟩

/- `json` of the handler holds all of it: a code has at most nine characters. -/
def tapJson (code : String) (port : UInt16) : String :=
  "\x7b\"tap\":\"" ++ code ++ "\",\"port\":" ++ toString port.toNat ++ "\x7d"

/- The POST half of `h_epskc_key`. `accepted` is what `ui_run_on_worker` returns: a call
that it does not accept never runs. `start` is `thread_share_start_on`. -/
def hEpskcKeyPost {State : Type} (start : UInt32 → UInt16 → State → ShareStarted State)
    (threadSharePort : State → UInt16) (accepted : Bool) (shareMinutes : UInt8) (contentLen : Nat)
    (reads : List (List UInt8)) (s : State) : Checked (State × Answer) :=
  if 96 ≤ contentLen then .ok (s,respond "413 Content Too Large" "\"body too long\"")
  else
    match recvBody contentLen reads 96 with
    | none => .ok (s,respond "400 Bad Request" "\"could not read body\"")
    | some body => do
      let (parsed,args) ← otbrRestParseEpskcOptions (terminated body) (shareMinutes.toNat * 60000) 0
      if parsed = false then
        return (s,respond "400 Bad Request" "\"expected JSON lifetime and/or port\"")
      else if args.lifetime ≤ 0 ∨ 600000 < args.lifetime then
        return (s,respond "400 Bad Request" "\"lifetime must be 1..600000 ms\"")
      else if args.port < 0 ∨ 65535 < args.port then
        return (s,respond "400 Bad Request" "\"port must be between 0 and 65535\"")
      else if accepted = false then
        return (s,respond "409 Conflict" "\"could not activate ephemeral key\"")
      else
        let started := start (UInt32.ofInt args.lifetime) (UInt16.ofInt args.port) s
        if started.result ≠ espOk then
          return (started.state,respond "409 Conflict" "\"could not activate ephemeral key\"")
        else return (started.state,respond "200 OK" (tapJson started.code (threadSharePort started.state)))

end EpskcCommissioner.EpskcOptions
