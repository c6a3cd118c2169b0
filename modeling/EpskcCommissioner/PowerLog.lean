import EpskcCommissioner.Decimal
import EpskcCommissioner.Paging
import EpskcCommissioner.PowerRead

/-! The battery history: `power_log.c` with its ring of samples, and `h_power_history`, which
sends a page of it as JSON. All the text is ASCII, so a character here is a byte there. -/
namespace EpskcCommissioner.PowerLog
open WifiDriver (EspErr espOk espFail)
open Decimal Paging PowerRead

def powerLogCapacity : Nat := 8640

/- `power_log_sample_t` -/
structure Sample where
  seq : UInt32
  uptimeMs : Nat
  percent : Int16
  battMv : Int16
  vbusMv : Int16
  vsysMv : Int16
  pmicTempC : Int16
  screenPercent : UInt8
  rawSt1 : UInt8
  rawSt2 : UInt8
  valid : Bool
  present : Bool
  usb : Bool
  charging : Bool
  full : Bool
  estimated : Bool
  deriving DecidableEq, Repr

/- The ring, where its memory could be allocated. -/
structure Log where
  samples : Fin powerLogCapacity → Sample
  bootId : UInt64
  latest : UInt32
  count : UInt32

def zeroSample : Sample := ⟨0,0,0,0,0,0,0,0,0,0,false,false,false,false,false,false⟩

/- `power_log_init`: `bootId` is what `esp_fill_random` gives. -/
def powerLogInit (allocated : Bool) (bootId : UInt64) : Option Log → Option Log
  | some log => some log
  | none => if allocated then some ⟨fun _ => zeroSample,bootId,0,0⟩ else none

/- What `esp_timer_get_time` gives: microseconds, no less than zero. -/
abbrev Micros := Fin 9223372036854775808

/- A call of `power_log_note`, with the time of its clock. -/
structure Note where
  status : PowerStatus
  result : EspErr
  screenPercent : UInt32
  micros : Micros
  deriving DecidableEq, Repr, Inhabited

def slot (seq : UInt32) : Fin powerLogCapacity :=
  ⟨(seq - 1).toNat % powerLogCapacity,Nat.mod_lt _ (by decide)⟩

def noteRow (n : Note) : Sample :=
  let valid := n.result == espOk
  let value := fun v => Int16.ofInt (if valid then v else -1)
  { seq := 0
    uptimeMs := n.micros.val / 1000
    percent := value n.status.percent
    battMv := value n.status.battMv
    vbusMv := value n.status.vbusMv
    vsysMv := value n.status.vsysMv
    pmicTempC :=
      Int16.ofInt (if valid ∧ n.status.pmicTempC ≠ intMin then n.status.pmicTempC else -32768)
    screenPercent := (if 100 < n.screenPercent then 100 else n.screenPercent).toUInt8
    rawSt1 := if valid then n.status.rawSt1 else 0
    rawSt2 := if valid then n.status.rawSt2 else 0
    valid := valid
    present := valid && n.status.present
    usb := valid && n.status.vbus
    charging := valid && n.status.charging
    full := valid && n.status.full
    estimated := valid && n.status.percentEstimated }

def powerLogNote (n : Note) (log : Log) : Log :=
  let row := {noteRow n with seq := log.latest + 1}
  {log with
    latest := log.latest + 1
    samples := fun i => if i = slot row.seq then row else log.samples i
    count := if log.count < 8640 then log.count + 1 else log.count}

structure Info where
  bootId : UInt64
  oldestSeq : UInt32
  latestSeq : UInt32
  count : UInt32
  deriving DecidableEq, Repr

def powerLogInfo : Option Log → Option Info
  | none => none
  | some log =>
    some ⟨log.bootId,if log.count ≠ 0 then log.latest - log.count + 1 else 0,log.latest,log.count⟩

def powerLogGet (seq : UInt32) : Option Log → Option Sample
  | none => none
  | some log =>
    if seq ≠ 0 ∧ seq ≤ log.latest ∧ log.latest - log.count < seq then some (log.samples (slot seq))
    else none

/- `number`; its buffer of 12 bytes holds any `int`. -/
def number (value invalid : Int) : List Char :=
  if value = invalid then "null".toList else signed value

def bool (b : Bool) : List Char := if b then "true".toList else "false".toList

/- What `snprintf` of a row would print. -/
def rowText (s : Sample) : List Char :=
  "\x7b\"seq\":".toList ++ digits s.seq.toNat ++ ",\"uptime_ms\":".toList ++ digits s.uptimeMs ++
    ",\"valid\":".toList ++ bool s.valid ++
    ",\"percent\":".toList ++ number s.percent.toInt (-1) ++
    ",\"batt_mv\":".toList ++ number s.battMv.toInt (-1) ++
    ",\"vbus_mv\":".toList ++ number s.vbusMv.toInt (-1) ++
    ",\"vsys_mv\":".toList ++ number s.vsysMv.toInt (-1) ++
    ",\"pmic_temp_c\":".toList ++ number s.pmicTempC.toInt (-32768) ++
    ",\"present\":".toList ++ bool s.present ++ ",\"usb\":".toList ++ bool s.usb ++
    ",\"charging\":".toList ++ bool s.charging ++ ",\"full\":".toList ++ bool s.full ++
    ",\"estimated\":".toList ++ bool s.estimated ++
    ",\"screen_percent\":".toList ++ digits s.screenPercent.toNat ++
    ",\"raw_st1\":".toList ++ digits s.rawSt1.toNat ++
    ",\"raw_st2\":".toList ++ digits s.rawSt2.toNat ++ "\x7d".toList

/- Nothing where the row does not fit. -/
def powerLogJson (s : Sample) (cap : Nat) : List Char :=
  if (rowText s).length < cap then rowText s else []

/- The loop of `power_log_parse_uint` over the digits. -/
def parseDigits (maximum : UInt32) : (n : Nat) → List UInt8 → Option UInt32
  | n, [] => some (UInt32.ofNat n)
  | n, c :: rest =>
    if c < 0x30 ∨ 0x39 < c then none
    else if maximum.toNat < n * 10 + (c - 0x30).toNat then none
    else parseDigits maximum (n * 10 + (c - 0x30).toNat) rest

/- `power_log_parse_uint`; the value is not NULL. -/
def powerLogParseUint (value : List UInt8) (maximum : UInt32) : Option UInt32 :=
  if value = [] then none else parseDigits maximum 0 value

/- What `httpd_query_key_value` gives for a key. -/
inductive KeyValue where
  | notFound
  | found (value : List UInt8)
  | failed
  deriving DecidableEq, Repr

/- The URL query of a request: its length, whether it could be copied, and its keys. -/
structure UrlQuery where
  length : Nat
  copied : Bool
  key : String → KeyValue

/- A numeric parameter: its default where the key is not there. -/
def numberParam (default maximum : UInt32) (message : String) : KeyValue → Except String UInt32
  | .notFound => .ok default
  | .failed => .error message
  | .found value =>
    match powerLogParseUint value maximum with
    | none => .error message
    | some n => .ok n

/- `after` and `limit`, as the two paged handlers read them. -/
def pageParams (most : UInt32) (message : String) (q : UrlQuery) : Except String (UInt32 × UInt32) :=
  match numberParam 0 0xFFFFFFFF "invalid after" (q.key "after") with
  | .error e => .error e
  | .ok after =>
    match numberParam most most message (q.key "limit") with
    | .error e => .error e
    | .ok limit => if limit = 0 then .error message else .ok (after,limit)

def historyParams (q : UrlQuery) : Except String (UInt32 × UInt32) :=
  if q.length = 0 then .ok (0,120)
  else if !q.copied then .error "query too long"
  else pageParams 120 "limit must be 1..120" q

/- What a handler sends: an error page, a whole JSON response, or chunks and the error it
returns after them; an empty chunk ends the response. -/
inductive Reply where
  | sendErr (message : String)
  | json (status body : String)
  | chunked (chunks : List (List Char)) (err : EspErr)
  deriving DecidableEq, Repr

def hex16 (n : UInt64) : List Char :=
  (List.range 16).map (fun i => Nat.digitChar (n.toNat / 16 ^ (15 - i) % 16))

def historyHead (info : Info) (now : Micros) : List Char :=
  "\x7b\"schema\":1,\"boot_id\":\"".toList ++ hex16 info.bootId ++ "\",\"device_uptime_ms\":".toList ++
    digits (now.val / 1000) ++ ",\"capacity\":".toList ++ digits powerLogCapacity ++
    ",\"oldest_seq\":".toList ++ digits info.oldestSeq.toNat ++
    ",\"latest_seq\":".toList ++ digits info.latestSeq.toNat ++ ",\"samples\":[".toList

/- The rows, each behind a comma but the first; `send k` is the result of the k-th send. -/
def sendRows (send : Nat → EspErr) :
    (chunks : List (List Char)) → (first : Bool) → List Sample → List (List Char) × EspErr
  | chunks, _, [] => (chunks,espOk)
  | chunks, first, row :: rows =>
    let text := powerLogJson row 512
    if text = [] then (chunks,espFail)
    else if !first ∧ send chunks.length ≠ espOk then (chunks,espFail)
    else
      let chunks := if first then chunks else chunks ++ [[',']]
      if send chunks.length ≠ espOk then (chunks,espFail)
      else sendRows send (chunks ++ [text]) false rows

def sendHistory (send : Nat → EspErr) (head : List Char) (rows : List Sample) :
    List (List Char) × EspErr :=
  if send 0 ≠ espOk then ([],send 0)
  else
    match sendRows send [head] true rows with
    | (chunks,err) =>
      if err ≠ espOk then (chunks,espFail)
      else if send chunks.length ≠ espOk then (chunks,espFail)
      else
        let chunks := chunks ++ ["]\x7d".toList]
        if send chunks.length ≠ espOk then (chunks,send chunks.length) else (chunks ++ [[]],espOk)

/- `info` is taken from `log`; `logAt seq` is the ring when the loop asks for `seq`. -/
def hPowerHistory (q : UrlQuery) (log : Option Log) (logAt : UInt32 → Option Log) (now : Micros)
    (send : Nat → EspErr) : Reply :=
  match historyParams q with
  | .error message => .sendErr message
  | .ok (after,limit) =>
    match powerLogInfo log with
    | none => .json "503 Service Unavailable" "\x7b\"error\":\"battery history unavailable\"\x7d"
    | some info =>
      let start := firstSeq after info.oldestSeq info.latestSeq
      let rows := readPage (fun seq => powerLogGet seq (logAt seq)) info.latestSeq 4294967296 start
        limit.toNat
      let sent := sendHistory send (historyHead info now) rows
      .chunked sent.1 sent.2

def digitBytes (n : Nat) : List UInt8 := (digits n).map (fun c => UInt8.ofNat c.toNat)

theorem ofDigitCharsGrows {cs : List Char} {n : Nat} : n ≤ Nat.ofDigitChars 10 cs n := by
  induction cs generalizing n with
  | nil => exact Nat.le_refl n
  | cons c cs ih =>
    rw [Nat.ofDigitChars_cons]
    have := @ih (10 * n + (c.toNat - '0'.toNat))
    omega

theorem parseDigitsChars {maximum : UInt32} {cs : List Char} {n : Nat}
    (all : ∀ c ∈ cs, c.isDigit = true) (small : Nat.ofDigitChars 10 cs n ≤ maximum.toNat) :
    parseDigits maximum n (cs.map (fun c => UInt8.ofNat c.toNat)) =
      some (UInt32.ofNat (Nat.ofDigitChars 10 cs n)) := by
  induction cs generalizing n with
  | nil => rfl
  | cons c cs ih =>
    obtain ⟨digit,rest⟩ := List.forall_mem_cons.mp all
    have range : 48 ≤ c.toNat ∧ c.toNat ≤ 57 := Char.isDigit_iff_toNat.mp digit
    have byte : (UInt8.ofNat c.toNat).toNat = c.toNat :=
      UInt8.toNat_ofNat_of_lt' (show c.toNat < 256 by omega)
    have inside : ¬ (UInt8.ofNat c.toNat < 0x30 ∨ 0x39 < UInt8.ofNat c.toNat) := by
      rw [UInt8.lt_iff_toNat_lt, UInt8.lt_iff_toNat_lt, byte]
      change ¬ (c.toNat < 48 ∨ 57 < c.toNat)
      omega
    have value : (UInt8.ofNat c.toNat - 0x30).toNat = c.toNat - 48 := by
      rw [UInt8.toNat_sub_of_le _ _ (UInt8.not_lt.mp (fun low => inside (.inl low))), byte]
      rfl
    have next : 10 * n + (c.toNat - '0'.toNat) = n * 10 + (c.toNat - 48) := by
      rw [Nat.mul_comm]
      rfl
    rw [Nat.ofDigitChars_cons, next] at small ⊢
    have grows := @ofDigitCharsGrows cs (n * 10 + (c.toNat - 48))
    rw [List.map_cons, parseDigits, if_neg inside, value, if_neg (by omega), ih rest small]

theorem parseUintDigits {maximum n : UInt32} (small : n ≤ maximum) :
    powerLogParseUint (digitBytes n.toNat) maximum = some n := by
  have some : digitBytes n.toNat ≠ [] := fun none => digitsSome (List.map_eq_nil_iff.mp none)
  have same : Nat.ofDigitChars 10 (digits n.toNat) 0 = n.toNat := Nat.ofDigitChars_ten_toDigits
  have parsed := @parseDigitsChars maximum (digits n.toNat) 0 (fun _ => digitsAll)
    (by rw [same]; exact UInt32.le_iff_toNat_le.mp small)
  rw [powerLogParseUint, if_neg some, digitBytes, parsed, same, UInt32.ofNat_toNat]

theorem parseDigitsMost {maximum : UInt32} {value : List UInt8} {n : Nat} {found : UInt32}
    (small : n ≤ maximum.toNat) (parsed : parseDigits maximum n value = some found) : found ≤ maximum := by
  induction value generalizing n with
  | nil =>
    cases parsed
    rw [UInt32.le_iff_toNat_le, UInt32.toNat_ofNat_of_lt' (Nat.lt_of_le_of_lt small maximum.toNat_lt)]
    exact small
  | cons c value ih =>
    unfold parseDigits at parsed
    split at parsed
    · exact absurd parsed.symm (Option.some_ne_none found)
    · split at parsed
      · exact absurd parsed.symm (Option.some_ne_none found)
      · rename_i inside
        exact ih (Nat.le_of_not_lt inside) parsed

theorem parseUintMost {maximum found : UInt32} {value : List UInt8}
    (parsed : powerLogParseUint value maximum = some found) : found ≤ maximum := by
  unfold powerLogParseUint at parsed
  split at parsed
  · exact absurd parsed.symm (Option.some_ne_none found)
  · exact parseDigitsMost (Nat.zero_le _) parsed

theorem numberParamMost {default maximum found : UInt32} {message : String} {value : KeyValue}
    (small : default ≤ maximum) (param : numberParam default maximum message value = .ok found) :
    found ≤ maximum := by
  cases value with
  | notFound => exact Except.ok.inj param ▸ small
  | failed => simp [numberParam] at param
  | found value =>
    cases parsed : powerLogParseUint value maximum with
    | none => simp [numberParam,parsed] at param
    | some n =>
      simp only [numberParam, parsed, Except.ok.injEq] at param
      exact param ▸ parseUintMost parsed

theorem pageParamsMost {most after limit : UInt32} {message : String} {q : UrlQuery}
    (params : pageParams most message q = .ok (after,limit)) : limit ≤ most := by
  cases first : numberParam 0 0xFFFFFFFF "invalid after" (q.key "after") with
  | error e => simp [pageParams,first] at params
  | ok a =>
    cases second : numberParam most most message (q.key "limit") with
    | error e => simp [pageParams,first,second] at params
    | ok l =>
      simp only [pageParams, first, second] at params
      split at params
      · cases params
      · have same := (Prod.mk.inj (Except.ok.inj params)).2
        exact same ▸ numberParamMost (UInt32.le_refl most) second

theorem pageParamsDigits {most after limit : UInt32} {message : String} {q : UrlQuery} (small : limit ≤ most)
    (nonzero : limit ≠ 0) (first : q.key "after" = .found (digitBytes after.toNat))
    (second : q.key "limit" = .found (digitBytes limit.toNat)) :
    pageParams most message q = .ok (after,limit) := by
  have all : after ≤ 0xFFFFFFFF := UInt32.le_iff_toNat_le.mpr (Nat.le_of_lt_succ after.toNat_lt)
  simp only [pageParams,first,second,numberParam,parseUintDigits all,parseUintDigits small,if_neg nonzero]

theorem historyParamsMost {after limit : UInt32} {q : UrlQuery}
    (params : historyParams q = .ok (after,limit)) : limit.toNat ≤ 120 := by
  unfold historyParams at params
  split at params
  · cases params
    decide
  · split at params
    · cases params
    · exact UInt32.le_iff_toNat_le.mp (pageParamsMost params)

end EpskcCommissioner.PowerLog
