import EpskcCommissioner.Json

/-! A page of `/power/history` as `validate_page` of battery_record.py takes it: its checks in
their order, with their errors, and what a page that passes holds. -/
namespace EpskcCommissioner.BatteryPage
open Decimal Json

/- The value that the check compares and the recorder keeps: `str()` of it is what must look
like a boot ID. -/
inductive BootId where
  | text (s : List Char)
  | number (n : Int)
  deriving DecidableEq, Repr

def BootId.shown : BootId → List Char
  | .text s => s
  | .number n => signed n

structure Sample where
  seq : Nat
  uptimeMs : Nat
  valid : Bool
  percent : Option Int
  battMv : Option Int
  vbusMv : Option Int
  vsysMv : Option Int
  pmicTempC : Option Int
  present : Bool
  usb : Bool
  charging : Bool
  full : Bool
  estimated : Bool
  screenPercent : Nat
  rawSt1 : Nat
  rawSt2 : Nat
  deriving DecidableEq, Repr

structure Page where
  bootId : BootId
  oldestSeq : Nat
  latestSeq : Nat
  capacity : Nat
  deviceUptimeMs : Nat
  samples : List Sample
  deriving DecidableEq, Repr

def sampleFields : List String :=
  ["seq","uptime_ms","valid","percent","batt_mv","vbus_mv","vsys_mv","pmic_temp_c","present","usb",
    "charging","full","estimated","screen_percent","raw_st1","raw_st2"]

def u32Max : Nat := 0xFFFFFFFF

/- `integer`, where the lower bound is no less than zero. -/
def natural (lower upper : Nat) : Option Value → Option Nat
  | some (.int (.ofNat n)) => if lower ≤ n ∧ n ≤ upper then some n else none
  | _ => none

def measurement (lower upper : Int) : Option Value → Option (Option Int)
  | some .null => some none
  | some (.int n) => if lower ≤ n ∧ n ≤ upper then some (some n) else none
  | _ => none

def flag : Option Value → Option Bool
  | some (.bool b) => some b
  | _ => none

/- The double nearest to the number is 1; a number halfway goes to the even one. -/
def roundsToOne (mantissa exponent : Int) : Bool :=
  if 0 ≤ exponent then mantissa * 10 ^ exponent.toNat == 1
  else
    let scale : Int := 10 ^ (-exponent).toNat
    (2 ^ 54 - 1) * scale ≤ 2 ^ 54 * mantissa && 2 ^ 53 * mantissa ≤ (2 ^ 53 + 1) * scale

/- What `== 1` takes. -/
def isOne : Option Value → Bool
  | some (.int n) => n == 1
  | some (.bool b) => b
  | some (.real mantissa exponent) => roundsToOne mantissa exponent
  | _ => false

def isHex (c : Char) : Bool := c.isDigit || ('a' ≤ c && c ≤ 'f')

def isBootId (s : List Char) : Bool := s.length == 16 && s.all isHex

/- The text of no other value has sixteen such characters. -/
def bootId : Option Value → Option BootId
  | some (.str s) => if isBootId s then some (.text s) else none
  | some (.int n) => if isBootId (signed n) then some (.number n) else none
  | _ => none

def rowList : Option Value → Option (List Value)
  | some (.arr rows) => if rows.length ≤ 120 then some rows else none
  | _ => none

def check {α : Type} (message : String) : Option α → Except String α
  | some x => .ok x
  | none => .error message

def require (message : String) (holds : Bool) : Except String Unit :=
  if holds then .ok () else .error message

def validateRow (oldest latest uptime previous : Nat) (row : Value) : Except String Sample := do
  require "incomplete sample" (sampleFields.all (fun field => (row.get? field).isSome))
  let seq ← check "unordered or out-of-range sample"
    (natural (max (previous + 1) oldest) latest (row.get? "seq"))
  let uptimeMs ← check "invalid sample time" (natural 0 uptime (row.get? "uptime_ms"))
  let flag := fun field => check "invalid sample flag" (flag (row.get? field))
  let valid ← flag "valid"
  let present ← flag "present"
  let usb ← flag "usb"
  let charging ← flag "charging"
  let full ← flag "full"
  let estimated ← flag "estimated"
  let measured := fun field lower upper =>
    check "invalid measurement" (measurement lower upper (row.get? field))
  let percent ← measured "percent" 0 100
  let battMv ← measured "batt_mv" 0 32767
  let vbusMv ← measured "vbus_mv" 0 32767
  let vsysMv ← measured "vsys_mv" 0 32767
  let pmicTempC ← measured "pmic_temp_c" (-32767) 32767
  let register := fun field maximum =>
    check "invalid screen/register value" (natural 0 maximum (row.get? field))
  let screenPercent ← register "screen_percent" 100
  let rawSt1 ← register "raw_st1" 255
  let rawSt2 ← register "raw_st2" 255
  .ok ⟨seq,uptimeMs,valid,percent,battMv,vbusMv,vsysMv,pmicTempC,present,usb,charging,full,estimated,
    screenPercent,rawSt1,rawSt2⟩

def validateRows (oldest latest uptime : Nat) :
    (previous : Nat) → List Value → Except String (List Sample)
  | _, [] => .ok []
  | previous, row :: rows => do
    let sample ← validateRow oldest latest uptime previous row
    let samples ← validateRows oldest latest uptime sample.seq rows
    .ok (sample :: samples)

def validatePage (page : Value) : Except String Page := do
  require "unsupported history schema" (isOne (page.get? "schema"))
  let bootId ← check "invalid boot id" (bootId (page.get? "boot_id"))
  let bound := fun field => check "invalid history bounds" (natural 0 u32Max (page.get? field))
  let oldestSeq ← bound "oldest_seq"
  let latestSeq ← bound "latest_seq"
  let capacity ← bound "capacity"
  let deviceUptimeMs ← check "invalid device uptime"
    (natural 0 (2 ^ 63 - 1) (page.get? "device_uptime_ms"))
  require "inconsistent history bounds" (oldestSeq ≤ latestSeq && capacity != 0)
  let rows ← check "invalid sample count" (rowList (page.get? "samples"))
  let samples ← validateRows oldestSeq latestSeq deviceUptimeMs 0 rows
  .ok ⟨bootId,oldestSeq,latestSeq,capacity,deviceUptimeMs,samples⟩

structure Sample.Valid (page : Page) (s : Sample) : Prop where
  positive : 0 < s.seq
  oldest : page.oldestSeq ≤ s.seq
  latest : s.seq ≤ page.latestSeq
  uptime : s.uptimeMs ≤ page.deviceUptimeMs
  measurements : ∀ m ∈ [s.percent,s.battMv,s.vbusMv,s.vsysMv,s.pmicTempC], ∀ n ∈ m,
    -32767 ≤ n ∧ n ≤ 32767
  registers : ∀ r ∈ [s.screenPercent,s.rawSt1,s.rawSt2], r ≤ 255

structure Page.Valid (page : Page) : Prop where
  boot : isBootId page.bootId.shown = true
  latest : page.latestSeq ≤ u32Max
  uptime : page.deviceUptimeMs < 2 ^ 63
  count : page.samples.length ≤ 120
  samples : ∀ s ∈ page.samples, s.Valid page
  ordered : page.samples.Pairwise (fun s t => s.seq < t.seq)

theorem bindOk {ε α β : Type} {x : Except ε α} {f : α → Except ε β} {b : β} :
    x >>= f = .ok b ↔ ∃ a, x = .ok a ∧ f a = .ok b := by
  cases x with
  | error e => exact ⟨nofun,nofun⟩
  | ok a => exact ⟨fun ok => ⟨a,rfl,ok⟩,fun ⟨_,same,ok⟩ => Except.ok.inj same ▸ ok⟩

theorem checkOk {α : Type} {message : String} {o : Option α} {x : α} :
    check message o = .ok x ↔ o = some x := by
  cases o with
  | none => exact ⟨nofun,nofun⟩
  | some y => exact ⟨fun ok => congrArg some (Except.ok.inj ok),fun same => congrArg _ (Option.some.inj same)⟩

theorem requireOk {message : String} {holds : Bool} {u : Unit} :
    require message holds = .ok u ↔ holds = true := by
  cases holds with
  | false => exact ⟨nofun,nofun⟩
  | true => exact ⟨fun _ => rfl,fun _ => rfl⟩

theorem naturalBounds {lower upper n : Nat} {v : Option Value} (found : natural lower upper v = some n) :
    lower ≤ n ∧ n ≤ upper := by
  unfold natural at found
  split at found <;> try contradiction
  split at found <;> try contradiction
  cases found
  assumption

theorem measurementBounds {lower upper n : Int} {v : Option Value}
    (found : measurement lower upper v = some (some n)) : lower ≤ n ∧ n ≤ upper := by
  unfold measurement at found
  split at found
  · exact nomatch Option.some.inj found
  · split at found <;> try contradiction
    cases found
    assumption
  · contradiction

theorem bootIdShown {v : Option Value} {b : BootId} (found : bootId v = some b) :
    isBootId b.shown = true := by
  unfold bootId at found
  split at found <;> try contradiction
  all_goals
    split at found <;> try contradiction
    cases found
    assumption

theorem rowListCount {v : Option Value} {rows : List Value} (found : rowList v = some rows) :
    rows.length ≤ 120 := by
  unfold rowList at found
  split at found <;> try contradiction
  split at found <;> try contradiction
  cases found
  assumption

theorem validateRowValid {page : Page} {previous : Nat} {row : Value} {s : Sample}
    (ok : validateRow page.oldestSeq page.latestSeq page.deviceUptimeMs previous row = .ok s) :
    previous < s.seq ∧ s.Valid page := by
  simp only [validateRow,bindOk,checkOk,requireOk] at ok
  obtain ⟨_,_,seq,seqIn,uptime,uptimeIn,valid,_,present,_,usb,_,charging,_,full,_,estimated,_,
    percent,percentIn,batt,battIn,vbus,vbusIn,vsys,vsysIn,temp,tempIn,screen,screenIn,st1,st1In,
    st2,st2In,same⟩ := ok
  cases same
  have seqBounds := naturalBounds seqIn
  refine ⟨by dsimp only; omega,⟨by dsimp only; omega,by dsimp only; omega,seqBounds.2,
    (naturalBounds uptimeIn).2,?_,?_⟩⟩
  · simp only [List.forall_mem_cons,Option.mem_def]
    refine ⟨?_,?_,?_,?_,?_,nofun⟩
    · rintro n rfl
      have := measurementBounds percentIn
      omega
    · rintro n rfl
      have := measurementBounds battIn
      omega
    · rintro n rfl
      have := measurementBounds vbusIn
      omega
    · rintro n rfl
      have := measurementBounds vsysIn
      omega
    · rintro n rfl
      exact measurementBounds tempIn
  · simp only [List.forall_mem_cons]
    exact ⟨Nat.le_trans (naturalBounds screenIn).2 (by decide),(naturalBounds st1In).2,
      (naturalBounds st2In).2,nofun⟩

theorem validateRowsValid (page : Page) {previous : Nat} {rows : List Value} {samples : List Sample}
    (ok : validateRows page.oldestSeq page.latestSeq page.deviceUptimeMs previous rows = .ok samples) :
    samples.length = rows.length ∧ (∀ s ∈ samples, previous < s.seq ∧ s.Valid page) ∧
      samples.Pairwise (fun s t => s.seq < t.seq) := by
  induction rows generalizing previous samples with
  | nil =>
    rw [validateRows] at ok
    cases ok
    exact ⟨rfl,List.forall_mem_nil _,List.Pairwise.nil⟩
  | cons row rows ih =>
    simp only [validateRows,bindOk] at ok
    obtain ⟨sample,first,rest,later,same⟩ := ok
    cases same
    obtain ⟨count,valid,ordered⟩ := ih later
    obtain ⟨after,here⟩ := validateRowValid first
    refine ⟨congrArg Nat.succ count,List.forall_mem_cons.mpr ⟨⟨after,here⟩,fun s mem => ?_⟩,
      List.pairwise_cons.mpr ⟨fun s mem => (valid s mem).1,ordered⟩⟩
    exact ⟨Nat.lt_trans after (valid s mem).1,(valid s mem).2⟩

theorem validatePageValid {v : Value} {page : Page} (ok : validatePage v = .ok page) : page.Valid := by
  simp only [validatePage,bindOk,checkOk,requireOk] at ok
  obtain ⟨_,_,boot,bootIn,oldest,_,latest,latestIn,capacity,_,uptime,uptimeIn,_,_,rows,rowsIn,
    samples,samplesIn,same⟩ := ok
  cases same
  obtain ⟨count,valid,ordered⟩ :=
    validateRowsValid ⟨boot,oldest,latest,capacity,uptime,samples⟩ samplesIn
  have uptimeBounds := naturalBounds uptimeIn
  exact ⟨bootIdShown bootIn,(naturalBounds latestIn).2,by dsimp only; omega,
    count ▸ rowListCount rowsIn,fun s mem => (valid s mem).2,ordered⟩

end EpskcCommissioner.BatteryPage
