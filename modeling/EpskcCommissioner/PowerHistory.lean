import EpskcCommissioner.BatteryPage
import EpskcCommissioner.LastCells
import EpskcCommissioner.PowerLog

/-! The page that `h_power_history` sends and the page that `validate_page` takes are one: the
body is a JSON document that passes the checks, with the samples that were noted. -/
namespace EpskcCommissioner.PowerHistory
open WifiDriver (EspErr espOk espFail)
open Decimal Paging PowerRead PowerLog BatteryPage LastCells
open Json (Value text natText objText)

def numberDoc (value invalid : Int) : Value := if value = invalid then .null else .int value

def rowDoc (s : PowerLog.Sample) : Value :=
  .obj [("seq".toList,.int (.ofNat s.seq.toNat)),("uptime_ms".toList,.int (.ofNat s.uptimeMs)),
    ("valid".toList,.bool s.valid),("percent".toList,numberDoc s.percent.toInt (-1)),
    ("batt_mv".toList,numberDoc s.battMv.toInt (-1)),("vbus_mv".toList,numberDoc s.vbusMv.toInt (-1)),
    ("vsys_mv".toList,numberDoc s.vsysMv.toInt (-1)),
    ("pmic_temp_c".toList,numberDoc s.pmicTempC.toInt (-32768)),("present".toList,.bool s.present),
    ("usb".toList,.bool s.usb),("charging".toList,.bool s.charging),("full".toList,.bool s.full),
    ("estimated".toList,.bool s.estimated),
    ("screen_percent".toList,.int (.ofNat s.screenPercent.toNat)),
    ("raw_st1".toList,.int (.ofNat s.rawSt1.toNat)),("raw_st2".toList,.int (.ofNat s.rawSt2.toNat))]

def pageDoc (info : Info) (now : Micros) (rows : List PowerLog.Sample) : Value :=
  .obj [("schema".toList,.int 1),("boot_id".toList,.str (hex16 info.bootId)),
    ("device_uptime_ms".toList,.int (.ofNat (now.val / 1000))),
    ("capacity".toList,.int (.ofNat powerLogCapacity)),
    ("oldest_seq".toList,.int (.ofNat info.oldestSeq.toNat)),
    ("latest_seq".toList,.int (.ofNat info.latestSeq.toNat)),("samples".toList,.arr (rows.map rowDoc))]

theorem numberText (value invalid : Int) : text (numberDoc value invalid) = number value invalid := by
  unfold numberDoc number
  split
  · rfl
  · rfl

theorem boolText (b : Bool) : text (.bool b) = bool b := by
  cases b <;> rfl

set_option maxRecDepth 8000 in
theorem rowDocText (s : PowerLog.Sample) : text (rowDoc s) = rowText s := by
  unfold rowDoc rowText
  simp only [objText,List.map_cons,List.map_nil,numberText,boolText,natText,List.intercalate_cons_cons,
    List.intercalate_singleton,List.append_assoc,List.cons_append,List.nil_append]
  rfl

theorem hexDigit : ∀ n < 16, isHex (Nat.digitChar n) = true ∧ Nat.digitChar n ≠ '"' ∧
    Nat.digitChar n ≠ '\\' ∧ 0x20 ≤ (Nat.digitChar n).toNat := by decide

theorem hex16Digits {n : UInt64} {c : Char} (mem : c ∈ hex16 n) :
    isHex c = true ∧ c ≠ '"' ∧ c ≠ '\\' ∧ 0x20 ≤ c.toNat := by
  obtain ⟨i,_,rfl⟩ := List.mem_map.mp mem
  exact hexDigit _ (Nat.mod_lt _ (by decide))

theorem hex16BootId (n : UInt64) : isBootId (hex16 n) = true := by
  have long : (hex16 n).length = 16 := by rw [hex16, List.length_map, List.length_range]
  have hex : (hex16 n).all isHex = true := List.all_eq_true.mpr (fun _ mem => (hex16Digits mem).1)
  rw [isBootId, long, hex]
  rfl

theorem hex16Text (n : UInt64) : text (.str (hex16 n)) = '"' :: (hex16 n ++ ['"']) :=
  Json.quotedPlain (fun _ mem => (hex16Digits mem).2)

theorem arrText (rows : List PowerLog.Sample) :
    text (.arr (rows.map rowDoc)) = '[' :: ([','].intercalate (rows.map rowText) ++ [']']) := by
  have parts : (rows.map rowDoc).map text = rows.map rowText := by
    rw [List.map_map]
    exact List.map_congr_left (fun s _ => rowDocText s)
  rw [text, Json.textsMap, parts]

set_option maxRecDepth 8000 in
theorem pageDocText (info : Info) (now : Micros) (rows : List PowerLog.Sample) :
    text (pageDoc info now rows) =
      historyHead info now ++ [','].intercalate (rows.map rowText) ++ "]\x7d".toList := by
  unfold pageDoc historyHead
  simp only [objText,List.map_cons,List.map_nil,arrText,hex16Text,natText,List.intercalate_cons_cons,
    List.intercalate_singleton,List.append_assoc,List.cons_append,List.nil_append]
  rfl

def measured (value invalid : Int) : Option Int := if value = invalid then none else some value

theorem measurementDoc {value invalid low high : Int} (range : Within invalid low high value) :
    measurement low high (some (numberDoc value invalid)) = some (measured value invalid) := by
  unfold numberDoc measured
  split
  · rfl
  · rename_i other
    exact if_pos (range.resolve_left other)

def seen (s : PowerLog.Sample) : BatteryPage.Sample where
  seq := s.seq.toNat
  uptimeMs := s.uptimeMs
  valid := s.valid
  percent := measured s.percent.toInt (-1)
  battMv := measured s.battMv.toInt (-1)
  vbusMv := measured s.vbusMv.toInt (-1)
  vsysMv := measured s.vsysMv.toInt (-1)
  pmicTempC := measured s.pmicTempC.toInt (-32768)
  present := s.present
  usb := s.usb
  charging := s.charging
  full := s.full
  estimated := s.estimated
  screenPercent := s.screenPercent.toNat
  rawSt1 := s.rawSt1.toNat
  rawSt2 := s.rawSt2.toNat

/- The ranges that a row in the log has, so that its measurements pass the checks. -/
structure RowInRange (s : PowerLog.Sample) : Prop where
  percent : Within (-1) 0 100 s.percent.toInt
  battMv : Within (-1) 0 32767 s.battMv.toInt
  vbusMv : Within (-1) 0 32767 s.vbusMv.toInt
  vsysMv : Within (-1) 0 32767 s.vsysMv.toInt
  pmicTempC : Within (-32768) (-32767) 32767 s.pmicTempC.toInt
  screenPercent : s.screenPercent.toNat ≤ 100

theorem naturalDoc {low high n : Nat} (inside : low ≤ n ∧ n ≤ high) :
    natural low high (some (.int (.ofNat n))) = some n := if_pos inside

theorem validateRowDoc {oldest latest uptime previous : Nat} {s : PowerLog.Sample}
    (range : RowInRange s) (after : previous < s.seq.toNat) (first : oldest ≤ s.seq.toNat)
    (last : s.seq.toNat ≤ latest) (time : s.uptimeMs ≤ uptime) :
    validateRow oldest latest uptime previous (rowDoc s) = .ok (seen s) := by
  have seq : natural (max (previous + 1) oldest) latest ((rowDoc s).get? "seq") = some s.seq.toNat :=
    naturalDoc ⟨by omega,last⟩
  have uptimeMs : natural 0 uptime ((rowDoc s).get? "uptime_ms") = some s.uptimeMs :=
    naturalDoc ⟨Nat.zero_le _,time⟩
  have percent : measurement 0 100 ((rowDoc s).get? "percent") = some _ := measurementDoc range.percent
  have batt : measurement 0 32767 ((rowDoc s).get? "batt_mv") = some _ := measurementDoc range.battMv
  have vbus : measurement 0 32767 ((rowDoc s).get? "vbus_mv") = some _ := measurementDoc range.vbusMv
  have vsys : measurement 0 32767 ((rowDoc s).get? "vsys_mv") = some _ := measurementDoc range.vsysMv
  have temp : measurement (-32767) 32767 ((rowDoc s).get? "pmic_temp_c") = some _ :=
    measurementDoc range.pmicTempC
  have screen : natural 0 100 ((rowDoc s).get? "screen_percent") = some s.screenPercent.toNat :=
    naturalDoc ⟨Nat.zero_le _,range.screenPercent⟩
  have st1 : natural 0 255 ((rowDoc s).get? "raw_st1") = some s.rawSt1.toNat :=
    naturalDoc ⟨Nat.zero_le _,Nat.le_of_lt_succ s.rawSt1.toNat_lt⟩
  have st2 : natural 0 255 ((rowDoc s).get? "raw_st2") = some s.rawSt2.toNat :=
    naturalDoc ⟨Nat.zero_le _,Nat.le_of_lt_succ s.rawSt2.toNat_lt⟩
  have all : sampleFields.all (fun field => ((rowDoc s).get? field).isSome) = true := rfl
  have flags : flag ((rowDoc s).get? "valid") = some s.valid ∧
      flag ((rowDoc s).get? "present") = some s.present ∧ flag ((rowDoc s).get? "usb") = some s.usb ∧
      flag ((rowDoc s).get? "charging") = some s.charging ∧
      flag ((rowDoc s).get? "full") = some s.full ∧
      flag ((rowDoc s).get? "estimated") = some s.estimated := ⟨rfl,rfl,rfl,rfl,rfl,rfl⟩
  obtain ⟨valid,present,usb,charging,full,estimated⟩ := flags
  simp only [validateRow,all,seq,uptimeMs,valid,present,usb,charging,full,estimated,percent,batt,vbus,
    vsys,temp,screen,st1,st2,check,require,if_true,bind,Except.bind]
  rfl

theorem validateRowsDoc {oldest latest uptime previous : Nat} {rows : List PowerLog.Sample}
    (ordered : rows.Pairwise (fun s t => s.seq.toNat < t.seq.toNat))
    (after : ∀ s ∈ rows, previous < s.seq.toNat)
    (valid : ∀ s ∈ rows, RowInRange s ∧ oldest ≤ s.seq.toNat ∧ s.seq.toNat ≤ latest ∧ s.uptimeMs ≤ uptime) :
    validateRows oldest latest uptime previous (rows.map rowDoc) = .ok (rows.map seen) := by
  induction rows generalizing previous with
  | nil => rfl
  | cons s rows ih =>
    obtain ⟨range,first,last,time⟩ := valid s List.mem_cons_self
    obtain ⟨behind,rest⟩ := List.pairwise_cons.mp ordered
    have here := validateRowDoc range (after s List.mem_cons_self) first last time
    have later : validateRows oldest latest uptime (seen s).seq (rows.map rowDoc) =
        .ok (rows.map seen) :=
      ih rest behind (fun t mem => valid t (List.mem_cons_of_mem _ mem))
    simp only [List.map_cons,validateRows,here,later,bind,Except.bind]

def seenPage (info : Info) (now : Micros) (rows : List PowerLog.Sample) : Page where
  bootId := .text (hex16 info.bootId)
  oldestSeq := info.oldestSeq.toNat
  latestSeq := info.latestSeq.toNat
  capacity := powerLogCapacity
  deviceUptimeMs := now.val / 1000
  samples := rows.map seen

theorem validatePageDoc {info : Info} {now : Micros} {rows : List PowerLog.Sample}
    (bounds : info.oldestSeq.toNat ≤ info.latestSeq.toNat) (count : rows.length ≤ 120)
    (ordered : rows.Pairwise (fun s t => s.seq.toNat < t.seq.toNat))
    (valid : ∀ s ∈ rows, RowInRange s ∧ 0 < s.seq.toNat ∧ info.oldestSeq.toNat ≤ s.seq.toNat ∧
      s.seq.toNat ≤ info.latestSeq.toNat ∧ s.uptimeMs ≤ now.val / 1000) :
    validatePage (pageDoc info now rows) = .ok (seenPage info now rows) := by
  have schema : isOne ((pageDoc info now rows).get? "schema") = true := rfl
  have boot : bootId ((pageDoc info now rows).get? "boot_id") = some (.text (hex16 info.bootId)) :=
    if_pos (hex16BootId _)
  have oldest : natural 0 u32Max ((pageDoc info now rows).get? "oldest_seq") = some info.oldestSeq.toNat :=
    naturalDoc ⟨Nat.zero_le _,Nat.le_of_lt_succ info.oldestSeq.toNat_lt⟩
  have latest : natural 0 u32Max ((pageDoc info now rows).get? "latest_seq") = some info.latestSeq.toNat :=
    naturalDoc ⟨Nat.zero_le _,Nat.le_of_lt_succ info.latestSeq.toNat_lt⟩
  have capacity : natural 0 u32Max ((pageDoc info now rows).get? "capacity") = some powerLogCapacity := rfl
  have uptime : natural 0 (2 ^ 63 - 1) ((pageDoc info now rows).get? "device_uptime_ms") =
      some (now.val / 1000) := by
    refine naturalDoc ⟨Nat.zero_le _,?_⟩
    have := now.isLt
    omega
  have samples : rowList ((pageDoc info now rows).get? "samples") = some (rows.map rowDoc) :=
    if_pos (by rw [List.length_map]; exact count)
  have inOrder : (info.oldestSeq.toNat ≤ info.latestSeq.toNat && powerLogCapacity != 0) = true := by
    rw [decide_eq_true bounds]
    rfl
  have checked : validateRows info.oldestSeq.toNat info.latestSeq.toNat (now.val / 1000) 0
      (rows.map rowDoc) = .ok (rows.map seen) :=
    validateRowsDoc ordered (fun s mem => (valid s mem).2.1)
      (fun s mem => ⟨(valid s mem).1,(valid s mem).2.2⟩)
  simp only [validatePage,schema,boot,oldest,latest,capacity,uptime,samples,inOrder,checked,check,require,
    if_true,bind,Except.bind]
  rfl

/- The log after these calls, from `power_log_init` on. -/
def noted (bootId : UInt64) (notes : List Note) : Log :=
  notes.foldl (fun log n => powerLogNote n log) ⟨fun _ => zeroSample,bootId,0,0⟩

def rowAt (n : Note) (seq : Nat) : PowerLog.Sample := {noteRow n with seq := UInt32.ofNat seq}

structure Holds (bootId : UInt64) (notes : List Note) (log : Log) : Prop where
  bootId : log.bootId = bootId
  latest : log.latest.toNat = notes.length
  count : log.count.toNat = min notes.length powerLogCapacity
  stored : ∀ i n, notes[i]? = some n → notes.length ≤ i + powerLogCapacity →
    log.samples (slot (UInt32.ofNat (i + 1))) = rowAt n (i + 1)

theorem notedAppend (bootId : UInt64) (notes : List Note) (n : Note) :
    noted bootId (notes ++ [n]) = powerLogNote n (noted bootId notes) := by
  rw [noted, List.foldl_append]
  rfl

theorem ofNatSucc {i : Nat} (small : i + 1 < 4294967296) : (UInt32.ofNat (i + 1)).toNat = i + 1 :=
  UInt32.toNat_ofNat_of_lt' small

instance : NeZero powerLogCapacity := ⟨by decide⟩

theorem slotOf {i : Nat} (small : i + 1 < 4294967296) :
    slot (UInt32.ofNat (i + 1)) = Fin.ofNat powerLogCapacity i := by
  have one : (1 : UInt32) ≤ UInt32.ofNat (i + 1) := by
    rw [UInt32.le_iff_toNat_le, ofNatSucc small]
    exact Nat.le_add_left 1 i
  have back : (UInt32.ofNat (i + 1) - 1).toNat = i := by
    rw [UInt32.toNat_sub_of_le _ _ one, ofNatSucc small]
    rfl
  exact Fin.ext (congrArg (· % powerLogCapacity) back)

theorem holdsNote {bootId : UInt64} {notes : List Note} {log : Log} (few : notes.length + 1 < 4294967296)
    (before : Holds bootId notes log) (last : HoldsLast log.samples (notes.mapIdx (fun i n => rowAt n (i + 1))))
    (n : Note) : (powerLogNote n log).latest.toNat = notes.length + 1 ∧
      (powerLogNote n log).count.toNat = min (notes.length + 1) powerLogCapacity ∧
      HoldsLast (powerLogNote n log).samples ((notes ++ [n]).mapIdx (fun i n => rowAt n (i + 1))) := by
  obtain ⟨_,latest,count,_⟩ := before
  have capacity : powerLogCapacity = 8640 := rfl
  have number : log.latest + 1 = UInt32.ofNat (notes.length + 1) := by
    apply UInt32.toNat_inj.mp
    rw [UInt32.toNat_add, latest, ofNatSucc few]
    exact Nat.mod_eq_of_lt few
  refine ⟨?_,?_,?_⟩
  · rw [← ofNatSucc few, ← number]
    rfl
  · have limit : (8640 : UInt32).toNat = 8640 := rfl
    unfold powerLogNote
    dsimp only
    split
    · rename_i room
      have small := UInt32.lt_iff_toNat_lt.mp room
      rw [UInt32.toNat_add, UInt32.toNat_one, Nat.mod_eq_of_lt (by omega)]
      omega
    · rename_i full
      have small := UInt32.le_iff_toNat_le.mp (UInt32.not_lt.mp full)
      omega
  · have next := holdsLastStore last (rowAt n (notes.length + 1))
    rw [List.length_mapIdx, ← slotOf few] at next
    rw [List.mapIdx_append, List.mapIdx_singleton, Nat.zero_add]
    unfold powerLogNote
    dsimp only
    rw [number]
    exact next

/- After fewer than 2^32 calls the ring has the last notes, each under its own number. -/
theorem notedLast (bootId : UInt64) {notes : List Note} (few : notes.length < 4294967296) :
    Holds bootId notes (noted bootId notes) ∧
      HoldsLast (noted bootId notes).samples (notes.mapIdx (fun i n => rowAt n (i + 1))) := by
  induction notes using List.reverseRecOn with
  | nil => exact ⟨⟨rfl,rfl,rfl,fun i n found => absurd found (Option.some_ne_none n).symm⟩,holdsLastNil _⟩
  | append_singleton notes n ih =>
    rw [List.length_append, List.length_singleton] at few
    obtain ⟨before,last⟩ := ih (by omega)
    obtain ⟨latest,count,next⟩ := holdsNote few before last n
    rw [← notedAppend] at latest count next
    refine ⟨⟨?_,?_,?_,fun i m found recent => ?_⟩,next⟩
    · rw [notedAppend]
      exact before.bootId
    · rw [List.length_append, List.length_singleton]
      exact latest
    · rw [List.length_append, List.length_singleton]
      exact count
    · obtain ⟨inside,_⟩ := List.getElem?_eq_some_iff.mp found
      rw [List.length_append, List.length_singleton] at inside
      rw [slotOf (by omega)]
      refine next i _ ?_ (by rw [List.length_mapIdx]; exact recent)
      rw [List.getElem?_mapIdx, found]
      rfl

theorem notedHolds (bootId : UInt64) {notes : List Note} (few : notes.length < 4294967296) :
    Holds bootId notes (noted bootId notes) := (notedLast bootId few).1

/- A sample as it was noted: every measurement but those that were not available. -/
def expected (n : Note) (seq : Nat) : BatteryPage.Sample :=
  let valid := n.result == espOk
  let available := fun value unset => if valid ∧ value ≠ unset then some value else none
  { seq := seq
    uptimeMs := n.micros.val / 1000
    valid := valid
    percent := available n.status.percent (-1)
    battMv := available n.status.battMv (-1)
    vbusMv := available n.status.vbusMv (-1)
    vsysMv := available n.status.vsysMv (-1)
    pmicTempC := available n.status.pmicTempC intMin
    present := valid && n.status.present
    usb := valid && n.status.vbus
    charging := valid && n.status.charging
    full := valid && n.status.full
    estimated := valid && n.status.percentEstimated
    screenPercent := min n.screenPercent.toNat 100
    rawSt1 := if valid then n.status.rawSt1.toNat else 0
    rawSt2 := if valid then n.status.rawSt2.toNat else 0 }

def retained (notes : List Note) : List BatteryPage.Sample :=
  (notes.mapIdx (fun i n => expected n (i + 1))).drop (notes.length - powerLogCapacity)

theorem narrow {value unset low high : Int} (range : Within unset low high value) (below : -32768 ≤ unset)
    (unsetSmall : unset ≤ 32767) (lowBound : -32768 ≤ low) (highBound : high ≤ 32767) :
    (Int16.ofInt value).toInt = value := by
  unfold Within at range
  exact Int16.toInt_ofInt_of_le (by omega) (by omega)

section
variable {value high : Int} (valid : Bool)

theorem valueWithin (range : Within (-1) 0 high value) :
    Within (-1) 0 high (if valid then value else -1) := by
  cases valid with
  | false => exact .inl rfl
  | true => exact range

theorem valueKept (range : Within (-1) 0 high value) (small : high ≤ 32767) :
    (Int16.ofInt (if valid then value else -1)).toInt = if valid then value else -1 :=
  narrow (valueWithin valid range) (by decide) (by decide) (by decide) small

theorem valueMeasured : measured (if valid then value else -1) (-1) =
    if valid ∧ value ≠ -1 then some value else none := by
  unfold measured
  cases valid with
  | false => rfl
  | true =>
    by_cases unset : value = -1
    · simp [unset]
    · simp [unset]

theorem temperatureWithin (range : Within intMin (-433) 385 value) :
    Within (-32768) (-433) 385 (if valid ∧ value ≠ intMin then value else -32768) := by
  split
  · rename_i available
    exact .inr (range.resolve_left available.2)
  · exact .inl rfl

theorem temperatureKept (range : Within intMin (-433) 385 value) :
    (Int16.ofInt (if valid ∧ value ≠ intMin then value else -32768)).toInt =
      if valid ∧ value ≠ intMin then value else -32768 :=
  narrow (temperatureWithin valid range) (by decide) (by decide) (by decide) (by decide)

theorem temperatureMeasured (range : Within intMin (-433) 385 value) :
    measured (if valid ∧ value ≠ intMin then value else -32768) (-32768) =
      if valid ∧ value ≠ intMin then some value else none := by
  unfold measured
  split
  · rename_i available
    have inside := range.resolve_left available.2
    exact if_neg (by omega)
  · exact if_pos rfl

theorem withinMore {unset low high more : Int} (range : Within unset low high value) (wider : high ≤ more) :
    Within unset low more value :=
  range.imp id (fun inside => ⟨inside.1,Int.le_trans inside.2 wider⟩)

end

theorem screenClamped (screen : UInt32) :
    (if 100 < screen then 100 else screen).toUInt8.toNat = min screen.toNat 100 := by
  have hundred : (100 : UInt32).toNat = 100 := rfl
  split
  · rename_i above
    have := UInt32.lt_iff_toNat_lt.mp above
    have clamped : (100 : UInt32).toUInt8.toNat = 100 := rfl
    omega
  · rename_i within
    have := UInt32.le_iff_toNat_le.mp (UInt32.not_lt.mp within)
    rw [UInt32.toNat_toUInt8]
    omega

theorem rowInRange {n : Note} (range : n.status.InRange) (seq : Nat) : RowInRange (rowAt n seq) := by
  let valid := n.result == espOk
  have temperature : Within (-32768) (-32767) 32767
      (if valid ∧ n.status.pmicTempC ≠ intMin then n.status.pmicTempC else -32768) :=
    (temperatureWithin valid range.pmicTempC).imp id (fun inside => ⟨by omega,by omega⟩)
  constructor
  · exact valueKept valid range.percent (by decide) ▸ valueWithin valid range.percent
  · exact valueKept valid range.battMv (by decide) ▸ withinMore (valueWithin valid range.battMv) (by decide)
  · exact valueKept valid range.vbusMv (by decide) ▸ withinMore (valueWithin valid range.vbusMv) (by decide)
  · exact valueKept valid range.vsysMv (by decide) ▸ withinMore (valueWithin valid range.vsysMv) (by decide)
  · exact temperatureKept valid range.pmicTempC ▸ temperature
  · exact (screenClamped n.screenPercent).trans_le (Nat.min_le_right _ _)

theorem seenRow {n : Note} (range : n.status.InRange) {i : Nat} (small : i + 1 < 4294967296) :
    seen (rowAt n (i + 1)) = expected n (i + 1) := by
  have register : ∀ b (x : UInt8), (if b = true then x else 0).toNat = if b = true then x.toNat else 0 := by
    intro b x
    cases b <;> rfl
  simp only [seen,rowAt,noteRow,expected,BatteryPage.Sample.mk.injEq]
  refine ⟨ofNatSucc small,trivial,trivial,?_,?_,?_,?_,?_,trivial,trivial,trivial,trivial,trivial,
    screenClamped _,register _ _,register _ _⟩
  · rw [valueKept _ range.percent (by decide), valueMeasured]
  · rw [valueKept _ range.battMv (by decide), valueMeasured]
  · rw [valueKept _ range.vbusMv (by decide), valueMeasured]
  · rw [valueKept _ range.vsysMv (by decide), valueMeasured]
  · rw [temperatureKept _ range.pmicTempC, temperatureMeasured _ range.pmicTempC]

theorem getNoted {bootId : UInt64} {notes : List Note} (few : notes.length < 4294967296) {i : Nat}
    {n : Note} (found : notes[i]? = some n) :
    powerLogGet (UInt32.ofNat (i + 1)) (some (noted bootId notes)) =
      if notes.length ≤ i + powerLogCapacity then some (rowAt n (i + 1)) else none := by
  have holds := notedHolds bootId few
  have inside := (List.getElem?_eq_some_iff.mp found).1
  have number := ofNatSucc (show i + 1 < 4294967296 by omega)
  have capacity : powerLogCapacity = 8640 := rfl
  have countLe : (noted bootId notes).count ≤ (noted bootId notes).latest := by
    rw [UInt32.le_iff_toNat_le, holds.count, holds.latest]
    omega
  have low : ((noted bootId notes).latest - (noted bootId notes).count).toNat =
      notes.length - min notes.length powerLogCapacity := by
    rw [UInt32.toNat_sub_of_le _ _ countLe, holds.latest, holds.count]
  have nonzero : UInt32.ofNat (i + 1) ≠ 0 := by
    intro zero
    rw [zero] at number
    exact absurd number (by simp)
  unfold powerLogGet
  dsimp only
  split
  · rename_i kept
    have above := UInt32.lt_iff_toNat_lt.mp kept.2.2
    rw [low, number] at above
    have recent : notes.length ≤ i + powerLogCapacity := by omega
    rw [if_pos recent, holds.stored i n found recent]
  · rename_i gone
    rw [if_neg]
    intro recent
    apply gone
    refine ⟨nonzero,?_,?_⟩
    · rw [UInt32.le_iff_toNat_le, number, holds.latest]
      omega
    · rw [UInt32.lt_iff_toNat_lt, low, number]
      omega

theorem mapIdxRange {α β : Type} [Inhabited α] (f : α → Nat → β) (xs : List α) :
    xs.mapIdx (fun i x => f x (i + 1)) =
      (List.range' 1 xs.length).map (fun s => f (xs.getD (s - 1) default) s) := by
  apply List.ext_getElem
  · simp
  · intro i mapped _
    rw [List.length_mapIdx] at mapped
    have number : 1 + 1 * i = i + 1 := by omega
    rw [List.getElem_mapIdx, List.getElem_map, List.getElem_range', number, Nat.add_sub_cancel,
      List.getD_eq_getElem?_getD, List.getElem?_eq_getElem mapped]
    rfl

/- The numbers of the page behind `after`. -/
def wanted (notes : List Note) (after : Nat) : List Nat :=
  (List.range' 1 notes.length).filter
    (fun s => max (after + 1) (notes.length - powerLogCapacity + 1) ≤ s)

theorem retainedAfter (notes : List Note) (after : Nat) :
    (retained notes).filter (fun s => after < s.seq) =
      (wanted notes after).map (fun s => expected (notes.getD (s - 1) default) s) := by
  have both : (fun s => decide (max (after + 1) (notes.length - powerLogCapacity + 1) ≤ s)) =
      fun s => decide (after < s) && decide (notes.length - powerLogCapacity + 1 ≤ s) := by
    funext s
    rw [← Bool.decide_and]
    congr 1
    exact propext ⟨fun h => ⟨by omega,by omega⟩,fun ⟨h,k⟩ => by omega⟩
  have dropped : (List.range' 1 notes.length).drop (notes.length - powerLogCapacity) =
      (List.range' 1 notes.length).filter (fun s => notes.length - powerLogCapacity + 1 ≤ s) := by
    have start : 1 + (notes.length - powerLogCapacity) * 1 = (notes.length - powerLogCapacity).succ := by
      omega
    have long : notes.length - (notes.length - powerLogCapacity) =
        notes.length + 1 - (notes.length - powerLogCapacity).succ := by omega
    rw [rangeFrom (Nat.succ_pos _), List.drop_range', start, long]
  rw [retained, mapIdxRange, ← List.map_drop, dropped, List.filter_map, wanted, both,
    ← List.filter_filter]
  rfl

end EpskcCommissioner.PowerHistory
