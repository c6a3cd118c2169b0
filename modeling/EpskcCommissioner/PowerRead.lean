import EpskcCommissioner.WifiDriver

/-! `power_read` of power.c: what one call makes of the registers of the AXP2101, and the
ranges that its values have. -/
namespace EpskcCommissioner.PowerRead
open WifiDriver (EspErr espOk)

/- `power_status_t` -/
structure PowerStatus where
  percent : Int
  battMv : Int
  vbusMv : Int
  vsysMv : Int
  pmicTempC : Int
  present : Bool
  percentEstimated : Bool
  charging : Bool
  full : Bool
  vbus : Bool
  chargeDetail : String
  rawSt1 : UInt8
  rawSt2 : UInt8
  deriving DecidableEq, Repr, Inhabited

/- What the reads of one call give; `init` is the result of `ensure_init`. -/
structure Reads where
  init : EspErr
  status1 : EspErr × UInt8
  status2 : EspErr × UInt8
  vbat : Option (UInt8 × UInt8)
  vbus : Option (UInt8 × UInt8)
  vsys : Option (UInt8 × UInt8)
  tdie : Option (UInt8 × UInt8)
  soc : Option UInt8
  deriving DecidableEq, Repr

def intMin : Int := -2147483648

/- `read_adc`: `mask` has the significant bits of the high byte. -/
def readAdc (mask : UInt8) : Option (UInt8 × UInt8) → Int
  | none => -1
  | some (high,low) => (high &&& mask).toNat * 256 + low.toNat

def chargeDetailStr (st2 : UInt8) : String :=
  ["trickle","pre-charge","constant current","constant voltage","done","not charging"].getD
    (st2 &&& 0x07).toNat "unknown"

def curve : List (Int × Int) :=
  [(4200,100),(4060,90),(3980,80),(3920,70),(3870,60),(3820,50),(3790,40),(3770,30),(3740,20),
    (3680,10),(3450,5),(3000,0)]

/- The loop over the curve: between a point and the one above it. -/
def interpolate (mv : Int) : List (Int × Int) → Int
  | (highMv,highPct) :: (lowMv,lowPct) :: rest =>
    if lowMv ≤ mv then
      let spanMv := highMv - lowMv
      let spanPct := highPct - lowPct
      lowPct + ((mv - lowMv) * spanPct + spanMv.tdiv 2).tdiv spanMv
    else interpolate mv ((lowMv,lowPct) :: rest)
  | _ => 0

def percentFromMv (mv : Int) : Int := if 4200 ≤ mv then 100 else interpolate mv curve

def unread : PowerStatus where
  percent := -1
  battMv := -1
  vbusMv := -1
  vsysMv := -1
  pmicTempC := intMin
  present := false
  percentEstimated := false
  charging := false
  full := false
  vbus := false
  chargeDetail := "unknown"
  rawSt1 := 0
  rawSt2 := 0

/- The charge: from the gauge, or from the voltage while the gauge starts again. -/
def withPercent (soc : Option UInt8) (s : PowerStatus) : PowerStatus :=
  let gaugeOk := soc.any (fun soc => soc ≤ 100)
  let soc := soc.getD 0
  if gaugeOk ∧ (0 < soc ∨ 2500 ≤ s.battMv ∧ s.battMv < 3800) then {s with percent := soc.toNat}
  else if s.vbus = false ∧ 2500 ≤ s.battMv ∧ s.battMv ≤ 4350 then
    {s with percent := percentFromMv s.battMv, percentEstimated := true}
  else s

def powerRead (r : Reads) : EspErr × PowerStatus :=
  if r.init ≠ espOk then (r.init,unread)
  else if r.status1.1 ≠ espOk then (r.status1.1,unread)
  else if r.status2.1 ≠ espOk then (r.status2.1,unread)
  else
    let st1 := r.status1.2
    let st2 := r.status2.2
    let present := st1 &&& 0x08 != 0
    let vbus := st1 &&& 0x20 != 0
    let charging := present && vbus && (st2 >>> 5) &&& 0x03 == 0x01
    let raw := readAdc 0x3f r.tdie
    let s := {unread with
      present := present
      vbus := vbus
      charging := charging
      full := present && vbus && !charging && st2 &&& 0x07 == 0x04
      chargeDetail :=
        if !present then "not connected" else if !vbus then "discharging" else chargeDetailStr st2
      rawSt1 := st1
      rawSt2 := st2
      battMv := readAdc 0x1f r.vbat
      vbusMv := readAdc 0x3f r.vbus
      vsysMv := readAdc 0x3f r.vsys
      pmicTempC := if 0 ≤ raw then 22 + (7274 - raw).tdiv 20 else intMin}
    (espOk,if present then withPercent r.soc s else s)

/- A value between its bounds, or the one that stands for none. -/
def Within (unset low high n : Int) : Prop := n = unset ∨ low ≤ n ∧ n ≤ high

structure PowerStatus.InRange (s : PowerStatus) : Prop where
  percent : Within (-1) 0 100 s.percent
  battMv : Within (-1) 0 8191 s.battMv
  vbusMv : Within (-1) 0 16383 s.vbusMv
  vsysMv : Within (-1) 0 16383 s.vsysMv
  pmicTempC : Within intMin (-433) 385 s.pmicTempC

theorem unreadInRange : unread.InRange := ⟨.inl rfl,.inl rfl,.inl rfl,.inl rfl,.inl rfl⟩

theorem readAdcRange {mask : UInt8} {high : Int} (bits : (mask.toNat : Int) * 256 + 255 ≤ high)
    (bytes : Option (UInt8 × UInt8)) : Within (-1) 0 high (readAdc mask bytes) := by
  cases bytes with
  | none => exact .inl rfl
  | some bytes =>
    obtain ⟨h,l⟩ := bytes
    have top : (h &&& mask).toNat ≤ mask.toNat := by
      rw [UInt8.toNat_and]
      exact Nat.and_le_right
    have low := l.toNat_lt
    have value : readAdc mask (some (h,l)) = (h &&& mask).toNat * 256 + l.toNat := rfl
    right
    omega

theorem betweenRange (x : Int) {span pct : Int} (low : 0 ≤ x) (high : x < span) (pos : 0 ≤ pct) :
    0 ≤ (x * pct + span.tdiv 2).tdiv span ∧ (x * pct + span.tdiv 2).tdiv span ≤ pct := by
  have half : span.tdiv 2 = span / 2 := Int.tdiv_eq_ediv_of_nonneg (by omega)
  have product : 0 ≤ x * pct := Int.mul_nonneg low pos
  have most : x * pct ≤ (span - 1) * pct := Int.mul_le_mul_of_nonneg_right (by omega) pos
  have expand : (span - 1) * pct = span * pct - pct := by rw [Int.sub_mul, Int.one_mul]
  have more : (pct + 1) * span = span * pct + span := by rw [Int.add_mul, Int.one_mul, Int.mul_comm]
  rw [half, Int.tdiv_eq_ediv_of_nonneg (by omega)]
  refine ⟨Int.ediv_nonneg (by omega) (by omega),?_⟩
  have below : (x * pct + span / 2) / span < pct + 1 :=
    Int.ediv_lt_of_lt_mul (by omega) (by rw [more]; omega)
  omega

theorem interpolateRange {mv : Int} {points : List (Int × Int)}
    (below : ∀ p ∈ points.head?, mv < p.1)
    (falling : points.Pairwise (fun p q => q.1 < p.1 ∧ q.2 ≤ p.2))
    (bounds : ∀ p ∈ points, 0 ≤ p.2 ∧ p.2 ≤ 100) :
    0 ≤ interpolate mv points ∧ interpolate mv points ≤ 100 := by
  induction points with
  | nil => exact ⟨Int.le_refl 0,Int.zero_le_ofNat 100⟩
  | cons high points ih =>
    cases points with
    | nil => exact ⟨Int.le_refl 0,Int.zero_le_ofNat 100⟩
    | cons low rest =>
      obtain ⟨highMv,highPct⟩ := high
      obtain ⟨lowMv,lowPct⟩ := low
      obtain ⟨above,later⟩ := List.pairwise_cons.mp falling
      obtain ⟨span,pct⟩ := above (lowMv,lowPct) List.mem_cons_self
      obtain ⟨top,inside⟩ := List.forall_mem_cons.mp bounds
      have bottom := inside (lowMv,lowPct) List.mem_cons_self
      have under := below (highMv,highPct) rfl
      dsimp only at span pct top bottom under
      unfold interpolate
      split
      · have between := betweenRange (mv - lowMv) (show 0 ≤ mv - lowMv by omega)
          (show mv - lowMv < highMv - lowMv by omega) (show 0 ≤ highPct - lowPct by omega)
        dsimp only
        omega
      · apply ih _ later inside
        intro p mem
        cases mem
        dsimp only
        omega

theorem percentFromMvRange (mv : Int) : 0 ≤ percentFromMv mv ∧ percentFromMv mv ≤ 100 := by
  unfold percentFromMv
  split
  · decide
  · rename_i below
    apply interpolateRange
    · intro p mem
      cases mem
      exact Int.not_le.mp below
    · decide
    · decide

theorem withPercentRange {soc : Option UInt8} {s : PowerStatus} (range : s.InRange) :
    (withPercent soc s).InRange := by
  unfold withPercent
  dsimp only
  split
  · rename_i gauge
    refine {range with percent := .inr ?_}
    have small := gauge.1
    cases soc with
    | none => exact nomatch small
    | some soc =>
      have : soc.toNat ≤ 100 := UInt8.le_iff_toNat_le.mp (of_decide_eq_true small)
      dsimp only [Option.getD]
      omega
  · split
    · exact {range with percent := .inr (percentFromMvRange _)}
    · exact range

theorem temperatureRange {raw : Int} (range : Within (-1) 0 16383 raw) :
    Within intMin (-433) 385 (if 0 ≤ raw then 22 + (7274 - raw).tdiv 20 else intMin) := by
  split
  · right
    rcases Int.le_total raw 7274 with warm | cold
    · rw [Int.tdiv_eq_ediv_of_nonneg (by omega)]
      omega
    · have turned : 7274 - raw = -(raw - 7274) := by omega
      unfold Within at range
      rw [turned, Int.neg_tdiv, Int.tdiv_eq_ediv_of_nonneg (by omega)]
      omega
  · exact .inl rfl

/- Whatever the registers have, the values of a call are in their ranges. -/
theorem powerReadInRange (r : Reads) : (powerRead r).2.InRange := by
  unfold powerRead
  split
  · exact unreadInRange
  · split
    · exact unreadInRange
    · split
      · exact unreadInRange
      · have base : PowerStatus.InRange {unread with
            battMv := readAdc 0x1f r.vbat
            vbusMv := readAdc 0x3f r.vbus
            vsysMv := readAdc 0x3f r.vsys
            pmicTempC :=
              if 0 ≤ readAdc 0x3f r.tdie then 22 + (7274 - readAdc 0x3f r.tdie).tdiv 20 else intMin} :=
          ⟨.inl rfl,readAdcRange (by decide) _,readAdcRange (by decide) _,readAdcRange (by decide) _,
            temperatureRange (readAdcRange (by decide) _)⟩
        dsimp only
        split
        · exact withPercentRange ⟨base.percent,base.battMv,base.vbusMv,base.vsysMv,base.pmicTempC⟩
        · exact ⟨base.percent,base.battMv,base.vbusMv,base.vsysMv,base.pmicTempC⟩

end EpskcCommissioner.PowerRead
