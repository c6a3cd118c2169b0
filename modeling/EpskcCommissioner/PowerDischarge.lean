import Mathlib.Data.List.Chain
import Mathlib.Data.Rat.Floor
import Mathlib.Tactic.Linarith
import EpskcCommissioner.LastCells

/-! The discharge rate of `power.c`: a ring of twelve samples, one a minute, and beside it the
list of all samples since the history was last reset. The clock is an integer of microseconds;
the rate is computed over exact rationals. -/
namespace EpskcCommissioner.PowerDischarge
open LastCells

/- An entry of `s_hist`. -/
structure Stored where
  tUs : Int
  pct : Int
  deriving DecidableEq, Repr

/- `s_hist`, `s_hist_n` and `s_hist_head` -/
structure History where
  hist : Fin 12 → Stored
  n : Nat
  head : Fin 12
  few : n ≤ 12

def initial : History := ⟨fun _ => ⟨0,0⟩,0,0,by decide⟩

/- The slots that the code reads: the one before the next to be written, and the first. -/
def History.newest (h : History) : Fin 12 := ⟨(h.head.val + 12 - 1) % 12,Nat.mod_lt _ (by decide)⟩

def History.oldest (h : History) : Fin 12 := if h.n = 12 then h.head else 0

def History.reset (h : History) : History := {h with n := 0, head := 0, few := Nat.zero_le 12}

def History.store (s : Stored) (h : History) : History where
  hist := fun i => if i = h.head then s else h.hist i
  head := h.head + 1
  n := if h.n < 12 then h.n + 1 else h.n
  few := by
    have := h.few
    split <;> omega

/- A call of `power_note_sample`, with the time of its clock. -/
structure Poll where
  nowUs : Int
  percent : Int
  onBattery : Bool
  deriving DecidableEq, Repr

def Poll.sample (p : Poll) : Stored := ⟨p.nowUs,p.percent⟩

def Poll.invalid (p : Poll) : Prop := p.onBattery = false ∨ p.percent < 0 ∨ p.percent > 100

instance (p : Poll) : Decidable p.invalid := by
  unfold Poll.invalid
  infer_instance

/- A gap or a correction of the gauge, or a clock that has gone back. -/
def Breaks (p : Poll) (last : Stored) : Prop :=
  p.nowUs - last.tUs > 90000000 ∨ p.percent > last.pct ∨ p.nowUs - last.tUs < 0

instance (p : Poll) (last : Stored) : Decidable (Breaks p last) := by
  unfold Breaks
  infer_instance

def powerNoteSample (p : Poll) (h : History) : History :=
  if p.invalid then h.reset
  else if h.n ≠ 0 then
    if Breaks p (h.hist h.newest) then h.reset.store p.sample
    else if p.nowUs - (h.hist h.newest).tUs < 60000000 then h
    else h.store p.sample
  else h.store p.sample

/- The conversion of a number to `int`. -/
def truncate (q : ℚ) : Int := q.num.tdiv q.den

/- The rate and the minutes left, or nothing where the code returns false. -/
def powerDischargeRate (now : Int) (h : History) : Option (ℚ × Int) :=
  if h.n < 2 then none
  else
    let elapsed := (h.hist h.newest).tUs - (h.hist h.oldest).tUs
    let drop := (h.hist h.oldest).pct - (h.hist h.newest).pct
    let remaining := (h.hist h.newest).pct
    let age := now - (h.hist h.newest).tUs
    let dtH : ℚ := elapsed / 3600000000
    if dtH < 10 / 60 ∨ drop < 2 ∨ age > 90000000 then none
    else
      let rate := drop / dtH
      some (rate,truncate (remaining / rate * 60))

/- The same history without a bound: every sample since the last reset. -/
def noted (p : Poll) (stored : List Stored) : List Stored :=
  if p.invalid then []
  else
    match stored.getLast? with
    | none => [p.sample]
    | some last =>
      if Breaks p last then [p.sample]
      else if p.nowUs - last.tUs < 60000000 then stored
      else stored ++ [p.sample]

/- The ring has the end of the list, and is written next behind it. -/
structure Refines (h : History) (stored : List Stored) : Prop where
  n : h.n = min 12 stored.length
  head : h.head = Fin.ofNat 12 stored.length
  cells : HoldsLast h.hist stored

variable {h : History} {stored : List Stored}

theorem refinesReset (h : History) : Refines h.reset [] := ⟨rfl,rfl,holdsLastNil _⟩

theorem refinesStore (refines : Refines h stored) (s : Stored) : Refines (h.store s) (stored ++ [s]) := by
  obtain ⟨n,head,cells⟩ := refines
  refine ⟨?_,?_,?_⟩
  · rw [List.length_append, List.length_singleton]
    change (if h.n < 12 then h.n + 1 else h.n) = _
    split <;> omega
  · rw [List.length_append, List.length_singleton]
    apply Fin.ext
    change (h.head.val + 1) % 12 = (stored.length + 1) % 12
    rw [head]
    change (stored.length % 12 + 1) % 12 = _
    omega
  · have next := holdsLastStore cells s
    rw [← head] at next
    exact next

theorem newestCell (refines : Refines h stored) (some : stored ≠ []) :
    h.newest = Fin.ofNat 12 (stored.length - 1) := by
  have := List.length_pos_iff.mpr some
  apply Fin.ext
  change (h.head.val + 12 - 1) % 12 = (stored.length - 1) % 12
  rw [refines.head]
  change (stored.length % 12 + 12 - 1) % 12 = _
  omega

theorem oldestCell (refines : Refines h stored) : h.oldest = Fin.ofNat 12 (stored.length - h.n) := by
  obtain ⟨n,head,_⟩ := refines
  unfold History.oldest
  apply Fin.ext
  split
  · rw [head]
    change stored.length % 12 = (stored.length - h.n) % 12
    omega
  · change 0 = (stored.length - h.n) % 12
    omega

theorem newestLast (refines : Refines h stored) {last : Stored} (found : stored.getLast? = some last) :
    h.hist h.newest = last := by
  have some : stored ≠ [] := fun none => Option.some_ne_none last (found.symm.trans (none ▸ rfl))
  rw [List.getLast?_eq_getElem?] at found
  rw [newestCell refines some]
  exact refines.cells _ last found (by omega)

/- A call does the same to both. -/
theorem refinesNote (refines : Refines h stored) (p : Poll) : Refines (powerNoteSample p h) (noted p stored) := by
  have fresh := refinesStore (refinesReset h) p.sample
  unfold powerNoteSample noted
  split
  · exact refinesReset h
  · cases found : stored.getLast? with
    | none =>
      have none := List.getLast?_eq_none_iff.mp found
      subst none
      have empty : h.n = 0 := refines.n
      rw [if_neg (not_not_intro empty)]
      exact refinesStore refines p.sample
    | some last =>
      have some : stored ≠ [] := fun none => Option.some_ne_none last (found.symm.trans (none ▸ rfl))
      have long := List.length_pos_iff.mpr some
      have many : h.n ≠ 0 := by
        rw [refines.n]
        omega
      rw [if_pos many, newestLast refines found]
      dsimp only
      split
      · exact fresh
      · split
        · exact refines
        · exact refinesStore refines p.sample

def Follows (a b : Stored) : Prop :=
  60000000 ≤ b.tUs - a.tUs ∧ b.tUs - a.tUs ≤ 90000000 ∧ b.pct ≤ a.pct

structure Discharge (stored : List Stored) : Prop where
  chain : stored.IsChain Follows
  percents : ∀ s ∈ stored, 0 ≤ s.pct ∧ s.pct ≤ 100

theorem dischargeNil : Discharge [] := ⟨.nil,List.forall_mem_nil _⟩

theorem dischargeOne {s : Stored} (percent : 0 ≤ s.pct ∧ s.pct ≤ 100) : Discharge [s] :=
  ⟨.singleton s,List.forall_mem_singleton.mpr percent⟩

theorem dischargeNote (discharge : Discharge stored) (p : Poll) : Discharge (noted p stored) := by
  unfold noted
  split
  · exact dischargeNil
  · rename_i valid
    have percent : 0 ≤ p.percent ∧ p.percent ≤ 100 := by
      unfold Poll.invalid at valid
      omega
    cases found : stored.getLast? with
    | none => exact dischargeOne percent
    | some last =>
      dsimp only
      split
      · exact dischargeOne percent
      · rename_i goes
        split
        · exact discharge
        · rename_i late
          refine ⟨discharge.chain.append (.singleton _) ?_,
            List.forall_mem_append.mpr ⟨discharge.percents,List.forall_mem_singleton.mpr percent⟩⟩
          intro a end_ b begin_
          cases Option.some.inj (found.symm.trans end_)
          cases Option.some.inj begin_
          unfold Breaks at goes
          unfold Follows
          change 60000000 ≤ p.nowUs - last.tUs ∧ p.nowUs - last.tUs ≤ 90000000 ∧ p.percent ≤ last.pct
          omega

def sampled (polls : List Poll) : History := polls.foldl (fun h p => powerNoteSample p h) initial

def storedBy (polls : List Poll) : List Stored := polls.foldl (fun stored p => noted p stored) []

theorem sampledRefines (polls : List Poll) :
    Refines (sampled polls) (storedBy polls) ∧ Discharge (storedBy polls) := by
  unfold sampled storedBy
  have start : Refines initial [] ∧ Discharge [] := ⟨⟨rfl,rfl,holdsLastNil _⟩,dischargeNil⟩
  generalize initial = h at start ⊢
  generalize ([] : List Stored) = stored at start ⊢
  induction polls generalizing h stored with
  | nil => exact start
  | cons p polls ih => exact ih _ _ ⟨refinesNote start.1 p,dischargeNote start.2 p⟩

def History.samples (h : History) : List Stored :=
  (List.range h.n).map (fun i => h.hist (Fin.ofNat 12 (h.oldest.val + i)))

theorem samplesLast (refines : Refines h stored) : h.samples = stored.drop (stored.length - 12) := by
  rw [← holdsLastRead refines.cells, ← refines.n]
  unfold History.samples
  apply List.map_congr_left
  intro i _
  congr 1
  apply Fin.ext
  rw [oldestCell refines]
  change ((stored.length - h.n) % 12 + i) % 12 = (stored.length - h.n + i) % 12
  omega

theorem samplesEnds (refines : Refines h stored) (some : h.n ≠ 0) :
    h.samples.head? = Option.some (h.hist h.oldest) ∧ h.samples.getLast? = Option.some (h.hist h.newest) := by
  have n := refines.n
  constructor
  · unfold History.samples
    rw [List.head?_map, List.head?_range, if_neg some]
    exact congrArg (fun i => Option.some (h.hist i)) (Fin.ext (Nat.mod_eq_of_lt h.oldest.isLt))
  · rw [samplesLast refines, List.getLast?_drop, if_neg (by omega)]
    cases found : stored.getLast? with
    | none =>
      rw [List.getLast?_eq_none_iff.mp found] at n
      exact absurd n some
    | some last => rw [newestLast refines found]

theorem chainSpan {a b : Stored} {rest : List Stored} (chain : (a :: rest).IsChain Follows)
    (last : (a :: rest).getLast? = some b) : b.tUs - a.tUs ≤ 90000000 * rest.length ∧ b.pct ≤ a.pct := by
  induction rest generalizing a with
  | nil =>
    have same : a = b := Option.some.inj last
    subst same
    rw [List.length_nil]
    omega
  | cons c rest ih =>
    obtain ⟨⟨_,gap,falls⟩,chain⟩ := List.isChain_cons_cons.mp chain
    rw [List.getLast?_cons_cons] at last
    obtain ⟨span,falling⟩ := ih chain last
    rw [List.length_cons]
    omega

theorem truncateFloor {q : ℚ} (nonneg : 0 ≤ q) : truncate q = ⌊q⌋ := by
  rw [truncate, Int.tdiv_eq_ediv_of_nonneg (Rat.num_nonneg.mpr nonneg), Rat.floor_def']

def History.elapsed (h : History) : Int := (h.hist h.newest).tUs - (h.hist h.oldest).tUs

def History.drop (h : History) : Int := (h.hist h.oldest).pct - (h.hist h.newest).pct

structure RateInRange (h : History) (rate : ℚ) (minutes : Int) : Prop where
  elapsed : 600000000 ≤ h.elapsed ∧ h.elapsed ≤ 990000000
  drop : 2 ≤ h.drop ∧ h.drop ≤ 100
  perHour : rate = h.drop * 3600000000 / h.elapsed
  left : minutes = ⌊(h.hist h.newest).pct / rate * 60⌋
  rate : 0 < rate
  minutes : 0 ≤ minutes ∧ minutes ≤ 808

theorem samplesSpan (refines : Refines h stored) (discharge : Discharge stored) (some : h.n ≠ 0) :
    h.elapsed ≤ 990000000 ∧
      (h.hist h.oldest).pct ≤ 100 ∧ 0 ≤ (h.hist h.newest).pct := by
  obtain ⟨first,last⟩ := samplesEnds refines some
  have chain : h.samples.IsChain Follows := samplesLast refines ▸ discharge.chain.drop _
  have percents : ∀ s ∈ h.samples, 0 ≤ s.pct ∧ s.pct ≤ 100 := by
    rw [samplesLast refines]
    exact fun s mem => discharge.percents s (List.mem_of_mem_drop mem)
  have long : h.samples.length = h.n := by
    unfold History.samples
    rw [List.length_map, List.length_range]
  have few := h.few
  generalize h.samples = samples at first last chain percents long
  cases samples with
  | nil => exact absurd first (Option.some_ne_none _).symm
  | cons a rest =>
    cases Option.some.inj first
    obtain ⟨span,_⟩ := chainSpan chain last
    rw [List.length_cons] at long
    exact ⟨by unfold History.elapsed; omega,(percents _ List.mem_cons_self).2,(percents _ (List.mem_of_getLast? last)).1⟩

theorem minutesInRange {hours drop remaining : ℚ} (long : 10 / 60 ≤ hours) (short : hours ≤ 990 / 3600)
    (falls : 2 ≤ drop) (whole : drop + remaining ≤ 100) (least : 0 ≤ remaining) :
    0 ≤ truncate (remaining / (drop / hours) * 60) ∧ truncate (remaining / (drop / hours) * 60) ≤ 808 := by
  have positive : 0 < drop := by linarith
  have time : 0 < hours := by linarith
  have some : 0 ≤ remaining / (drop / hours) * 60 := by positivity
  have most : remaining / (drop / hours) * 60 < 809 := by
    have scaled : remaining * hours ≤ remaining * (990 / 3600) := mul_le_mul_of_nonneg_left short least
    rw [div_div_eq_mul_div, div_mul_eq_mul_div, div_lt_iff₀ positive]
    linarith
  rw [truncateFloor some]
  have below : ⌊remaining / (drop / hours) * 60⌋ < 809 := Int.floor_lt.mpr (by exact_mod_cast most)
  exact ⟨Int.floor_nonneg.mpr some,by omega⟩

theorem longEnough {elapsed : Int} : ¬((elapsed : ℚ) / 3600000000 < 10 / 60) ↔ 600000000 ≤ elapsed := by
  rw [not_lt, le_div_iff₀ (by norm_num)]
  norm_num
  exact_mod_cast Iff.rfl

theorem rateReturns (now : Int) (h : History) : (powerDischargeRate now h).isSome = true ↔
    2 ≤ h.n ∧ 600000000 ≤ h.elapsed ∧ 2 ≤ h.drop ∧ now - (h.hist h.newest).tUs ≤ 90000000 := by
  unfold powerDischargeRate
  dsimp only
  by_cases few : h.n < 2
  · rw [if_pos few]
    exact ⟨nofun,fun enough => absurd enough.1 (Nat.not_le.mpr few)⟩
  · rw [if_neg few, ← Nat.not_lt, ← longEnough]
    by_cases guard : (h.elapsed : ℚ) / 3600000000 < 10 / 60 ∨ h.drop < 2 ∨ now - (h.hist h.newest).tUs > 90000000
    · rw [if_pos (by exact guard)]
      refine ⟨nofun,fun ⟨_,long,falls,fresh⟩ => ?_⟩
      rcases guard with short | flat | old
      · exact absurd short long
      · exact absurd falls (Int.not_le.mpr flat)
      · exact absurd fresh (Int.not_le.mpr old)
    · rw [if_neg (by exact guard)]
      obtain ⟨long,rest⟩ := not_or.mp guard
      obtain ⟨falls,fresh⟩ := not_or.mp rest
      exact ⟨fun _ => ⟨few,long,Int.not_lt.mp falls,Int.not_lt.mp fresh⟩,fun _ => rfl⟩

theorem rateInRange (refines : Refines h stored) (discharge : Discharge stored) {now : Int} {rate : ℚ} {minutes : Int}
    (given : powerDischargeRate now h = some (rate,minutes)) : RateInRange h rate minutes := by
  obtain ⟨two,late,falls,_⟩ := (rateReturns now h).mp (Option.isSome_iff_exists.mpr ⟨_,given⟩)
  obtain ⟨span,most,least⟩ := samplesSpan refines discharge (show h.n ≠ 0 by omega)
  unfold powerDischargeRate at given
  obtain ⟨_,given⟩ := Option.ite_none_left_eq_some.mp given
  obtain ⟨_,given⟩ := Option.ite_none_left_eq_some.mp given
  change some ((h.drop : ℚ) / ((h.elapsed : ℚ) / 3600000000),
    truncate ((h.hist h.newest).pct / ((h.drop : ℚ) / ((h.elapsed : ℚ) / 3600000000)) * 60)) = _ at given
  cases Option.some.inj given
  have late' : (600000000 : ℚ) ≤ h.elapsed := by exact_mod_cast late
  have span' : (h.elapsed : ℚ) ≤ 990000000 := by exact_mod_cast span
  have falls' : (2 : ℚ) ≤ h.drop := by exact_mod_cast falls
  have whole : (h.drop : ℚ) + (h.hist h.newest).pct ≤ 100 := by
    unfold History.drop
    push_cast
    rw [sub_add_cancel]
    exact_mod_cast most
  have least' : (0 : ℚ) ≤ (h.hist h.newest).pct := by exact_mod_cast least
  have drop : (0 : ℚ) < h.drop := by linarith
  have time : (0 : ℚ) < (h.elapsed : ℚ) / 3600000000 := by linarith
  have rate := div_pos drop time
  refine ⟨⟨late,span⟩,⟨falls,?_⟩,div_div_eq_mul_div ..,truncateFloor ?_,rate,
    minutesInRange (by linarith) (by linarith) falls' whole least'⟩
  · unfold History.drop
    omega
  · exact mul_nonneg (div_nonneg least' rate.le) (by norm_num)

/- What holds of the history at any time, beside the list of the samples since the last reset. -/
structure HistoryHolds (h : History) (stored : List Stored) : Prop where
  count : h.n = min 12 stored.length
  samples : h.samples = stored.drop (stored.length - 12)
  discharge : Discharge stored
  ends : h.n ≠ 0 → h.samples.head? = some (h.hist h.oldest) ∧ h.samples.getLast? = some (h.hist h.newest)
  returns : ∀ now, (powerDischargeRate now h).isSome = true ↔
    2 ≤ h.n ∧ 600000000 ≤ h.elapsed ∧ 2 ≤ h.drop ∧ now - (h.hist h.newest).tUs ≤ 90000000
  rate : ∀ now rate minutes, powerDischargeRate now h = some (rate,minutes) → RateInRange h rate minutes

theorem historyHolds (polls : List Poll) : HistoryHolds (sampled polls) (storedBy polls) := by
  obtain ⟨refines,discharge⟩ := sampledRefines polls
  exact ⟨refines.n,samplesLast refines,discharge,samplesEnds refines,fun now => rateReturns now _,
    fun _ _ _ given => rateInRange refines discharge given⟩

/- Two percent in ten minutes. -/
example : powerDischargeRate 600000000
    (sampled ((List.range 11).map (fun i => ⟨60000000 * i,80 - 2 * i / 10,true⟩))) = some (12,390) := by
  decide +kernel

end EpskcCommissioner.PowerDischarge
