import EpskcCommissioner.LogRingChains

/-! The running boot's half of the ring, as `log_ring_info` and `log_ring_get` show it: the
last 1024 of all lines that the boot has committed. -/
namespace EpskcCommissioner.LogRingCurrent
open LogRing LogRingDevice LogRingSlots LogRingNumbers LogRingRunning LogRingRecovery LogRingChains

/- `log_ring_info_t` -/
structure LogRingInfo where
  bootId : UInt64
  bootCount : UInt32
  oldestSeq : UInt32
  latestSeq : UInt32
  lastUptimeMs : UInt32
  deriving DecidableEq, Repr

def logRingInfo (boot : Which) (cells : Cells) (ram : Ram) : Option LogRingInfo :=
  match halfFor ram boot with
  | none => none
  | some h =>
    let latest := if some h = ram.cur then ram.latest else ram.prevLatest
    some
      { bootId := cells (.bootId h)
        bootCount := cells (.halfBootCount h)
        oldestSeq := if latest = 0 then 0 else if latest > 1024 then latest - 1024 + 1 else 1
        latestSeq := latest
        lastUptimeMs := if some h = ram.cur then ram.lastMs else ram.prevLastMs }

/- One boot: it starts with whatever the memory has, does not crash, and commits fewer
than 2^32 lines. -/
def OneBoot (s : Device) (l : Label) : Prop :=
  match l with
  | .crash => False
  | l => Few s l

instance (s : Device) : (l : Label) → Decidable (OneBoot s l)
  | .crash => inferInstanceAs (Decidable False)
  | .enter id =>
    inferInstanceAs (Decidable (∀ t ∈ step s (.enter id), t.boot.lines.length < UInt32.size))
  | .evict _ | .call _ _ _ | .proceed | .writeBack _ | .init _ => inferInstanceAs (Decidable True)

/- The numbers of the last 1024 of `n` lines. -/
def Retained (n : Nat) (q : UInt32) : Prop := max 1 (n - 1023) ≤ q.toNat ∧ q.toNat ≤ n

structure Mirrors (s : Device) : Prop where
  info : ∃ info, logRingInfo .current s.memory.view s.ram = some info ∧ info.bootId = s.boot.id ∧
    info.latestSeq.toNat = s.boot.lines.length ∧
    info.oldestSeq.toNat =
      if s.boot.lines.length = 0 then 0 else max 1 (s.boot.lines.length - 1023)
  gives : ∀ q, Retained s.boot.lines.length q → ∃ c out, s.boot.lines[q.toNat - 1]? = some c ∧
    logRingGet .current q s.memory.view s.ram = some out ∧ Reads out c
  only : ∀ q out, logRingGet .current q s.memory.view s.ram = some out →
    Retained s.boot.lines.length q

theorem latestCount {s : Device} (running : Running s) : s.ram.latest.toNat = s.boot.lines.length := by
  rw [running.latest]
  exact UInt32.toNat_ofNat_of_lt' running.few

theorem bootIdShown {s : Device} (running : Running s) :
    s.memory.view (.bootId s.boot.half) = s.boot.id := by
  obtain ⟨count,shown,_⟩ := running.header
  exact shown (.bootId s.boot.half) _ (if_pos rfl)

theorem currentInfo {s : Device} (running : Running s) :
    ∃ info, logRingInfo .current s.memory.view s.ram = some info ∧ info.bootId = s.boot.id ∧
      info.latestSeq.toNat = s.boot.lines.length ∧
      info.oldestSeq.toNat =
        if s.boot.lines.length = 0 then 0 else max 1 (s.boot.lines.length - 1023) := by
  have count := latestCount running
  refine ⟨_,by rw [logRingInfo, halfFor, running.cur],bootIdShown running,?_,?_⟩
  · rw [if_pos rfl]
    exact count
  · dsimp only
    rw [if_pos rfl, ← count]
    by_cases none : s.ram.latest = 0
    · rw [if_pos none, none]
      rfl
    · have some : s.ram.latest.toNat ≠ 0 := fun zero => none (UInt32.toNat_inj.mp zero)
      rw [if_neg none, if_neg some]
      by_cases wrapped : s.ram.latest > 1024
      · have beyond : 1024 < s.ram.latest.toNat := UInt32.lt_iff_toNat_lt.mp wrapped
        have few := s.ram.latest.toNat_lt
        have low : (s.ram.latest - 1024).toNat = s.ram.latest.toNat - 1024 :=
          UInt32.toNat_sub_of_le _ _ (UInt32.le_of_lt wrapped)
        rw [if_pos wrapped, UInt32.toNat_add, low]
        change (s.ram.latest.toNat - 1024 + 1) % 4294967296 = _
        omega
      · have inside : ¬1024 < s.ram.latest.toNat := fun beyond =>
          wrapped (UInt32.lt_iff_toNat_lt.mpr beyond)
        rw [if_neg wrapped]
        change 1 = _
        omega

theorem retainedRange {n : Nat} {latest q : UInt32} (count : latest.toNat = n) :
    Retained n q ↔ q ≠ 0 ∧ q ≤ latest ∧ (latest - q).toNat < 1024 := by
  unfold Retained
  constructor
  · intro inside
    have reached : q ≤ latest := UInt32.le_iff_toNat_le.mpr (by omega)
    refine ⟨?_,reached,?_⟩
    · rintro rfl
      have zero : (0 : UInt32).toNat = 0 := rfl
      omega
    · rw [UInt32.toNat_sub_of_le _ _ reached]
      omega
  · rintro ⟨numbered,reached,near⟩
    have some : q.toNat ≠ 0 := fun zero => numbered (UInt32.toNat_inj.mp zero)
    rw [UInt32.toNat_sub_of_le _ _ reached] at near
    have := UInt32.le_iff_toNat_le.mp reached
    omega

theorem currentOnly {s : Device} (running : Running s) {q : UInt32} {out : LineOut}
    (got : logRingGet .current q s.memory.view s.ram = some out) : Retained s.boot.lines.length q := by
  obtain ⟨h,half,numbered,reached,near,_⟩ := getFound got
  have own : some h = s.ram.cur := half.symm
  rw [if_pos own] at reached near
  exact (retainedRange (latestCount running)).mpr ⟨numbered,reached,near⟩

theorem currentGives {s : Device} (running : Running s) (free : s.lock = none) {q : UInt32}
    (retained : Retained s.boot.lines.length q) :
    ∃ c out, s.boot.lines[q.toNat - 1]? = some c ∧
      logRingGet .current q s.memory.view s.ram = some out ∧ Reads out c := by
  have begun := running.unlocked free
  have whole : complete s = s.boot.lines.length := by
    unfold complete
    rw [free]
    exact begun
  obtain ⟨numbered,reached,near⟩ := (retainedRange (latestCount running)).mp retained
  unfold Retained at retained
  have inside : q.toNat - 1 < s.boot.lines.length := by omega
  obtain ⟨c,line⟩ : ∃ c, s.boot.lines[q.toNat - 1]? = some c := ⟨_,List.getElem?_eq_getElem inside⟩
  have seq : c.seq = q := by
    rw [running.numbered _ c line, show 0 + (q.toNat - 1) + 1 = q.toNat by omega]
    exact UInt32.ofNat_toNat
  have kept : ¬Taken s.boot (q.toNat - 1) := by
    unfold Taken
    omega
  have shown := running.viewed _ (whole ▸ inside) c line kept
  obtain ⟨holds,_⟩ := shownHolds shown
  have valid := shownValid shown (seq ▸ numbered)
  rw [seq] at holds valid
  have fits : (!(decide (q ≤ s.ram.latest) && decide ((s.ram.latest - q).toNat < 1024))) = false := by
    rw [decide_eq_true reached, decide_eq_true near]
    rfl
  refine ⟨c,⟨q,(slotAt s.memory.view s.boot.half (slotIndex q)).uptimeMs,
    (slotAt s.memory.view s.boot.half (slotIndex q)).text⟩,line,?_,seq.symm,holds.uptimeMs,holds.text⟩
  unfold logRingGet halfFor
  dsimp only
  rw [running.cur]
  dsimp only
  rw [if_neg numbered, if_pos rfl, fits, if_neg Bool.false_ne_true, if_neg]
  rw [bootIdShown running]
  simp [valid,holds.seq,seq]

/- Before `log_ring_init`, or after it. -/
def Booted (s : Device) : Prop := Running s ∨ Off s ∧ s.ids = []

theorem oneBootFew {s : Device} {l : Label} (one : OneBoot s l) : Few s l ∧ l ≠ .crash := by
  cases l with
  | crash => exact one.elim
  | _ => exact ⟨one,nofun⟩

theorem booted {s : Device} (reached : device.Under OneBoot s) : Booted s := by
  refine underInvariant Booted ?_ ?_ reached
  · rintro _ ⟨memory,rfl⟩
    exact .inr ⟨powerOnOff memory,rfl⟩
  · intro s l t inv one stepped
    obtain ⟨few,lives⟩ := oneBootFew one
    rcases inv with running | ⟨off,undrawn⟩
    · exact .inl (runningStep running few lives stepped)
    · rcases offStep off stepped with ⟨still,same⟩ | ⟨bootId,_,rfl⟩
      · exact .inr ⟨still,same.trans undrawn⟩
      · exact .inl (initRunning off (undrawn ▸ List.not_mem_nil))

/- From `log_ring_init` on, whenever no critical section is at work, a reader sees the
last 1024 lines of the boot, whatever the memory had and whoever logged them. -/
theorem currentMirrors {s : Device} (reached : device.Under OneBoot s) (runs : s.ram.cur.isSome)
    (free : s.lock = none) : Mirrors s := by
  rcases booted reached with running | ⟨off,_⟩
  · exact ⟨currentInfo running,fun q retained => currentGives running free retained,
      fun q out got => currentOnly running got⟩
  · rw [off.ram] at runs
    exact absurd runs Bool.false_ne_true

def oneCall : List Label :=
  [.init 7,.call 0 (.ingest 5 [0x61,0x0a]) 9,.enter 0] ++ List.replicate 9 .proceed

theorem currentMirrorsOne :
    ∃ s, device.Under OneBoot s ∧ s.boot.lines = [⟨1,9,none,[0x61]⟩] ∧ Mirrors s := by
  have first : device.start (powerOn blank) := ⟨blank,rfl⟩
  have all : device.Meets OneBoot (powerOn blank) oneCall := by decide +kernel
  have ran : (device.run (powerOn blank) oneCall).any (fun s =>
      s.lock.isNone && s.ram.cur.isSome && s.boot.lines == [⟨1,9,none,[0x61]⟩]) = true := by
    decide +kernel
  obtain ⟨s,reached,ends⟩ := underEnds OneBoot first all ran
  simp only [Bool.and_eq_true,beq_iff_eq,Option.isNone_iff_eq_none] at ends
  exact ⟨s,reached,ends.2,currentMirrors reached ends.1.2 ends.1.1⟩

end EpskcCommissioner.LogRingCurrent
