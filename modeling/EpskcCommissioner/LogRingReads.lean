import EpskcCommissioner.LogClean
import EpskcCommissioner.LogRingServing
import EpskcCommissioner.LogRingTexts

/-! Readers of the ring while tasks log. Every line that is committed has a text of whole
printable characters; what is given of either boot was committed whole under its ID, of the
previous one as far as the check can be relied on. -/
namespace EpskcCommissioner.LogRingReads
open LogText LogRing LogRingDevice LogRingSlots LogRingNumbers LogRingRunning LogRingInit LogRingRecovery
open LogRingServing LogRingTexts LogClean CachedMemory

def CleanRam (ram : Ram) : Prop := ∀ k, Clean (ram.pending k).text.bytes

def CleanLines (commits : List Commit) : Prop := ∀ c ∈ commits, Clean c.text.bytes

structure Tidy (s : Device) : Prop where
  ram : CleanRam s.ram
  committing : ∀ k c stores, s.lock = some k → k.committing = some (c,stores) → Clean c.text.bytes
  later : ∀ k, s.lock = some k → CleanLines k.later
  committed : ∀ id c, (id,c) ∈ s.committed → Clean c.text.bytes

theorem cleanKept : Keeps Clean := ⟨cleanNil,appendCleanClean⟩

theorem reachedTidy {s : Device} (reached : device.Reachable s) : Tidy s := by
  obtain ⟨ram,committing,later,committed⟩ := reachedTexts cleanKept reached
  exact ⟨ram,committing,later,committed⟩

/- What the check accepts of the previous half was committed whole under that half's ID. -/
def Earlier (s : Device) : Prop :=
  ∀ h, s.ram.prev = some h → h ≠ s.boot.half ∧ ∀ i, accepted h s.memory.view i →
    ∃ c, (s.memory.view (.bootId h),c) ∈ s.committed ∧ Holds (slotAt s.memory.view h i) c

theorem earlierSame {s t : Device} (earlier : Earlier s) (half : t.boot.half = s.boot.half)
    (prev : t.ram.prev = s.ram.prev)
    (same : ∀ h, h ≠ s.boot.half → t.memory.view (.bootId h) = s.memory.view (.bootId h) ∧
      ∀ i, slotAt t.memory.view h i = slotAt s.memory.view h i)
    (grows : ∀ line ∈ s.committed, line ∈ t.committed) : Earlier t := by
  intro h found
  obtain ⟨other,lines⟩ := earlier h (prev.symm.trans found)
  obtain ⟨id,slots⟩ := same h other
  rw [half]
  refine ⟨other,fun i valid => ?_⟩
  unfold accepted at valid
  rw [slots, id] at valid ⊢
  obtain ⟨c,committed,holds⟩ := lines i valid
  exact ⟨c,grows _ committed,holds⟩

theorem earlierSection {s : Device} (earlier : Earlier s) (k : Critical) :
    Earlier (sectionStep s.boot.half k s) := by
  unfold sectionStep
  split
  · dsimp only
    split
    · exact earlierSame earlier rfl rfl (fun h other => performHalf _ other)
        (fun line mem => List.mem_cons_of_mem _ mem)
    · exact earlierSame earlier rfl rfl (fun h other => performHalf _ other) (fun line mem => mem)
  · exact earlierSame earlier rfl rfl (fun h _ => ⟨rfl,fun _ => rfl⟩) (fun line mem => mem)
  · split
    · exact earlierSame earlier rfl rfl (fun h _ => ⟨rfl,fun _ => rfl⟩) (fun line mem => mem)
    · exact earlierSame earlier rfl rfl (fun h _ => ⟨rfl,fun _ => rfl⟩) (fun line mem => mem)

theorem initEarlier {s : Device} (bootId : UInt64) (clear : s.ram = .cleared) (checks : ChecksOut s) :
    Earlier (init bootId s) := by
  intro h prev
  obtain ⟨slots,id⟩ := initSame bootId clear prev
  obtain ⟨trust,half⟩ := prevTrusted clear prev
  refine ⟨half ▸ initApart trust,fun i valid => ?_⟩
  change slotValid (slotAt (initMemory bootId s.memory).view h i)
    ((initMemory bootId s.memory).view (.bootId h)) = true at valid
  change ∃ c, ((initMemory bootId s.memory).view (.bootId h),c) ∈ s.committed ∧
    Holds (slotAt (initMemory bootId s.memory).view h i) c
  rw [slots, id] at valid ⊢
  exact checks h i valid

theorem clearedEarlier {s : Device} (clear : s.ram.prev = none) : Earlier s :=
  fun h found => absurd (clear.symm.trans found).symm (Option.some_ne_none h)

theorem earlierStep {s t : Device} {l : Label} (known : Known s) (earlier : Earlier s)
    (checked : Checked s l) (taken : step s l = some t) : Earlier t := by
  cases stepped taken with
  | evict k => exact earlierSame earlier rfl rfl (fun h _ => ⟨rfl,fun _ => rfl⟩) (fun line mem => mem)
  | call id call nowMs _ =>
    exact earlierSame earlier rfl rfl (fun h _ => ⟨rfl,fun _ => rfl⟩) (fun line mem => mem)
  | enter id call nowMs _ _ =>
    obtain ⟨_,_,_,prev,_⟩ := @executeCounts s.ram.latest.toNat s.ram call nowMs UInt32.ofNat_toNat.symm
    exact earlierSame earlier rfl prev (fun h _ => ⟨rfl,fun _ => rfl⟩) (fun line mem => mem)
  | proceed h k cur _ =>
    rcases known with serving | asleep
    · cases Option.some.inj (serving.cur.symm.trans cur)
      exact earlierSection earlier k
    · rw [asleep.ram] at cur
      exact absurd cur.symm (Option.some_ne_none h)
  | writeBack id work own _ =>
    cases work <;> exact earlierSame earlier rfl rfl (fun h _ => ⟨rfl,fun _ => rfl⟩) (fun line mem => mem)
  | crash _ => exact clearedEarlier rfl
  | init bootId off =>
    rcases known with serving | asleep
    · rw [serving.cur] at off
      exact absurd off Bool.false_ne_true
    · exact initEarlier bootId asleep.ram checked

theorem reachedEarlier {s : Device} (reached : device.Under Checked s) : Earlier s := by
  refine underInvariantWith Known Earlier (fun s h => reachedKnown (underReachable h)) ?_
    (fun s l t => earlierStep) reached
  rintro _ ⟨memory,rfl⟩
  exact clearedEarlier rfl

def Lasting (_ : Device) : Label → Prop
  | .crash | .init _ => False
  | _ => True

/- `t` comes after `s`, in the same boot. -/
def Later (s t : Device) : Prop := (⟨fun d => d = s,step⟩ : Machine Device Label).Under Lasting t

structure Stays (s t : Device) : Prop where
  cur : t.ram.cur = s.ram.cur
  prev : t.ram.prev = s.ram.prev
  bootIds : ∀ h, t.memory.view (.bootId h) = s.memory.view (.bootId h)

theorem staysSection (h : Half) (k : Critical) (s : Device) : Stays s (sectionStep h k s) := by
  unfold sectionStep
  split
  · dsimp only
    split
    · exact ⟨rfl,rfl,fun g => bootIdPerform s.memory _⟩
    · exact ⟨rfl,rfl,fun g => bootIdPerform s.memory _⟩
  · exact ⟨rfl,rfl,fun _ => rfl⟩
  · split
    · exact ⟨rfl,rfl,fun _ => rfl⟩
    · exact ⟨rfl,rfl,fun _ => rfl⟩

theorem staysStep {s t : Device} {l : Label} (lasting : Lasting s l) (taken : step s l = some t) :
    Stays s t := by
  cases stepped taken with
  | evict k => exact ⟨rfl,rfl,fun _ => rfl⟩
  | call id call nowMs _ => exact ⟨rfl,rfl,fun _ => rfl⟩
  | enter id call nowMs _ _ =>
    obtain ⟨_,_,cur,prev,_⟩ := @executeCounts s.ram.latest.toNat s.ram call nowMs UInt32.ofNat_toNat.symm
    exact ⟨cur,prev,fun _ => rfl⟩
  | proceed h k _ _ => exact staysSection h k s
  | writeBack id work own _ =>
    cases work <;> exact ⟨rfl,rfl,fun _ => rfl⟩
  | crash _ => exact lasting.elim
  | init bootId _ => exact lasting.elim

theorem laterStays {s t : Device} (later : Later s t) : Stays s t := by
  refine underInvariant (Stays s) ?_ ?_ later
  · rintro _ rfl
    exact ⟨rfl,rfl,fun _ => rfl⟩
  · intro u l v before lasting taken
    have step := staysStep lasting taken
    exact ⟨step.cur.trans before.cur,step.prev.trans before.prev,
      fun h => (step.bootIds h).trans (before.bootIds h)⟩

theorem laterReached {s t : Device} {meets : Device → Label → Prop} (reached : device.Under meets s)
    (lets : ∀ d l, Lasting d l → meets d l) (later : Later s t) : device.Under meets t := by
  refine underInvariant (device.Under meets) ?_ ?_ later
  · rintro _ rfl
    exact reached
  · exact fun u l v before lasting taken => .next before (lets u l lasting) taken

theorem lastingChecked (d : Device) (l : Label) (lasting : Lasting d l) : Checked d l := by
  cases l with
  | init bootId => exact lasting.elim
  | _ => exact trivial

/- Between two critical sections, whatever is given of a boot was committed whole under its
ID, and its text is clean; of the previous boot as far as the check can be relied on. -/
theorem readsCommitted {s : Device} (reached : device.Reachable s) (runs : s.ram.cur.isSome)
    (free : s.lock = none) {boot : Which} (checked : boot = .previous → device.Under Checked s)
    {h : Half} (half : halfFor s.ram boot = some h) {q : UInt32} {out : LineOut}
    (got : logRingGet boot q s.memory.view s.ram = some out) :
    ∃ c, (s.memory.view (.bootId h),c) ∈ s.committed ∧ Reads out c ∧ Clean c.text.bytes := by
  have tidy := reachedTidy reached
  have serving := reachedServing reached runs
  cases boot with
  | current =>
    obtain ⟨c,committed,reads⟩ := currentWhole serving free got
    have same : h = s.boot.half := Option.some.inj (half.symm.trans serving.cur)
    rw [same, serving.bootId]
    exact ⟨c,committed,reads,tidy.committed _ c committed⟩
  | previous =>
    obtain ⟨g,prev,valid,own,rfl⟩ := getAccepted got
    cases Option.some.inj (half.symm.trans prev)
    obtain ⟨c,committed,holds⟩ := (reachedEarlier (checked rfl) h prev).2 _ valid
    exact ⟨c,committed,⟨own.symm.trans holds.seq,holds.uptimeMs,holds.text⟩,tidy.committed _ c committed⟩

end EpskcCommissioner.LogRingReads
