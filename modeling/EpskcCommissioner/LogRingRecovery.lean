import EpskcCommissioner.LogRingInit

/-! What `log_ring_init` finds of the boot before. A crash keeps what had reached the
external memory; the scan accepts the lines that were committed whole under that boot's
ID, and nothing the new boot does touches them. -/
namespace EpskcCommissioner.LogRingRecovery
open LogRing LogRingDevice LogRingSlots LogRingNumbers LogRingRunning LogRingInit CachedMemory

/- The check accepts a slot under a boot ID only if a line was committed whole under that
ID and is what the slot holds. -/
def ChecksOut (s : Device) : Prop :=
  ∀ h i, slotValid (slotAt s.memory.view h i) (s.memory.view (.bootId h)) = true →
    ∃ c, (s.memory.view (.bootId h),c) ∈ s.committed ∧ Holds (slotAt s.memory.view h i) c

/- The assumptions on a chain of boots: the check can be relied on whenever the scan runs,
every boot draws an ID of its own, and no boot logs 2^32 lines. -/
def Checked (s : Device) : Label → Prop
  | .init _ => ChecksOut s
  | _ => True

def Fresh (s : Device) : Label → Prop
  | .init bootId => bootId ∉ s.ids
  | _ => True

def Few (s : Device) : Label → Prop
  | .enter id => ∀ t, step s (.enter id) = some t → t.boot.lines.length < UInt32.size
  | _ => True

def Trusted (s : Device) (l : Label) : Prop := Checked s l ∧ Fresh s l ∧ Few s l

structure Reads (out : LineOut) (c : Commit) : Prop where
  seq : out.seq = c.seq
  uptimeMs : out.uptimeMs = c.uptimeMs
  text : cString out.text = c.text.bytes

/- What is known of the boot before, from the return of `log_ring_init` on. -/
structure Remembers (s : Device) : Prop where
  stable : ∀ seq, logRingGet .previous seq s.memory.view s.ram = s.recovered seq
  apart : ∀ h, s.ram.prev = some h → h ≠ s.boot.half
  only : ∀ seq out, s.recovered seq = some out →
    ∃ b c, s.past = some b ∧ c ∈ b.lines ∧ c.seq = seq ∧ Reads out c
  kept : ∀ b, s.past = some b → ∀ k ∈ b.returned, ¬Taken b k →
    ∃ c out, b.lines[k]? = some c ∧ s.recovered c.seq = some out ∧ Reads out c

/- Between a crash of boot `b` and the next `log_ring_init`. -/
structure Crashed (s : Device) (b : BootLog) : Prop where
  past : s.past = some b
  header : ∃ count, Shows (header b.half count b.id) s.memory.view
  numbered : Numbered 0 b.lines
  few : b.lines.length < UInt32.size
  begun : b.begun ≤ b.lines.length
  returned : ∀ k ∈ b.returned, k < b.begun ∧ HasLine b k s.memory.view
  committed : ∀ i c, (i,c) ∈ s.committed → i ∈ s.ids ∧
    (i = b.id → ∃ k, k < b.begun ∧ b.lines[k]? = some c)

structure Off (s : Device) : Prop where
  ram : s.ram = .cleared
  callers : ∀ id, s.callers id = .idle
  lock : s.lock = none
  history : (s.past = none ∧ s.committed = []) ∨ ∃ b, Crashed s b

theorem crashOff {s : Device} (running : Running s) : Off (crash s) := by
  refine ⟨rfl,fun _ => rfl,rfl,.inr ⟨s.boot,rfl,?_,running.numbered,running.few,running.begun,?_,?_⟩⟩
  · obtain ⟨count,_,stored⟩ := running.header
    exact ⟨count,stored⟩
  · intro k mem
    obtain ⟨done,has⟩ := running.returned k mem
    exact ⟨Nat.lt_of_lt_of_le done (completeBegun s),has⟩
  · intro i c mem
    obtain ⟨drawn,own⟩ := running.committed i c mem
    refine ⟨drawn,fun same => ?_⟩
    obtain ⟨k,done,found⟩ := own same
    exact ⟨k,Nat.lt_of_lt_of_le done (completeBegun s),found⟩

theorem previousSame {cells after : Cells} {ram ramAfter : Ram} (prev : ramAfter.prev = ram.prev)
    (prevLatest : ramAfter.prevLatest = ram.prevLatest)
    (apart : ∀ h, ram.prev = some h → some h ≠ ram.cur ∧ some h ≠ ramAfter.cur)
    (same : ∀ h, ram.prev = some h → after (.bootId h) = cells (.bootId h) ∧
      ∀ i, slotAt after h i = slotAt cells h i) (seq : UInt32) :
    logRingGet .previous seq after ramAfter = logRingGet .previous seq cells ram := by
  unfold logRingGet halfFor
  dsimp only
  rw [prev]
  cases found : ram.prev with
  | none => rfl
  | some h =>
    obtain ⟨before,now⟩ := apart h found
    obtain ⟨id,slots⟩ := same h found
    dsimp only
    rw [if_neg before, if_neg now, prevLatest, id, slots]

theorem remembersStep {s t : Device} (running : Running s) (remembers : Remembers s)
    (half : t.boot.half = s.boot.half) (cur : t.ram.cur = s.ram.cur) (prev : t.ram.prev = s.ram.prev)
    (prevLatest : t.ram.prevLatest = s.ram.prevLatest)
    (same : ∀ h, h ≠ s.boot.half → t.memory.view (.bootId h) = s.memory.view (.bootId h) ∧
      ∀ i, slotAt t.memory.view h i = slotAt s.memory.view h i)
    (past : t.past = s.past) (recovered : t.recovered = s.recovered) : Remembers t := by
  refine ⟨fun seq => ?_,fun h found => ?_,?_,?_⟩
  · rw [recovered, ← remembers.stable]
    refine previousSame prev prevLatest (fun h found => ?_) (fun h found => same h (remembers.apart h found)) seq
    have other : some h ≠ s.ram.cur := by
      rw [running.cur]
      exact fun eq => remembers.apart h found (Option.some.inj eq)
    exact ⟨other,cur ▸ other⟩
  · rw [half]
    exact remembers.apart h (prev.symm.trans found)
  · rw [recovered, past]
    exact remembers.only
  · rw [recovered, past]
    exact remembers.kept

theorem performHalf {g h : Half} {i : Index} {m : Memory} (st : Store) (other : g ≠ h) :
    (perform h i m st).view (.bootId g) = m.view (.bootId g) ∧
    ∀ k, slotAt (perform h i m st).view g k = slotAt m.view g k := by
  refine ⟨performOther m st (fun no => no),fun k => slotSame (fun l own => ?_)⟩
  exact performOther m st (fun also => other (inSlotApart own also).1)

theorem remembersProceed {s : Device} (running : Running s) (remembers : Remembers s) (k : Critical) :
    Remembers (sectionStep s.boot.half k s) := by
  unfold sectionStep
  split
  · dsimp only
    split
    · exact remembersStep running remembers rfl rfl rfl rfl (fun h other => performHalf _ other) rfl rfl
    · exact remembersStep running remembers rfl rfl rfl rfl (fun h other => performHalf _ other) rfl rfl
  · exact remembersStep running remembers rfl rfl rfl rfl (fun h _ => ⟨rfl,fun _ => rfl⟩) rfl rfl
  · split
    · exact remembersStep running remembers rfl rfl rfl rfl (fun h _ => ⟨rfl,fun _ => rfl⟩) rfl rfl
    · exact remembersStep running remembers rfl rfl rfl rfl (fun h _ => ⟨rfl,fun _ => rfl⟩) rfl rfl

theorem remembersEnter {s : Device} (running : Running s) (remembers : Remembers s) (id : Nat)
    (call : Call) (nowMs : UInt32) : Remembers (enter id call nowMs s) := by
  obtain ⟨_,_,cur,prev,prevLatest⟩ := executeCounts call nowMs running.latest
  exact remembersStep running remembers rfl cur prev prevLatest (fun h _ => ⟨rfl,fun _ => rfl⟩) rfl rfl

theorem remembersWriteBack {s : Device} (running : Running s) (remembers : Remembers s) (id : Nat)
    (work : List Line) (own : List Nat) : Remembers (writeBackStep id work own s) := by
  cases work <;>
    exact remembersStep running remembers rfl rfl rfl rfl (fun h _ => ⟨rfl,fun _ => rfl⟩) rfl rfl

theorem getFound {boot : Which} {seq : UInt32} {cells : Cells} {ram : Ram} {out : LineOut}
    (got : logRingGet boot seq cells ram = some out) :
    ∃ h, halfFor ram boot = some h ∧ seq ≠ 0 ∧
      seq ≤ (if some h = ram.cur then ram.latest else ram.prevLatest) ∧
      ((if some h = ram.cur then ram.latest else ram.prevLatest) - seq).toNat < 1024 ∧
      accepted h cells (slotIndex seq) ∧ (slotAt cells h (slotIndex seq)).seq = seq ∧
      out = ⟨seq,(slotAt cells h (slotIndex seq)).uptimeMs,(slotAt cells h (slotIndex seq)).text⟩ := by
  unfold logRingGet at got
  split at got <;> try contradiction
  rename_i h half
  split at got <;> try contradiction
  rename_i numbered
  dsimp only at got
  generalize last : (if some h = ram.cur then ram.latest else ram.prevLatest) = latest at got
  split at got <;> try contradiction
  rename_i inside
  split at got <;> try contradiction
  rename_i fits
  cases Option.some.inj got
  simp only [Bool.not_eq_true',Bool.not_eq_false,Bool.and_eq_true,decide_eq_true_eq] at inside
  simp only [Bool.or_eq_true,decide_eq_true_eq,Bool.not_eq_true',not_or,not_not,Bool.not_eq_false] at fits
  subst last
  exact ⟨h,half,numbered,inside.1,inside.2,fits.2,fits.1,rfl⟩

theorem getAccepted {seq : UInt32} {cells : Cells} {ram : Ram} {out : LineOut}
    (got : logRingGet .previous seq cells ram = some out) :
    ∃ h, ram.prev = some h ∧ accepted h cells (slotIndex seq) ∧
      (slotAt cells h (slotIndex seq)).seq = seq ∧
      out = ⟨seq,(slotAt cells h (slotIndex seq)).uptimeMs,(slotAt cells h (slotIndex seq)).text⟩ := by
  obtain ⟨h,prev,_,_,_,valid,own,same⟩ := getFound got
  exact ⟨h,prev,valid,own,same⟩

theorem getGives {seq : UInt32} {cells : Cells} {ram : Ram} {h : Half} (prev : ram.prev = some h)
    (other : some h ≠ ram.cur) (numbered : seq ≠ 0) (valid : accepted h cells (slotIndex seq))
    (own : (slotAt cells h (slotIndex seq)).seq = seq) (reached : seq ≤ ram.prevLatest)
    (near : (ram.prevLatest - seq).toNat < 1024) :
    logRingGet .previous seq cells ram =
      some ⟨seq,(slotAt cells h (slotIndex seq)).uptimeMs,(slotAt cells h (slotIndex seq)).text⟩ := by
  have fits : (!(decide (seq ≤ ram.prevLatest) && decide ((ram.prevLatest - seq).toNat < 1024))) = false := by
    rw [decide_eq_true reached, decide_eq_true near]
    rfl
  unfold logRingGet halfFor
  dsimp only
  rw [prev]
  dsimp only
  rw [if_neg numbered, if_neg other, fits, if_neg Bool.false_ne_true, if_neg]
  unfold accepted at valid
  simp [own,valid]

theorem setPreviousFields (h g : Half) (best : UInt32 × UInt32) (ram : Ram) :
    ((ram.setPrevious h best).start g).prev = some h ∧
    ((ram.setPrevious h best).start g).prevLatest = best.1 :=
  ⟨rfl,rfl⟩

theorem initRamTrusted {m : Memory} (ram : Ram) (trust : trusted m.view = true) :
    (initRam m ram).prev = some (halfOf (m.view .active)) ∧
    (initRam m ram).prevLatest = (scan (halfOf (m.view .active)) m.view).1 := by
  have found : initRam m ram =
      (ram.setPrevious (halfOf (m.view .active)) (scan (halfOf (m.view .active)) m.view)).start
        (halfOf ((initRing m).view .active)) :=
    congrArg (Ram.start _) (if_pos trust)
  rw [found]
  exact setPreviousFields _ _ _ ram

theorem initRamUntrusted {m : Memory} (ram : Ram) (trust : ¬trusted m.view = true) :
    (initRam m ram).prev = ram.prev := by
  unfold initRam
  rw [if_neg trust]
  rfl

theorem initRamCur (m : Memory) (ram : Ram) :
    (initRam m ram).cur = some (halfOf ((initRing m).view .active)) ∧ (initRam m ram).latest = 0 :=
  ⟨rfl,rfl⟩

theorem initApart {m : Memory} (trust : trusted m.view = true) :
    halfOf (m.view .active) ≠ halfOf ((initRing m).view .active) := by
  have small := (trustedHeader.mp trust).active
  have active : (initRing m).view .active = m.view .active ^^^ 1 := by
    unfold initRing
    rw [if_pos trust]
    exact storeSame _ _
  rw [active]
  exact (otherHalf small).2.symm

theorem prevTrusted {s : Device} {h : Half} (clear : s.ram = .cleared)
    (prev : (initRam s.memory s.ram).prev = some h) :
    trusted s.memory.view = true ∧ h = halfOf (s.memory.view .active) := by
  by_cases trust : trusted s.memory.view = true
  · rw [(initRamTrusted s.ram trust).1] at prev
    exact ⟨trust,(Option.some.inj prev).symm⟩
  · rw [initRamUntrusted s.ram trust, clear] at prev
    exact nomatch prev

theorem initRunning {s : Device} {bootId : UInt64} (off : Off s) (fresh : bootId ∉ s.ids) :
    Running (init bootId s) := by
  obtain ⟨cur,latest⟩ := initRamCur s.memory s.ram
  have none : complete (init bootId s) = 0 := by
    unfold complete init
    dsimp only
    rw [off.lock]
  refine ⟨cur,nofun,(by decide : 0 < UInt32.size),latest,Nat.le_refl _,fun _ => rfl,?_,⟨_,initHeader s.memory bootId⟩,?_,?_,
    nofun,List.mem_cons_self,?_⟩
  · intro k held
    exact nomatch off.lock.symm.trans held
  · intro k done
    rw [none] at done
    exact absurd done (Nat.not_lt_zero _)
  · intro id work own found
    exact nomatch (off.callers id).symm.trans found
  · intro i c mem
    have drawn : i ∈ s.ids := by
      rcases off.history with ⟨_,empty⟩ | ⟨b,crashed⟩
      · change (i,c) ∈ s.committed at mem
        rw [empty] at mem
        exact absurd mem List.not_mem_nil
      · exact (crashed.committed i c mem).1
    refine ⟨List.mem_cons_of_mem _ drawn,fun same => ?_⟩
    change i = bootId at same
    exact absurd (same ▸ drawn) fresh

theorem initSame {s : Device} {h : Half} (bootId : UInt64) (clear : s.ram = .cleared)
    (prev : (initRam s.memory s.ram).prev = some h) :
    (∀ i, slotAt (initMemory bootId s.memory).view h i = slotAt s.memory.view h i) ∧
    (initMemory bootId s.memory).view (.bootId h) = s.memory.view (.bootId h) := by
  obtain ⟨trust,rfl⟩ := prevTrusted clear prev
  obtain ⟨slots,ids⟩ := initKeeps s.memory bootId
  exact ⟨slots _,ids _ (initApart trust)⟩

theorem acceptedLine {s : Device} {b : BootLog} {i : Index} (crashed : Crashed s b)
    (checks : ChecksOut s) (valid : accepted b.half s.memory.view i) :
    ∃ k c, k < b.begun ∧ b.lines[k]? = some c ∧ Holds (slotAt s.memory.view b.half i) c := by
  obtain ⟨count,shown⟩ := crashed.header
  have id : s.memory.view (.bootId b.half) = b.id := shown (.bootId b.half) _ (if_pos rfl)
  obtain ⟨c,committed,holds⟩ := checks b.half i valid
  rw [id] at committed
  obtain ⟨k,done,line⟩ := (crashed.committed b.id c committed).2 rfl
  exact ⟨k,c,done,line,holds⟩

theorem initOnly {s : Device} {bootId : UInt64} (off : Off s) (checks : ChecksOut s) (seq : UInt32)
    (out : LineOut) (got : (init bootId s).recovered seq = some out) :
    ∃ b c, s.past = some b ∧ c ∈ b.lines ∧ c.seq = seq ∧ Reads out c := by
  obtain ⟨h,prev,valid,own,rfl⟩ := getAccepted got
  obtain ⟨slots,id⟩ := initSame bootId off.ram prev
  obtain ⟨trust,half⟩ := prevTrusted off.ram prev
  unfold accepted at valid
  rw [slots, id] at valid
  rw [slots] at own
  rcases off.history with ⟨_,none⟩ | ⟨b,crashed⟩
  · obtain ⟨c,committed,_⟩ := checks h (slotIndex seq) valid
    rw [none] at committed
    exact absurd committed List.not_mem_nil
  · obtain ⟨count,shown⟩ := crashed.header
    have same : h = b.half := half.trans (headerTrusted shown).2
    subst same
    obtain ⟨k,c,_,line,holds⟩ := acceptedLine crashed checks valid
    refine ⟨b,c,crashed.past,List.mem_of_getElem? line,holds.seq.symm.trans own,?_⟩
    rw [slots]
    exact ⟨own.symm.trans holds.seq,holds.uptimeMs,holds.text⟩

/- A line that has returned is accepted and among the last 1024 that the scan may find. -/
theorem initKept {s : Device} {bootId : UInt64} {b : BootLog} {k : Nat} (off : Off s)
    (crashed : Crashed s b) (checks : ChecksOut s) (returned : k ∈ b.returned) (free : ¬Taken b k) :
    ∃ c out, b.lines[k]? = some c ∧ (init bootId s).recovered c.seq = some out ∧ Reads out c := by
  obtain ⟨done,has⟩ := crashed.returned k returned
  have begun := crashed.begun
  have few := crashed.few
  obtain ⟨c,line⟩ : ∃ c, b.lines[k]? = some c :=
    ⟨_,List.getElem?_eq_getElem (Nat.lt_of_lt_of_le done begun)⟩
  have shown := has c line free
  have seq : c.seq = UInt32.ofNat (k + 1) := (crashed.numbered k c line).trans (congrArg UInt32.ofNat (by omega))
  have nonzero : c.seq ≠ 0 := seq ▸ seqNonzero (by omega)
  obtain ⟨count,head⟩ := crashed.header
  obtain ⟨trust,half⟩ := headerTrusted head
  have id : s.memory.view (.bootId b.half) = b.id := head (.bootId b.half) _ (if_pos rfl)
  obtain ⟨prev,prevLatest⟩ := initRamTrusted (m := s.memory) s.ram trust
  rw [half] at prev prevLatest
  have valid : accepted b.half s.memory.view (slotIndex c.seq) := by
    unfold accepted
    rw [id]
    exact shownValid shown nonzero
  obtain ⟨bounds,source⟩ := scanAll b.half s.memory.view
  obtain ⟨holds,_⟩ := shownHolds shown
  have reached : c.seq ≤ (initRam s.memory s.ram).prevLatest := by
    rw [prevLatest, ← holds.seq]
    exact bounds _ valid
  have near : ((initRam s.memory s.ram).prevLatest - c.seq).toNat < 1024 := by
    rw [prevLatest] at reached ⊢
    rcases source with zero | ⟨i,other,latest⟩
    · rw [zero] at reached
      have low := UInt32.le_iff_toNat_le.mp reached
      exact absurd (UInt32.toNat_inj.mp (Nat.le_zero.mp low)) nonzero
    · obtain ⟨j,d,before,lineD,holdsD⟩ := acceptedLine crashed checks other
      have seqD : d.seq = UInt32.ofNat (j + 1) :=
        (crashed.numbered j d lineD).trans (congrArg UInt32.ofNat (by omega))
      rw [latest, holdsD.seq, seqD, seq] at reached ⊢
      have order := UInt32.le_iff_toNat_le.mp reached
      rw [UInt32.toNat_ofNat_of_lt' (by omega), UInt32.toNat_ofNat_of_lt' (by omega)] at order
      rw [← UInt32.ofNat_sub order, UInt32.toNat_ofNat_of_lt' (by omega)]
      unfold Taken at free
      omega
  obtain ⟨slots,sameId⟩ := initSame bootId off.ram prev
  refine ⟨c,_,line,getGives prev ?_ nonzero ?_ ?_ reached near,?_⟩
  · rw [(initRamCur s.memory s.ram).1]
    exact fun same => initApart trust (half.trans (Option.some.inj same))
  · unfold accepted
    rw [slots, sameId]
    exact valid
  · rw [slots]
    exact holds.seq
  · rw [slots]
    exact ⟨rfl,holds.uptimeMs,holds.text⟩

theorem initRemembers {s : Device} {bootId : UInt64} (off : Off s) (checks : ChecksOut s) :
    Remembers (init bootId s) := by
  refine ⟨fun _ => rfl,fun h prev => ?_,initOnly off checks,fun b past k returned free => ?_⟩
  · obtain ⟨trust,rfl⟩ := prevTrusted off.ram prev
    exact initApart trust
  · rcases off.history with ⟨none,_⟩ | ⟨d,crashed⟩
    · exact nomatch none.symm.trans past
    · cases Option.some.inj (crashed.past.symm.trans past)
      exact initKept off crashed checks returned free

theorem offEvict {s : Device} (off : Off s) (k : Line) :
    Off {s with memory := s.memory.writeBack line k} := by
  refine ⟨off.ram,off.callers,off.lock,off.history.imp_right (fun found => ?_)⟩
  obtain ⟨b,past,header,numbered,few,begun,returned,committed⟩ := found
  exact ⟨b,past,header,numbered,few,begun,returned,committed⟩

/- A boot runs and remembers the one before, or there is none. -/
def Sound (s : Device) : Prop := (Running s ∧ Remembers s) ∨ Off s

theorem powerOnOff (memory : Cells) : Off (powerOn memory) :=
  ⟨rfl,fun _ => rfl,rfl,.inl ⟨rfl,rfl⟩⟩

theorem runningStep {s t : Device} {l : Label} (running : Running s) (few : Few s l)
    (lives : l ≠ .crash) (taken : step s l = some t) : Running t := by
  cases stepped taken with
  | evict k => exact runningEvict running k
  | call id call nowMs _ => exact runningGoTo running nofun
  | enter id call nowMs _ free => exact runningEnter running free (few _ taken)
  | proceed h k cur locked =>
    cases Option.some.inj (running.cur.symm.trans cur)
    exact runningProceed running locked
  | writeBack id work own here => exact runningWriteBack running here
  | crash _ => exact absurd rfl lives
  | init bootId off =>
    rw [running.cur] at off
    exact absurd off Bool.false_ne_true

theorem remembersLabel {s t : Device} {l : Label} (running : Running s) (remembers : Remembers s)
    (lives : l ≠ .crash) (taken : step s l = some t) : Remembers t := by
  cases stepped taken with
  | evict k => exact remembersStep running remembers rfl rfl rfl rfl (fun h _ => ⟨rfl,fun _ => rfl⟩) rfl rfl
  | call id call nowMs _ =>
    exact remembersStep running remembers rfl rfl rfl rfl (fun h _ => ⟨rfl,fun _ => rfl⟩) rfl rfl
  | enter id call nowMs _ _ => exact remembersEnter running remembers id call nowMs
  | proceed h k cur _ =>
    cases Option.some.inj (running.cur.symm.trans cur)
    exact remembersProceed running remembers k
  | writeBack id work own _ => exact remembersWriteBack running remembers id work own
  | crash _ => exact absurd rfl lives
  | init bootId off =>
    rw [running.cur] at off
    exact absurd off Bool.false_ne_true

theorem asleepStep {s t : Device} {l : Label} (cur : s.ram.cur = none) (idle : ∀ id, s.callers id = .idle)
    (taken : step s l = some t) : (∃ k, t = {s with memory := s.memory.writeBack line k}) ∨
      ∃ bootId, l = .init bootId ∧ t = init bootId s := by
  cases stepped taken with
  | evict k => exact .inl ⟨k,rfl⟩
  | call id call nowMs runs =>
    rw [cur] at runs
    exact absurd runs Bool.false_ne_true
  | enter id call nowMs entering _ =>
    rw [idle id] at entering
    contradiction
  | proceed h k runs _ =>
    rw [cur] at runs
    contradiction
  | writeBack id work own here =>
    rw [idle id] at here
    contradiction
  | crash runs =>
    rw [cur] at runs
    exact absurd runs Bool.false_ne_true
  | init bootId _ => exact .inr ⟨bootId,rfl,rfl⟩

theorem offStep {s t : Device} {l : Label} (off : Off s) (taken : step s l = some t) :
    (Off t ∧ t.ids = s.ids) ∨ ∃ bootId, l = .init bootId ∧ t = init bootId s := by
  have cur : s.ram.cur = none := off.ram ▸ rfl
  rcases asleepStep cur off.callers taken with ⟨k,rfl⟩ | init
  · exact .inl ⟨offEvict off k,rfl⟩
  · exact .inr init

theorem soundRunning {s t : Device} {l : Label} (running : Running s) (remembers : Remembers s)
    (trust : Trusted s l) (stepped : step s l = some t) : Sound t := by
  by_cases crashes : l = .crash
  · subst crashes
    obtain ⟨_,same⟩ := Option.ite_none_right_eq_some.mp stepped
    cases Option.some.inj same
    exact .inr (crashOff running)
  · exact .inl ⟨runningStep running trust.2.2 crashes stepped,
      remembersLabel running remembers crashes stepped⟩

theorem soundOff {s t : Device} {l : Label} (off : Off s) (trust : Trusted s l)
    (stepped : step s l = some t) : Sound t := by
  rcases offStep off stepped with ⟨still,_⟩ | ⟨bootId,rfl,rfl⟩
  · exact .inr still
  · obtain ⟨checks,fresh,_⟩ := trust
    exact .inl ⟨initRunning off fresh,initRemembers off checks⟩

theorem sound {s : Device} (reached : device.Under Trusted s) : Sound s := by
  refine underInvariant Sound ?_ ?_ reached
  · rintro _ ⟨memory,rfl⟩
    exact .inr (powerOnOff memory)
  · intro s l t inv trust stepped
    rcases inv with ⟨running,remembers⟩ | off
    · exact soundRunning running remembers trust stepped
    · exact soundOff off trust stepped

end EpskcCommissioner.LogRingRecovery
