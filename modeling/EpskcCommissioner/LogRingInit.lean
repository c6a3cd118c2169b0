import EpskcCommissioner.LogRingRunning

/-! What `log_ring_init` leaves: a header that the next boot trusts, written through to the
external memory, and every slot and the other half as they were. The scan finds the
highest number among the slots that the check accepts. -/
namespace EpskcCommissioner.LogRingInit
open LogRing LogRingSlots LogRingRunning CachedMemory

theorem halfOfVal (h : Half) : halfOf (UInt32.ofNat h.val) = h ∧ UInt32.ofNat h.val < 2 := by
  match h with
  | 0 => decide
  | 1 => decide

theorem activeCases {a : UInt32} (small : a < 2) : a = 0 ∨ a = 1 := by
  have : a.toNat < 2 := small
  rcases Nat.lt_succ_iff_lt_or_eq.mp this with lt | one
  · exact .inl (UInt32.toNat_inj.mp (by simpa using lt))
  · exact .inr (UInt32.toNat_inj.mp (by simpa using one))

theorem activeVal {a : UInt32} (small : a < 2) : UInt32.ofNat (halfOf a).val = a := by
  rcases activeCases small with rfl | rfl <;> decide

theorem otherHalf {a : UInt32} (small : a < 2) : a ^^^ 1 < 2 ∧ halfOf (a ^^^ 1) ≠ halfOf a := by
  rcases activeCases small with rfl | rfl <;> decide

structure Header (cells : Cells) : Prop where
  magic : cells .magic = ringMagic
  layout : cells .layout = ringLayout
  active : cells .active < 2
  half : cells (.halfMagic (halfOf (cells .active))) = halfMagic
  count : cells (.halfBootCount (halfOf (cells .active))) = cells .bootCount

theorem trustedHeader {cells : Cells} : trusted cells = true ↔ Header cells := by
  unfold trusted
  simp only [Bool.and_eq_true,beq_iff_eq,decide_eq_true_eq]
  exact ⟨fun h => ⟨h.1.1.1.1,h.1.1.1.2,h.1.1.2,h.1.2,h.2⟩,fun h => ⟨⟨⟨⟨h.magic,h.layout⟩,h.active⟩,h.half⟩,h.count⟩⟩

theorem headerTrusted {cells : Cells} {h : Half} {count : UInt32} {bootId : UInt64}
    (shown : Shows (header h count bootId) cells) :
    trusted cells = true ∧ halfOf (cells .active) = h := by
  have active : cells .active = UInt32.ofNat h.val := shown .active _ rfl
  obtain ⟨half,small⟩ := halfOfVal h
  have own : halfOf (cells .active) = h := active ▸ half
  refine ⟨trustedHeader.mpr ⟨shown .magic _ rfl,shown .layout _ rfl,active ▸ small,?_,?_⟩,own⟩
  · rw [own]
    exact shown (.halfMagic h) _ (if_pos rfl)
  · rw [own]
    exact (shown (.halfBootCount h) _ (if_pos rfl)).trans (shown .bootCount count rfl).symm

theorem initRingHeader (m : Memory) :
    (initRing m).view .magic = ringMagic ∧ (initRing m).view .layout = ringLayout ∧
    (initRing m).view .active < 2 := by
  unfold initRing
  split
  · rename_i trust
    obtain ⟨magic,layout,active,_,_⟩ := trustedHeader.mp trust
    exact ⟨magic,layout,(otherHalf active).1⟩
  · exact ⟨rfl,rfl,(by decide : (0 : UInt32) < 2)⟩

def inRing : Loc → Prop
  | .magic | .layout | .bootCount | .active => True
  | _ => False

theorem initRingOther {m : Memory} {l : Loc} (other : ¬inRing l) :
    (initRing m).view l = m.view l := by
  have ne : ∀ r, inRing r → l ≠ r := by
    rintro r inside rfl
    exact other inside
  unfold initRing
  split
  · exact (storeOther _ (ne .active trivial)).trans (storeOther _ (ne .bootCount trivial))
  · exact (storeOther _ (ne .active trivial)).trans ((storeOther _ (ne .bootCount trivial)).trans
      ((storeOther _ (ne .layout trivial)).trans (storeOther _ (ne .magic trivial))))

def inHalf (h : Half) : Loc → Prop
  | .halfMagic g | .halfBootCount g | .bootId g => g = h
  | _ => False

theorem initHalfOther {m : Memory} {bootId : UInt64} {l : Loc}
    (other : ¬inHalf (halfOf (m.view .active)) l) : (initHalf bootId m).view l = m.view l := by
  have ne : ∀ r, inHalf (halfOf (m.view .active)) r → l ≠ r := by
    rintro r inside rfl
    exact other inside
  unfold initHalf
  exact (storeOther _ (ne (.halfMagic _) rfl)).trans ((storeOther _ (ne (.bootId _) rfl)).trans
    ((storeOther _ (ne (.halfBootCount _) rfl)).trans (storeOther _ (ne (.halfMagic _) rfl))))

theorem initHalfOwn (m : Memory) (bootId : UInt64) :
    let h := halfOf (m.view .active)
    (initHalf bootId m).view (.halfMagic h) = halfMagic ∧
    (initHalf bootId m).view (.halfBootCount h) = m.view .bootCount ∧
    (initHalf bootId m).view (.bootId h) = bootId := by
  refine ⟨storeSame _ _,?_,?_⟩
  · exact (storeOther _ (by simp)).trans ((storeOther _ (by simp)).trans (storeSame _ _))
  · exact (storeOther _ (by simp)).trans (storeSame _ _)

theorem initHeader (m : Memory) (bootId : UInt64) :
    let h := halfOf ((initRing m).view .active)
    Shows (header h ((initRing m).view .bootCount) bootId) (initMemory bootId m).view ∧
    Shows (header h ((initRing m).view .bootCount) bootId) (initMemory bootId m).stored := by
  intro h
  obtain ⟨magic,layout,small⟩ := initRingHeader m
  obtain ⟨half,count,id⟩ := initHalfOwn (initRing m) bootId
  have ring : ∀ l, inRing l → (initHalf bootId (initRing m)).view l = (initRing m).view l := by
    intro l inside
    refine initHalfOther (fun also => ?_)
    unfold inRing at inside
    unfold inHalf at also
    split at inside <;> contradiction
  have viewed : Shows (header h ((initRing m).view .bootCount) bootId) (initMemory bootId m).view := by
    change Shows _ (initHalf bootId (initRing m)).view
    intro l v want
    unfold header at want
    split at want <;> try contradiction
    · exact (ring .magic trivial).trans (magic.trans (Option.some.inj want))
    · exact (ring .layout trivial).trans (layout.trans (Option.some.inj want))
    · exact (ring .bootCount trivial).trans (Option.some.inj want)
    · exact (ring .active trivial).trans ((activeVal small).symm.trans (Option.some.inj want))
    all_goals
      split at want <;> try contradiction
      rename_i own
      rw [own, ← Option.some.inj want]
    · exact half
    · exact count
    · exact id
  refine ⟨viewed,fun l v want => ?_⟩
  have reached : line l = .half h ∨ line l = .ring := by
    unfold header at want
    split at want <;> try contradiction
    · exact .inr rfl
    · exact .inr rfl
    · exact .inr rfl
    · exact .inr rfl
    all_goals
      split at want <;> try contradiction
      rename_i own
      exact .inl (congrArg Line.half own)
  have active : (initHalf bootId (initRing m)).view .active = (initRing m).view .active :=
    ring .active trivial
  change (if line l = .half (halfOf ((initHalf bootId (initRing m)).view .active)) then _
    else if line l = .ring then _ else _) = v
  rw [active]
  rcases reached with own | own
  · rw [if_pos own]
    exact viewed l v want
  · rw [own, if_neg nofun, if_pos rfl]
    exact viewed l v want

theorem slotOutside {g : Half} {i : Index} {l : Loc} (inside : inSlot g i l) :
    ¬inRing l ∧ ∀ h, ¬inHalf h l := by
  unfold inSlot at inside
  split at inside <;> try contradiction
  all_goals exact ⟨fun no => no,fun _ no => no⟩

theorem initKeeps (m : Memory) (bootId : UInt64) :
    (∀ h i, slotAt (initMemory bootId m).view h i = slotAt m.view h i) ∧
    ∀ h, h ≠ halfOf ((initRing m).view .active) →
      (initMemory bootId m).view (.bootId h) = m.view (.bootId h) := by
  refine ⟨fun h i => slotSame (fun l inside => ?_),fun h other => ?_⟩
  · exact (initHalfOther ((slotOutside inside).2 _)).trans (initRingOther (slotOutside inside).1)
  · exact (initHalfOther (l := .bootId h) other).trans (initRingOther (l := .bootId h) (fun no => no))

theorem initStored (m : Memory) (bootId : UInt64) {l : Loc} (ring : line l ≠ .ring)
    (half : line l ≠ .half (halfOf ((initRing m).view .active))) :
    (initMemory bootId m).stored l = m.stored l := by
  have active : (initHalf bootId (initRing m)).view .active = (initRing m).view .active :=
    initHalfOther (fun no => no)
  change (if line l = .half (halfOf ((initHalf bootId (initRing m)).view .active)) then _
    else if line l = .ring then _ else (initRing m).stored l) = _
  rw [active, if_neg half, if_neg ring]
  unfold initRing
  split <;> rfl

def accepted (h : Half) (cells : Cells) (i : Index) : Prop :=
  slotValid (slotAt cells h i) (cells (.bootId h)) = true

theorem scanSlotHighest (h : Half) (cells : Cells) (best : UInt32 × UInt32) (i : Index) :
    best.1 ≤ (scanSlot h cells best i).1 ∧
    (accepted h cells i → (slotAt cells h i).seq ≤ (scanSlot h cells best i).1) ∧
    ((scanSlot h cells best i).1 = best.1 ∨
      accepted h cells i ∧ (scanSlot h cells best i).1 = (slotAt cells h i).seq) := by
  unfold scanSlot
  dsimp only
  split
  · rename_i better
    simp only [Bool.and_eq_true,decide_eq_true_eq] at better
    exact ⟨UInt32.le_of_lt better.1,fun _ => UInt32.le_refl _,.inr ⟨better.2,rfl⟩⟩
  · rename_i worse
    refine ⟨UInt32.le_refl _,fun valid => ?_,.inl rfl⟩
    simp only [Bool.and_eq_true,decide_eq_true_eq,not_and] at worse
    exact UInt32.not_lt.mp (fun higher => worse higher valid)

theorem scanHighest {h : Half} {cells : Cells} (slots : List Index) (best : UInt32 × UInt32) :
    best.1 ≤ (slots.foldl (scanSlot h cells) best).1 ∧
    (∀ i ∈ slots, accepted h cells i →
      (slotAt cells h i).seq ≤ (slots.foldl (scanSlot h cells) best).1) ∧
    ((slots.foldl (scanSlot h cells) best).1 = best.1 ∨ ∃ i, accepted h cells i ∧
      (slots.foldl (scanSlot h cells) best).1 = (slotAt cells h i).seq) := by
  induction slots generalizing best with
  | nil => exact ⟨UInt32.le_refl _,nofun,.inl rfl⟩
  | cons i rest ih =>
    obtain ⟨grows,bounds,source⟩ := ih (scanSlot h cells best i)
    obtain ⟨here,own,first⟩ := scanSlotHighest h cells best i
    refine ⟨UInt32.le_trans here grows,fun k mem valid => ?_,?_⟩
    · rcases List.mem_cons.mp mem with rfl | later
      · exact UInt32.le_trans (own valid) grows
      · exact bounds k later valid
    · rcases source with same | other
      · rcases first with kept | ⟨valid,now⟩
        · exact .inl (same.trans kept)
        · exact .inr ⟨i,valid,same.trans now⟩
      · exact .inr other

theorem scanAll (h : Half) (cells : Cells) :
    (∀ i, accepted h cells i → (slotAt cells h i).seq ≤ (scan h cells).1) ∧
    ((scan h cells).1 = 0 ∨ ∃ i, accepted h cells i ∧ (scan h cells).1 = (slotAt cells h i).seq) := by
  unfold scan
  have all : ∀ i : Index, i ∈ List.finRange 1024 := List.mem_finRange
  generalize List.finRange 1024 = slots at all ⊢
  obtain ⟨_,bounds,source⟩ := @scanHighest h cells slots (0,0)
  exact ⟨fun i => bounds i (all i),source⟩

end EpskcCommissioner.LogRingInit
