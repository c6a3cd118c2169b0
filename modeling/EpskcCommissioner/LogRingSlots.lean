import EpskcCommissioner.LogRing

/-! What a slot holds once its line is committed, and that the check accepts it. -/
namespace EpskcCommissioner.LogRingSlots
open LogText LogRing CachedMemory

/- What a line wants of the cells of its slot: the bytes after the NUL do not matter. -/
def wanted (h : Half) (bootId : UInt64) (c : Commit) : ∀ l, Option (Cell l)
  | .seq g i => if g = h ∧ i = slotIndex c.seq then some c.seq else none
  | .uptimeMs g i => if g = h ∧ i = slotIndex c.seq then some c.uptimeMs else none
  | .check g i =>
    if g = h ∧ i = slotIndex c.seq then some (checkOf c.seq c.uptimeMs bootId c.text.bytes) else none
  | .text g i j => if g = h ∧ i = slotIndex c.seq then (c.text.bytes ++ [0])[j]? else none
  | _ => none

structure Holds (s : Slot) (c : Commit) : Prop where
  seq : s.seq = c.seq
  uptimeMs : s.uptimeMs = c.uptimeMs
  text : cString s.text = c.text.bytes
  ended : hasNul s.text = true

theorem cStringText (text : Nat → UInt8) (t : Text)
    (same : ∀ (j : Nat) (b : UInt8), (t.bytes ++ [0])[j]? = some b → text j = b) :
    cString text = t.bytes ∧ hasNul text = true := by
  have fits := t.fits
  have nul : text t.bytes.length = 0 := same _ 0 List.getElem?_concat_length
  constructor
  · have front : ((List.range logRingText).map text).take (t.bytes.length + 1) = t.bytes ++ [0] := by
      refine List.ext_getElem? (fun j => ?_)
      rw [List.getElem?_take, List.getElem?_map]
      by_cases inside : j < t.bytes.length + 1
      · have found : j < (t.bytes ++ [0]).length := by rw [List.length_append]; exact inside
        rw [if_pos inside, List.getElem?_range (by omega), List.getElem?_eq_getElem found]
        exact congrArg some (same j _ (List.getElem?_eq_getElem found))
      · rw [if_neg inside, List.getElem?_eq_none]
        rw [List.length_append]
        exact Nat.le_of_not_lt inside
    unfold cString
    rw [← List.take_append_drop (t.bytes.length + 1) ((List.range logRingText).map text), front,
      List.append_assoc, List.takeWhile_append_of_pos]
    · rw [List.cons_append, List.takeWhile_cons_of_neg (by decide), List.append_nil]
    · intro b mem
      exact bne_iff_ne.mpr (t.noNul b mem)
  · refine List.any_eq_true.mpr ⟨t.bytes.length,List.mem_range.mpr fits,?_⟩
    exact beq_iff_eq.mpr nul

theorem shownHolds {h : Half} {bootId : UInt64} {c : Commit} {cells : Cells}
    (shown : Shows (wanted h bootId c) cells) :
    Holds (slotAt cells h (slotIndex c.seq)) c ∧
    cells (.check h (slotIndex c.seq)) = checkOf c.seq c.uptimeMs bootId c.text.bytes := by
  have own : h = h ∧ slotIndex c.seq = slotIndex c.seq := ⟨rfl,rfl⟩
  obtain ⟨text,ended⟩ := cStringText (fun j => cells (.text h (slotIndex c.seq) j)) c.text
    (fun j b at' => shown (.text h (slotIndex c.seq) j) b ((if_pos own).trans at'))
  exact ⟨⟨shown (.seq h (slotIndex c.seq)) _ (if_pos own),
    shown (.uptimeMs h (slotIndex c.seq)) _ (if_pos own),text,ended⟩,
    shown (.check h (slotIndex c.seq)) _ (if_pos own)⟩

theorem shownValid {h : Half} {bootId : UInt64} {c : Commit} {cells : Cells}
    (shown : Shows (wanted h bootId c) cells) (numbered : c.seq ≠ 0) :
    slotValid (slotAt cells h (slotIndex c.seq)) bootId = true := by
  obtain ⟨holds,check⟩ := shownHolds shown
  unfold slotValid slotCheck
  rw [holds.seq, holds.uptimeMs, holds.text, holds.ended]
  simp only [Bool.and_eq_true,bne_iff_ne,beq_iff_eq]
  exact ⟨⟨numbered,trivial⟩,check⟩

def inSlot (h : Half) (i : Index) : Loc → Prop
  | .seq g k | .uptimeMs g k | .check g k | .text g k _ => g = h ∧ k = i
  | _ => False

theorem slotSame {g : Half} {i : Index} {after cells : Cells}
    (same : ∀ l, inSlot g i l → after l = cells l) : slotAt after g i = slotAt cells g i := by
  unfold slotAt
  rw [same (.seq g i) ⟨rfl,rfl⟩, same (.uptimeMs g i) ⟨rfl,rfl⟩, same (.check g i) ⟨rfl,rfl⟩]
  exact congrArg _ (funext fun j => same (.text g i j) ⟨rfl,rfl⟩)

theorem inSlotApart {g h : Half} {i k : Index} {l : Loc} (inside : inSlot g i l) (also : inSlot h k l) :
    g = h ∧ i = k := by
  unfold inSlot at inside also
  split at inside <;> try contradiction
  all_goals exact ⟨inside.1.symm.trans also.1,inside.2.symm.trans also.2⟩

theorem performOther {h : Half} {i : Index} {l : Loc} (m : Memory) (st : Store)
    (other : ¬inSlot h i l) : (perform h i m st).view l = m.view l := by
  cases st <;> refine storeOther _ ?_ <;> rintro rfl <;> exact other ⟨rfl,rfl⟩

theorem performStored (h : Half) (i : Index) (m : Memory) (st : Store) :
    (perform h i m st).stored = m.stored := by
  cases st <;> rfl

theorem performsOther {h : Half} {i : Index} {l : Loc} (stores : List Store) (m : Memory)
    (other : ¬inSlot h i l) : (stores.foldl (perform h i) m).view l = m.view l := by
  induction stores generalizing m with
  | nil => rfl
  | cons st rest ih =>
    rw [List.foldl_cons, ih, performOther m st other]

theorem textStored {h : Half} {i : Index} (bytes : List UInt8) (start j : Nat) (m : Memory) :
    ((textStores start bytes).foldl (perform h i) m).view (.text h i j) =
      if start ≤ j then (bytes[j - start]?).getD (m.view (.text h i j)) else m.view (.text h i j) := by
  induction bytes generalizing start m with
  | nil => simp [textStores]
  | cons b rest ih =>
    rw [textStores, List.foldl_cons, ih]
    by_cases same : j = start
    · subst same
      rw [if_neg (by omega), if_pos (Nat.le_refl _), Nat.sub_self]
      exact storeSame _ _
    · have stays : (perform h i m (.text start b)).view (.text h i j) = m.view (.text h i j) :=
        storeOther _ (fun eq => same (Loc.text.inj eq).2.2)
      rw [stays]
      by_cases after : start + 1 ≤ j
      · rw [if_pos after, if_pos (by omega), show j - start = j - (start + 1) + 1 by omega,
          List.getElem?_cons_succ]
      · rw [if_neg after, if_neg (by omega)]

theorem heldStored {h : Half} {i : Index} (held : Option Text) (m : Memory) (j : Nat)
    (inside : j < (held.getD .empty).bytes.length) :
    ((heldStores held).foldl (perform h i) m).view (.text h i j) = (held.getD .empty).bytes[j] := by
  cases held with
  | none => exact absurd inside (Nat.not_lt_zero _)
  | some t =>
    change j < t.bytes.length at inside
    rw [heldStores, List.foldl_append]
    refine (storeOther _ (fun eq => ?_)).trans ?_
    · have := (Loc.text.inj eq).2.2
      omega
    · rw [textStored, if_pos (Nat.zero_le _), Nat.sub_zero, List.getElem?_eq_getElem inside]
      rfl

theorem bodyStored {h : Half} {i : Index} (c : Commit) (m : Memory) (j : Nat)
    (inside : j < c.text.bytes.length) :
    (c.body.foldl (perform h i) m).view (.text h i j) = c.text.bytes[j] := by
  have bytes : c.text.bytes = c.start.bytes ++ cleaned c.start.bytes.length 0 c.segment := rfl
  have length : c.text.bytes.length =
      c.start.bytes.length + (cleaned c.start.bytes.length 0 c.segment).length := by
    rw [bytes, List.length_append]
  rw [Commit.body, List.foldl_append, List.foldl_append, textStored]
  by_cases front : j < c.start.bytes.length
  · rw [if_neg (Nat.not_le_of_lt front), heldStored c.held _ j front]
    exact (List.getElem_append_left front).symm
  · have tail : j - c.start.bytes.length < (cleaned c.start.bytes.length 0 c.segment).length := by omega
    rw [if_pos (Nat.le_of_not_lt front), List.getElem?_eq_getElem tail]
    exact (List.getElem_append_right (Nat.le_of_not_lt front)).symm

theorem finishHolds {h : Half} {i : Index} (c : Commit) (m : Memory)
    (text : ∀ (j : Nat) (inside : j < c.text.bytes.length), m.view (.text h i j) = c.text.bytes[j]) :
    let n := ([Store.text c.text.bytes.length 0,.uptimeMs c.uptimeMs,.seq c.seq].foldl (perform h i) m)
    n.view (.seq h i) = c.seq ∧ n.view (.uptimeMs h i) = c.uptimeMs ∧
    ∀ (j : Nat) (b : UInt8), (c.text.bytes ++ [0])[j]? = some b → n.view (.text h i j) = b := by
  refine ⟨storeSame _ _,storeSame _ _,fun j b found => ?_⟩
  change (m.store (.text h i c.text.bytes.length) 0).view (.text h i j) = b
  by_cases inside : j < c.text.bytes.length
  · rw [storeOther _ (fun eq => by have := (Loc.text.inj eq).2.2; omega), text j inside]
    rw [List.getElem?_append_left inside, List.getElem?_eq_getElem inside] at found
    exact Option.some.inj found
  · have last : j = c.text.bytes.length := by
      obtain ⟨within,_⟩ := List.getElem?_eq_some_iff.mp found
      rw [List.length_append] at within
      exact Nat.le_antisymm (Nat.lt_succ_iff.mp within) (Nat.le_of_not_lt inside)
    subst last
    rw [List.getElem?_concat_length] at found
    rw [storeSame]
    exact Option.some.inj found

/- All stores of a commit, in order, leave what its line wants. -/
theorem storesShow {h : Half} {bootId : UInt64} (c : Commit) (m : Memory)
    (id : m.view (.bootId h) = bootId) :
    Shows (wanted h bootId c) (c.stores.foldl (perform h (slotIndex c.seq)) m).view := by
  have front := fun j inside => bodyStored (h := h) (i := slotIndex c.seq) c m j inside
  have finished := finishHolds c _ front
  have kept : ((c.body ++ [Store.text c.text.bytes.length 0,.uptimeMs c.uptimeMs,.seq c.seq]).foldl
      (perform h (slotIndex c.seq)) m).view (.bootId h) = bootId :=
    (performsOther (l := .bootId h) _ m (fun no => no)).trans id
  rw [List.foldl_append] at kept
  have stores : c.stores =
      c.body ++ [Store.text c.text.bytes.length 0,.uptimeMs c.uptimeMs,.seq c.seq] ++ [.check] := by
    rw [Commit.stores, List.append_assoc]
    rfl
  rw [stores, List.foldl_append, List.foldl_append]
  generalize List.foldl (perform h (slotIndex c.seq)) (List.foldl (perform h (slotIndex c.seq)) m c.body)
    [Store.text c.text.bytes.length 0,.uptimeMs c.uptimeMs,.seq c.seq] = n at finished kept ⊢
  obtain ⟨seq,uptimeMs,text⟩ := finished
  change Shows _ (n.store (.check h (slotIndex c.seq)) _).view
  intro l v want
  unfold wanted at want
  have check : slotCheck (slotAt n.view h (slotIndex c.seq)) (n.view (.bootId h)) =
      checkOf c.seq c.uptimeMs bootId c.text.bytes := by
    have sameSeq : (slotAt n.view h (slotIndex c.seq)).seq = c.seq := seq
    have sameUptime : (slotAt n.view h (slotIndex c.seq)).uptimeMs = c.uptimeMs := uptimeMs
    have bytes : cString (slotAt n.view h (slotIndex c.seq)).text = c.text.bytes :=
      (cStringText _ c.text text).1
    rw [slotCheck, sameSeq, sameUptime, bytes, kept]
  split at want <;> try contradiction
  · split at want <;> try contradiction
    rename_i own
    rw [own.1, own.2, ← Option.some.inj want]
    exact (storeOther _ (by simp)).trans seq
  · split at want <;> try contradiction
    rename_i own
    rw [own.1, own.2, ← Option.some.inj want]
    exact (storeOther _ (by simp)).trans uptimeMs
  · split at want <;> try contradiction
    rename_i own
    rw [own.1, own.2, ← Option.some.inj want]
    exact (storeSame _ _).trans check
  · split at want <;> try contradiction
    rename_i own
    rw [own.1, own.2]
    exact (storeOther _ (by simp)).trans (text _ _ want)

theorem wantedInSlot {h : Half} {bootId : UInt64} {c : Commit} {l : Loc} {v : Cell l}
    (want : wanted h bootId c l = some v) : inSlot h (slotIndex c.seq) l := by
  unfold wanted at want
  split at want <;> try contradiction
  all_goals
    split at want <;> try contradiction
    assumption

theorem inSlotPart {h : Half} {i : Index} {l : Loc} (inside : inSlot h i l) :
    ∃ part, line l = .slot h i part := by
  unfold inSlot at inside
  split at inside <;> try contradiction
  all_goals
    obtain ⟨rfl,rfl⟩ := inside
    exact ⟨_,rfl⟩

theorem slotLinesPart {h : Half} {i : Index} {k : Line} :
    k ∈ slotLines h i ↔ ∃ part, k = .slot h i part := by
  unfold slotLines
  simp only [List.mem_cons,List.not_mem_nil,or_false]
  constructor
  · rintro (rfl | rfl | rfl) <;> exact ⟨_,rfl⟩
  · rintro ⟨part,rfl⟩
    match part with
    | 0 => exact .inl rfl
    | 1 => exact .inr (.inl rfl)
    | 2 => exact .inr (.inr rfl)

theorem inSlotLine {h : Half} {i : Index} {l : Loc} (inside : inSlot h i l) :
    line l ∈ slotLines h i :=
  slotLinesPart.mpr (inSlotPart inside)

theorem slotLinesOwn {g h : Half} {i k : Index} {l : Loc} (inside : inSlot g i l)
    (mem : line l ∈ slotLines h k) : g = h ∧ i = k := by
  obtain ⟨part,own⟩ := inSlotPart inside
  obtain ⟨other,also⟩ := slotLinesPart.mp mem
  obtain ⟨half,index,_⟩ := Line.slot.inj (own.symm.trans also)
  exact ⟨half,index⟩

theorem showsPerform {h : Half} {bootId : UInt64} {c : Commit} {i : Index} {m : Memory}
    (st : Store) (shown : Shows (wanted h bootId c) m.view) (other : slotIndex c.seq ≠ i) :
    Shows (wanted h bootId c) (perform h i m st).view := by
  intro l v want
  have outside : ¬inSlot h i l := fun inside => other (inSlotApart (wantedInSlot want) inside).2
  rw [performOther m st outside]
  exact shown l v want

end EpskcCommissioner.LogRingSlots
