import Mathlib.Data.List.Basic

/-! Pages of numbered rows: where a page starts, and the loop that asks for one number after
the other until there are enough rows. The numbers are 32 bits wide, so the last one is
followed by zero, which no row has. -/
namespace EpskcCommissioner.Paging

/- Where the page behind `after` starts; zero where nothing is behind it. -/
def firstSeq (after oldest latest : UInt32) : UInt32 :=
  let start := if latest ≤ after then 0 else after + 1
  if start ≠ 0 ∧ start < oldest then oldest else start

section
variable {α : Type} (get : UInt32 → Option α)

/- The loop: `get seq` is what is found when the loop comes to `seq`. -/
def readPage (latest : UInt32) : (fuel : Nat) → (seq : UInt32) → (left : Nat) → List α
  | 0, _, _ => []
  | fuel + 1, seq, left =>
    if seq ≠ 0 ∧ seq ≤ latest ∧ left ≠ 0 then
      match get seq with
      | none => readPage latest fuel (seq + 1) left
      | some row => row :: readPage latest fuel (seq + 1) (left - 1)
    else []

theorem readPageStops {latest seq : UInt32} (fuel left : Nat) (stop : seq = 0 ∨ latest < seq ∨ left = 0) :
    readPage get latest fuel seq left = [] := by
  cases fuel with
  | zero => rfl
  | succ fuel =>
    apply if_neg
    rintro ⟨nonzero,inside,some⟩
    rcases stop with zero | past | none
    · exact nonzero zero
    · exact absurd inside (UInt32.not_le.mpr past)
    · exact some none

/- With fuel for every number, a page has the first rows that are there. -/
theorem readPageSeqs {latest seq : UInt32} {fuel : Nat} (left : Nat) (nonzero : seq ≠ 0)
    (enough : latest.toNat + 1 - seq.toNat ≤ fuel) :
    readPage get latest fuel seq left =
      ((List.range' seq.toNat (latest.toNat + 1 - seq.toNat)).filterMap
        (fun s => get (UInt32.ofNat s))).take left := by
  induction fuel generalizing seq left with
  | zero => rw [Nat.le_zero.mp enough]; simp [readPage]
  | succ fuel ih =>
    by_cases past : latest < seq
    · have none : latest.toNat + 1 - seq.toNat = 0 := by
        have := UInt32.lt_iff_toNat_lt.mp past
        omega
      rw [readPageStops get _ _ (.inr (.inl past)), none]
      simp
    · have inside : seq.toNat ≤ latest.toNat := UInt32.le_iff_toNat_le.mp (UInt32.not_lt.mp past)
      by_cases done : left = 0
      · rw [readPageStops get _ _ (.inr (.inr done)), done, List.take_zero]
      · have more : latest.toNat + 1 - seq.toNat = (latest.toNat - seq.toNat) + 1 := by omega
        have rest : ∀ left, readPage get latest fuel (seq + 1) left =
            ((List.range' (seq.toNat + 1) (latest.toNat - seq.toNat)).filterMap
              (fun s => get (UInt32.ofNat s))).take left := by
          intro left
          have small := latest.toNat_lt
          by_cases last : seq.toNat + 1 = 4294967296
          · have zero : seq + 1 = 0 := by
              apply UInt32.toNat_inj.mp
              rw [UInt32.toNat_add, UInt32.toNat_one, last]
              rfl
            have none : latest.toNat - seq.toNat = 0 := by omega
            rw [readPageStops get _ _ (.inl zero), none]
            simp
          · have next : (seq + 1).toNat = seq.toNat + 1 := by
              rw [UInt32.toNat_add, UInt32.toNat_one, Nat.mod_eq_of_lt (by omega)]
            have some : seq + 1 ≠ 0 := by
              intro zero
              rw [zero] at next
              exact absurd next (by simp)
            have count : latest.toNat + 1 - (seq + 1).toNat = latest.toNat - seq.toNat := by omega
            rw [ih left some (by omega), count, next]
        rw [readPage, if_pos ⟨nonzero,UInt32.not_lt.mp past,done⟩, more, List.range'_succ,
          List.filterMap_cons, UInt32.ofNat_toNat]
        cases found : get seq with
        | none => exact rest left
        | some row =>
          dsimp only
          rw [rest]
          obtain ⟨k,rfl⟩ := Nat.exists_eq_succ_of_ne_zero done
          rfl

theorem rangeFrom {m n : Nat} (pos : 0 < m) :
    (List.range' 1 n).filter (fun s => m ≤ s) = List.range' m (n + 1 - m) := by
  rcases Nat.lt_or_ge n m with past | inside
  · rw [show n + 1 - m = 0 by omega, List.range'_zero, List.filter_eq_nil_iff]
    intro s mem
    have := List.mem_range'_1.mp mem
    simp only [decide_eq_true_eq]
    omega
  · have split : List.range' 1 n = List.range' 1 (m - 1) ++ List.range' m (n + 1 - m) := by
      have joined := List.range'_append_1 (s := 1) (m := m - 1) (n := n + 1 - m)
      rw [show 1 + (m - 1) = m by omega, show m - 1 + (n + 1 - m) = n by omega] at joined
      exact joined.symm
    rw [split, List.filter_append, List.filter_eq_nil_iff.mpr, List.filter_eq_self.mpr, List.nil_append]
    · intro s mem
      exact decide_eq_true (List.mem_range'_1.mp mem).1
    · intro s mem
      have := List.mem_range'_1.mp mem
      simp only [decide_eq_true_eq]
      omega

theorem pageRows {after oldest latest : UInt32} {fuel : Nat} (left : Nat)
    (enough : latest.toNat < fuel) :
    readPage get latest fuel (firstSeq after oldest latest) left =
      (((List.range' 1 latest.toNat).filter (fun s => max (after.toNat + 1) oldest.toNat ≤ s)).filterMap
        (fun s => get (UInt32.ofNat s))).take left := by
  rw [rangeFrom (by omega)]
  by_cases none : latest ≤ after
  · have zero : firstSeq after oldest latest = 0 := by simp [firstSeq,none]
    have := UInt32.le_iff_toNat_le.mp none
    rw [zero, readPageStops get _ _ (.inl rfl),
      show latest.toNat + 1 - max (after.toNat + 1) oldest.toNat = 0 by omega]
    simp
  · have behind : after.toNat < latest.toNat := UInt32.lt_iff_toNat_lt.mp (UInt32.not_le.mp none)
    have small := latest.toNat_lt
    have next : (after + 1).toNat = after.toNat + 1 := by
      rw [UInt32.toNat_add, UInt32.toNat_one, Nat.mod_eq_of_lt (by omega)]
    have some : after + 1 ≠ 0 := by
      intro zero
      rw [zero] at next
      exact absurd next (by simp)
    have start : (firstSeq after oldest latest).toNat = max (after.toNat + 1) oldest.toNat := by
      unfold firstSeq
      rw [if_neg none]
      by_cases early : after + 1 < oldest
      · have := UInt32.lt_iff_toNat_lt.mp early
        rw [if_pos ⟨some,early⟩]
        omega
      · have := UInt32.le_iff_toNat_le.mp (UInt32.not_lt.mp early)
        rw [if_neg (fun both => early both.2)]
        omega
    have nonzero : firstSeq after oldest latest ≠ 0 := by
      intro zero
      rw [zero, UInt32.toNat_zero] at start
      omega
    rw [readPageSeqs get left nonzero (by omega), start]

end

end EpskcCommissioner.Paging
