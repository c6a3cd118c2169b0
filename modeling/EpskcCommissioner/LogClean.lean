import EpskcCommissioner.LogText
import EpskcCommissioner.Utf8

/-! The texts that `append_clean` makes: whole characters and no control characters. -/
namespace EpskcCommissioner.LogClean
open LogText Utf8
open String (utf8EncodeChar)

def Clean (bytes : List UInt8) : Prop := ∃ cs, bytes = encode cs ∧ ∀ c ∈ cs, 0x20 ≤ c.toNat

theorem cleanNil : Clean [] := ⟨[],rfl,nofun⟩

theorem cleanAppend {xs ys : List UInt8} (first : Clean xs) (second : Clean ys) : Clean (xs ++ ys) := by
  obtain ⟨cs,rfl,printable⟩ := first
  obtain ⟨ds,rfl,also⟩ := second
  refine ⟨cs ++ ds,(encodeAppend cs ds).symm,fun c mem => ?_⟩
  exact (List.mem_append.mp mem).elim (printable c) (also c)

theorem cleanChar {c : Char} (printable : 0x20 ≤ c.toNat) : Clean (utf8EncodeChar c) := by
  refine ⟨[c],?_,?_⟩
  · rw [encodeCons, encodeNil, List.append_nil]
  · intro d mem
    rw [List.mem_singleton.mp mem]
    exact printable

theorem cleanByte {b : UInt8} (low : 0x20 ≤ b.toNat) (high : b.toNat < 0x80) : Clean [b] := by
  obtain ⟨c,code⟩ := charOf (n := b.toNat) (by unfold Nat.isValidChar; omega)
  have same : c.toNat = b.toNat := code
  have one := encodeAscii (c := c) (by omega)
  rw [same, UInt8.ofNat_toNat] at one
  rw [← one]
  exact cleanChar (by omega)

theorem tailBits : ∀ n < 256, n &&& 0xc0 = 0x80 ↔ 0x80 ≤ n ∧ n ≤ 0xbf := by decide +kernel

theorem continuationTail {b : UInt8} : isContinuation b = true ↔ IsTail b := by
  rw [isContinuation, beq_iff_eq, ← UInt8.toNat_inj, UInt8.toNat_and]
  exact tailBits b.toNat b.toNat_lt

theorem leadRange {b : UInt8} (some : utf8Lead b ≠ 0) :
    utf8Lead b = 2 ∧ 0xc2 ≤ b.toNat ∧ b.toNat ≤ 0xdf ∨ utf8Lead b = 3 ∧ 0xe0 ≤ b.toNat ∧ b.toNat ≤ 0xef ∨
      utf8Lead b = 4 ∧ 0xf0 ≤ b.toNat ∧ b.toNat ≤ 0xf4 := by
  unfold utf8Lead at some ⊢
  simp only [Bool.and_eq_true,decide_eq_true_eq,UInt8.le_iff_toNat_le] at some ⊢
  split
  · rename_i two
    exact .inl ⟨rfl,two⟩
  · split
    · rename_i three
      exact .inr (.inl ⟨rfl,three⟩)
    · split
      · rename_i four
        exact .inr (.inr ⟨rfl,four⟩)
      · rename_i two three four
        rw [if_neg two, if_neg three, if_neg four] at some
        exact absurd rfl some

theorem utf8LenChar {b : UInt8} {rest : List UInt8} (some : utf8Len (b :: rest) ≠ 0) :
    ∃ c : Char, (b :: rest).take (utf8Len (b :: rest)) = utf8EncodeChar c ∧ 0x80 ≤ c.toNat := by
  unfold utf8Len at some ⊢
  dsimp only at some ⊢
  split at some <;> try contradiction
  rename_i inside
  split at some <;> try contradiction
  rename_i continues
  split at some <;> try contradiction
  rename_i narrow
  rw [if_neg inside, if_neg continues, if_neg narrow]
  simp only [Bool.or_eq_true,decide_eq_true_eq,not_or,Nat.not_lt] at inside
  simp only [Bool.not_eq_true',Bool.not_eq_false] at continues
  simp only [Bool.or_eq_true,Bool.and_eq_true,beq_iff_eq,decide_eq_true_eq,not_or,not_and] at narrow
  have tails := List.all_eq_true.mp continues
  rcases leadRange some with ⟨two,lead⟩ | ⟨three,lead⟩ | ⟨four,lead⟩
  · rw [two] at inside tails ⊢
    obtain ⟨c,rest,rfl⟩ := List.exists_cons_of_length_pos (show 0 < rest.length by omega)
    exact twoBytes lead (continuationTail.mp (tails c List.mem_cons_self))
  · rw [three] at inside tails ⊢
    obtain ⟨c,rest,rfl⟩ := List.exists_cons_of_length_pos (show 0 < rest.length by omega)
    rw [List.length_cons] at inside
    obtain ⟨d,rest,rfl⟩ := List.exists_cons_of_length_pos (show 0 < rest.length by omega)
    obtain ⟨second,third⟩ := List.forall_mem_cons.mp tails
    obtain ⟨⟨⟨long,scalar⟩,_⟩,_⟩ := narrow
    apply threeBytes lead (continuationTail.mp second) (continuationTail.mp (third d List.mem_cons_self))
    · exact fun same => UInt8.le_iff_toNat_le.mp (UInt8.not_lt.mp (long (UInt8.toNat_inj.mp same)))
    · exact fun same => UInt8.le_iff_toNat_le.mp (UInt8.not_lt.mp (scalar (UInt8.toNat_inj.mp same)))
  · rw [four] at inside tails ⊢
    obtain ⟨c,rest,rfl⟩ := List.exists_cons_of_length_pos (show 0 < rest.length by omega)
    rw [List.length_cons] at inside
    obtain ⟨d,rest,rfl⟩ := List.exists_cons_of_length_pos (show 0 < rest.length by omega)
    rw [List.length_cons] at inside
    obtain ⟨e,rest,rfl⟩ := List.exists_cons_of_length_pos (show 0 < rest.length by omega)
    obtain ⟨second,tails⟩ := List.forall_mem_cons.mp tails
    obtain ⟨third,fourth⟩ := List.forall_mem_cons.mp tails
    obtain ⟨⟨_,long⟩,plane⟩ := narrow
    apply fourBytes lead (continuationTail.mp second) (continuationTail.mp third)
      (continuationTail.mp (fourth e List.mem_cons_self))
    · exact fun same => UInt8.le_iff_toNat_le.mp (UInt8.not_lt.mp (long (UInt8.toNat_inj.mp same)))
    · exact fun same => UInt8.le_iff_toNat_le.mp (UInt8.not_lt.mp (plane (UInt8.toNat_inj.mp same)))

theorem lenTwo {b c : UInt8} (rest : List UInt8) (lead : 0xc2 ≤ b.toNat ∧ b.toNat ≤ 0xdf) (tail : IsTail c) :
    utf8Len (b :: c :: rest) = 2 := by
  have two : utf8Lead b = 2 := by
    unfold utf8Lead
    simp only [Bool.and_eq_true,decide_eq_true_eq,UInt8.le_iff_toNat_le]
    exact if_pos lead
  have continues := continuationTail.mpr tail
  have apart : ∀ n : UInt8, 0xdf < n.toNat → b ≠ n := by
    rintro n above rfl
    omega
  simp [utf8Len,two,continues,apart 0xe0 (by decide),apart 0xed (by decide),apart 0xf0 (by decide),
    apart 0xf4 (by decide)]

theorem lenThree {b c d : UInt8} (rest : List UInt8) (lead : 0xe0 ≤ b.toNat ∧ b.toNat ≤ 0xef)
    (second : IsTail c) (third : IsTail d) (long : b.toNat = 0xe0 → 0xa0 ≤ c.toNat)
    (scalar : b.toNat = 0xed → c.toNat ≤ 0x9f) : utf8Len (b :: c :: d :: rest) = 3 := by
  have three : utf8Lead b = 3 := by
    unfold utf8Lead
    simp only [Bool.and_eq_true,decide_eq_true_eq,UInt8.le_iff_toNat_le]
    exact (if_neg (fun two => absurd (Nat.le_trans lead.1 two.2) (by decide))).trans (if_pos lead)
  have continues := continuationTail.mpr second
  have also := continuationTail.mpr third
  have apart : ∀ n : UInt8, 0xef < n.toNat → b ≠ n := by
    rintro n above rfl
    omega
  have low : b = 0xe0 → ¬ c < 0xa0 := by
    rintro rfl below
    exact absurd (UInt8.lt_iff_toNat_lt.mp below) (Nat.not_lt.mpr (long rfl))
  have high : b = 0xed → ¬ 0x9f < c := by
    rintro rfl above
    exact absurd (UInt8.lt_iff_toNat_lt.mp above) (Nat.not_lt.mpr (scalar rfl))
  have whole : ¬ rest.length + 1 + 1 + 1 < 3 := by omega
  have narrow : ¬ (b = 0xe0 ∧ c < 0xa0 ∨ b = 0xed ∧ 0x9f < c) :=
    fun broken => broken.elim (fun both => low both.1 both.2) (fun both => high both.1 both.2)
  simp [utf8Len,three,continues,also,apart 0xf0 (by decide),apart 0xf4 (by decide),whole,narrow]

theorem lenFour {b c d e : UInt8} (rest : List UInt8) (lead : 0xf0 ≤ b.toNat ∧ b.toNat ≤ 0xf4)
    (second : IsTail c) (third : IsTail d) (fourth : IsTail e) (long : b.toNat = 0xf0 → 0x90 ≤ c.toNat)
    (plane : b.toNat = 0xf4 → c.toNat ≤ 0x8f) : utf8Len (b :: c :: d :: e :: rest) = 4 := by
  have four : utf8Lead b = 4 := by
    unfold utf8Lead
    simp only [Bool.and_eq_true,decide_eq_true_eq,UInt8.le_iff_toNat_le]
    rw [if_neg (fun two => absurd (Nat.le_trans lead.1 two.2) (by decide)),
      if_neg (fun three => absurd (Nat.le_trans lead.1 three.2) (by decide))]
    exact if_pos lead
  have continues := continuationTail.mpr second
  have also := continuationTail.mpr third
  have last := continuationTail.mpr fourth
  have apart : ∀ n : UInt8, n.toNat < 0xf0 → b ≠ n := by
    rintro n below rfl
    omega
  have low : b = 0xf0 → ¬ c < 0x90 := by
    rintro rfl below
    exact absurd (UInt8.lt_iff_toNat_lt.mp below) (Nat.not_lt.mpr (long rfl))
  have high : b = 0xf4 → ¬ 0x8f < c := by
    rintro rfl above
    exact absurd (UInt8.lt_iff_toNat_lt.mp above) (Nat.not_lt.mpr (plane rfl))
  have whole : ¬ rest.length + 1 + 1 + 1 + 1 < 4 := by omega
  have narrow : ¬ (b = 0xf0 ∧ c < 0x90 ∨ b = 0xf4 ∧ 0x8f < c) :=
    fun broken => broken.elim (fun both => low both.1 both.2) (fun both => high both.1 both.2)
  simp [utf8Len,four,continues,also,last,apart 0xe0 (by decide),apart 0xed (by decide),whole,narrow]

theorem utf8LenHigh {ch : Char} (high : 0x80 ≤ ch.toNat) (rest : List UInt8) :
    ∃ b tail, utf8EncodeChar ch = b :: tail ∧ 0x80 ≤ b.toNat ∧
      utf8Len (b :: (tail ++ rest)) = tail.length + 1 := by
  rcases highBytes high with ⟨b,c,bytes,lead,second⟩ | ⟨b,c,d,bytes,lead,second,third,long,scalar⟩ |
    ⟨b,c,d,e,bytes,lead,second,third,fourth,long,plane⟩
  · exact ⟨b,[c],bytes,by omega,lenTwo rest lead second⟩
  · exact ⟨b,[c,d],bytes,by omega,lenThree rest lead second third long scalar⟩
  · exact ⟨b,[c,d,e],bytes,by omega,lenFour rest lead second third fourth long plane⟩

theorem cleanedClean (used skip : Nat) (src : List UInt8) : Clean (cleaned used skip src) := by
  fun_induction cleaned used skip src with
  | case1 => exact cleanNil
  | case2 used skip head rest ih => exact ih
  | case3 => exact cleanNil
  | case4 used rest _ ih => exact ih
  | case5 used rest _ _ ih => exact ih
  | case6 used c rest _ _ _ _ ih => exact cleanAppend (cleanByte (by decide) (by decide)) ih
  | case7 used c rest _ _ _ control ascii ih =>
    simp only [Bool.or_eq_true,decide_eq_true_eq,not_or] at control
    have low := UInt8.le_iff_toNat_le.mp (UInt8.not_lt.mp control.1)
    exact cleanAppend (cleanByte low (UInt8.lt_iff_toNat_lt.mp ascii)) ih
  | case8 used c rest _ _ _ _ _ _ _ ih => exact cleanAppend (cleanByte (by decide) (by decide)) ih
  | case9 => exact cleanNil
  | case10 used c rest _ _ _ _ _ n some _ ih =>
    obtain ⟨ch,whole,high⟩ := utf8LenChar some
    rw [whole]
    exact cleanAppend (cleanChar (Nat.le_trans (by decide) high)) ih

theorem appendCleanClean {dst : Text} (src : List UInt8) (clean : Clean dst.bytes) :
    Clean (appendClean dst src).bytes :=
  cleanAppend clean (cleanedClean dst.bytes.length 0 src)

end EpskcCommissioner.LogClean
