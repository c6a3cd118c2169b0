import Mathlib.Data.List.Basic

/-! Text as UTF-8: its bytes, a strict reader of them, and the sequences of two, three and
four bytes that are one character. -/
namespace EpskcCommissioner.Utf8
open String (utf8EncodeChar)

def encode (cs : List Char) : List UInt8 := cs.flatMap utf8EncodeChar

def decode (bytes : List UInt8) : Option (List Char) := bytes.toByteArray.utf8Decode?.map Array.toList

theorem decodeEncode (cs : List Char) : decode (encode cs) = some cs := by
  have whole : (encode cs).toByteArray.utf8Decode? = some cs.toArray := List.utf8Decode?_utf8Encode
  rw [decode, whole]
  rfl

theorem encodeNil : encode [] = [] := rfl

theorem encodeCons (c : Char) (cs : List Char) : encode (c :: cs) = utf8EncodeChar c ++ encode cs :=
  List.flatMap_cons

theorem encodeAppend (cs ds : List Char) : encode (cs ++ ds) = encode cs ++ encode ds :=
  List.flatMap_append

theorem encodeAscii {c : Char} (ascii : c.toNat < 0x80) : utf8EncodeChar c = [UInt8.ofNat c.toNat] :=
  if_pos (Nat.le_of_lt_succ ascii)

theorem encodeLength {cs : List Char} (ascii : ∀ c ∈ cs, c.toNat < 0x80) : (encode cs).length = cs.length := by
  induction cs with
  | nil => rfl
  | cons c cs ih =>
    obtain ⟨here,rest⟩ := List.forall_mem_cons.mp ascii
    rw [encodeCons, encodeAscii here, List.length_append, List.length_singleton, ih rest, Nat.add_comm]
    rfl

theorem charOf {n : Nat} (valid : n.isValidChar) : ∃ c : Char, c.val.toNat = n :=
  ⟨Char.ofNatAux n valid,rfl⟩

theorem byteChar (b : UInt8) : (Char.ofNat b.toNat).toNat = b.toNat := by
  have small := b.toNat_lt
  have valid : b.toNat.isValidChar := by
    unfold Nat.isValidChar
    omega
  rw [Char.ofNat, dif_pos valid]
  rfl

def IsTail (b : UInt8) : Prop := 0x80 ≤ b.toNat ∧ b.toNat ≤ 0xbf

theorem byteIs {b : UInt8} {n : Nat} (same : b.toNat = n) : UInt8.ofNat n = b := by
  rw [← same]
  exact UInt8.ofNat_toNat

theorem twoBytes {b c : UInt8} (lead : 0xc2 ≤ b.toNat ∧ b.toNat ≤ 0xdf) (tail : IsTail c) :
    ∃ ch : Char, [b,c] = utf8EncodeChar ch ∧ 0x80 ≤ ch.toNat := by
  unfold IsTail at tail
  obtain ⟨ch,code⟩ := charOf (n := (b.toNat - 0xc0) * 64 + (c.toNat - 0x80)) (by
    unfold Nat.isValidChar
    omega)
  refine ⟨ch,?_,?_⟩
  · unfold utf8EncodeChar
    dsimp only
    rw [code, if_neg (by omega), if_pos (by omega), byteIs (b := b) (by omega), byteIs (b := c) (by omega)]
  · change 0x80 ≤ ch.val.toNat
    omega

theorem threeBytes {b c d : UInt8} (lead : 0xe0 ≤ b.toNat ∧ b.toNat ≤ 0xef) (second : IsTail c)
    (third : IsTail d) (long : b.toNat = 0xe0 → 0xa0 ≤ c.toNat) (scalar : b.toNat = 0xed → c.toNat ≤ 0x9f) :
    ∃ ch : Char, [b,c,d] = utf8EncodeChar ch ∧ 0x80 ≤ ch.toNat := by
  unfold IsTail at second third
  obtain ⟨ch,code⟩ := charOf
      (n := (b.toNat - 0xe0) * 4096 + (c.toNat - 0x80) * 64 + (d.toNat - 0x80)) (by
    unfold Nat.isValidChar
    omega)
  refine ⟨ch,?_,?_⟩
  · unfold utf8EncodeChar
    dsimp only
    rw [code, if_neg (by omega), if_neg (by omega), if_pos (by omega), byteIs (b := b) (by omega),
      byteIs (b := c) (by omega), byteIs (b := d) (by omega)]
  · change 0x80 ≤ ch.val.toNat
    omega

theorem fourBytes {b c d e : UInt8} (lead : 0xf0 ≤ b.toNat ∧ b.toNat ≤ 0xf4) (second : IsTail c)
    (third : IsTail d) (fourth : IsTail e) (long : b.toNat = 0xf0 → 0x90 ≤ c.toNat)
    (plane : b.toNat = 0xf4 → c.toNat ≤ 0x8f) :
    ∃ ch : Char, [b,c,d,e] = utf8EncodeChar ch ∧ 0x80 ≤ ch.toNat := by
  unfold IsTail at second third fourth
  obtain ⟨ch,code⟩ := charOf (n := (b.toNat - 0xf0) * 262144 + (c.toNat - 0x80) * 4096 +
      (d.toNat - 0x80) * 64 + (e.toNat - 0x80)) (by
    unfold Nat.isValidChar
    omega)
  refine ⟨ch,?_,?_⟩
  · unfold utf8EncodeChar
    dsimp only
    rw [code, if_neg (by omega), if_neg (by omega), if_neg (by omega), byteIs (b := b) (by omega),
      byteIs (b := c) (by omega), byteIs (b := d) (by omega), byteIs (b := e) (by omega)]
  · change 0x80 ≤ ch.val.toNat
    omega

theorem toNatByte {n : Nat} (small : n < 256) : (UInt8.ofNat n).toNat = n :=
  UInt8.toNat_ofNat_of_lt' small

theorem scalarValue (c : Char) : c.val.toNat < 0xd800 ∨ 0xdfff < c.val.toNat ∧ c.val.toNat < 0x110000 :=
  c.valid

theorem highBytes {ch : Char} (high : 0x80 ≤ ch.toNat) :
    (∃ b c, utf8EncodeChar ch = [b,c] ∧ (0xc2 ≤ b.toNat ∧ b.toNat ≤ 0xdf) ∧ IsTail c) ∨
    (∃ b c d, utf8EncodeChar ch = [b,c,d] ∧ (0xe0 ≤ b.toNat ∧ b.toNat ≤ 0xef) ∧ IsTail c ∧ IsTail d ∧
      (b.toNat = 0xe0 → 0xa0 ≤ c.toNat) ∧ (b.toNat = 0xed → c.toNat ≤ 0x9f)) ∨
    ∃ b c d e, utf8EncodeChar ch = [b,c,d,e] ∧ (0xf0 ≤ b.toNat ∧ b.toNat ≤ 0xf4) ∧ IsTail c ∧ IsTail d ∧
      IsTail e ∧ (b.toNat = 0xf0 → 0x90 ≤ c.toNat) ∧ (b.toNat = 0xf4 → c.toNat ≤ 0x8f) := by
  have scalar := scalarValue ch
  have first : ¬ ch.val.toNat ≤ 0x7f := Nat.not_le.mpr high
  have tail : ∀ n : Nat, (UInt8.ofNat (n % 64 + 0x80)).toNat = n % 64 + 0x80 :=
    fun n => toNatByte (by omega)
  have isTail : ∀ n : Nat, IsTail (UInt8.ofNat (n % 64 + 0x80)) := by
    intro n
    rw [IsTail, tail]
    omega
  unfold utf8EncodeChar
  dsimp only
  rw [if_neg first]
  generalize ch.val.toNat = v at scalar first
  by_cases two : v ≤ 0x7ff
  · rw [if_pos two]
    refine .inl ⟨_,_,rfl,?_,isTail v⟩
    rw [toNatByte (by omega)]
    omega
  · rw [if_neg two]
    by_cases three : v ≤ 0xffff
    · rw [if_pos three]
      refine .inr (.inl ⟨_,_,_,rfl,?_,isTail _,isTail v,?_,?_⟩)
      · rw [toNatByte (by omega)]
        omega
      · rw [toNatByte (by omega), tail]
        omega
      · rw [toNatByte (by omega), tail]
        omega
    · rw [if_neg three]
      refine .inr (.inr ⟨_,_,_,_,rfl,?_,isTail _,isTail _,isTail v,?_,?_⟩)
      · rw [toNatByte (by omega)]
        omega
      · rw [toNatByte (by omega), tail]
        omega
      · rw [toNatByte (by omega), tail]
        omega

theorem highAll {ch : Char} (high : 0x80 ≤ ch.toNat) : ∀ b ∈ utf8EncodeChar ch, 0x80 ≤ b.toNat := by
  rcases highBytes high with ⟨b,c,bytes,lead,second⟩ | ⟨b,c,d,bytes,lead,second,third,_⟩ |
    ⟨b,c,d,e,bytes,lead,second,third,fourth,_⟩
  · rw [bytes]
    simp only [List.forall_mem_cons]
    exact ⟨by omega,second.1,List.forall_mem_nil _⟩
  · rw [bytes]
    simp only [List.forall_mem_cons]
    exact ⟨by omega,second.1,third.1,List.forall_mem_nil _⟩
  · rw [bytes]
    simp only [List.forall_mem_cons]
    exact ⟨by omega,second.1,third.1,fourth.1,List.forall_mem_nil _⟩

/- What a reader makes of any bytes that puts a question mark for each byte which starts no
character. -/
inductive Lossy : List UInt8 → List Char → Prop where
  | nil : Lossy [] []
  | char (c : Char) {rest cs} (later : Lossy rest cs) : Lossy (utf8EncodeChar c ++ rest) (c :: cs)
  | broken (b : UInt8) {rest cs} (none : ∀ c, ¬ utf8EncodeChar c <+: b :: rest) (later : Lossy rest cs) :
      Lossy (b :: rest) ('?' :: cs)

theorem charSome (c : Char) : 0 < (utf8EncodeChar c).length := by
  by_cases ascii : c.toNat < 0x80
  · rw [encodeAscii ascii]
    exact Nat.one_pos
  · rcases highBytes (Nat.not_lt.mp ascii) with ⟨_,_,bytes,_⟩ | ⟨_,_,_,bytes,_⟩ | ⟨_,_,_,_,bytes,_⟩
    · rw [bytes]
      exact Nat.succ_pos _
    · rw [bytes]
      exact Nat.succ_pos _
    · rw [bytes]
      exact Nat.succ_pos _

theorem lossyRead (bytes : List UInt8) : ∃ cs, Lossy bytes cs := by
  induction size : bytes.length using Nat.strongRecOn generalizing bytes with
  | ind n ih =>
    cases bytes with
    | nil => exact ⟨[],.nil⟩
    | cons b rest =>
      by_cases found : ∃ c, utf8EncodeChar c <+: b :: rest
      · obtain ⟨c,behind,whole⟩ := found
        have some := charSome c
        have long := congrArg List.length whole
        rw [List.length_append] at long
        obtain ⟨cs,later⟩ := ih behind.length (by omega) behind rfl
        exact ⟨c :: cs,whole ▸ .char c later⟩
      · rw [List.length_cons] at size
        obtain ⟨cs,later⟩ := ih rest.length (by omega) rest rfl
        exact ⟨'?' :: cs,.broken b (fun c start => found ⟨c,start⟩) later⟩

end EpskcCommissioner.Utf8
