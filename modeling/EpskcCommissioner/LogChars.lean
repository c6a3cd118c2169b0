import EpskcCommissioner.Fitting
import EpskcCommissioner.LogJson

/-! `append_clean` as characters: what console bytes come to when there is room for all of
them, and that the text takes the longest front of it. -/
namespace EpskcCommissioner.LogChars
open LogText LogClean LogJson Utf8 Fitting
open String (utf8EncodeChar)

/- The characters that stay of console bytes; `skip` bytes are already dealt with. -/
def cleanChars : (skip : Nat) → List UInt8 → List Char
  | _, [] => []
  | skip + 1, _ :: rest => cleanChars skip rest
  | 0, c :: rest =>
    if c = 0x1b then cleanChars (escapeLen rest) rest
    else if c = 0x0d then cleanChars 0 rest
    else if c < 0x20 || c == 0x7f then ' ' :: cleanChars 0 rest
    else charAt c rest ++ cleanChars (utf8Len (c :: rest) - 1) rest

def charSize (c : Char) : Nat := (utf8EncodeChar c).length

theorem emptyText {t : Text} (none : t.bytes = []) : t = .empty := by
  cases t
  cases none
  rfl

def textRoom : Nat := logRingText - 1

theorem encodeTotal (cs : List Char) : (encode cs).length = total charSize cs := by
  induction cs with
  | nil => rfl
  | cons c cs ih => rw [encodeCons, List.length_append, ih, totalCons, charSize]

theorem asciiSize {c : Char} (ascii : c.toNat < 0x80) : charSize c = 1 := by
  rw [charSize, encodeAscii ascii]
  rfl

theorem asciiLen {c : UInt8} (rest : List UInt8) (ascii : c < 0x80) : utf8Len (c :: rest) = 0 := by
  have small := UInt8.lt_iff_toNat_lt.mp ascii
  have limit : (0x80 : UInt8).toNat = 0x80 := rfl
  by_contra whole
  obtain ⟨ch,start,high⟩ := utf8LenChar whole
  obtain ⟨n,long⟩ := Nat.exists_eq_succ_of_ne_zero whole
  rw [long, List.take_succ_cons] at start
  have first := highAll high c (start ▸ List.mem_cons_self)
  omega

theorem fittingFull (cs : List Char) : fitting charSize 0 cs = [] :=
  fittingNone.mpr (fun c _ => charSome c)

theorem asciiChar {c : UInt8} (ascii : c < 0x80) :
    charSize (Char.ofNat c.toNat) = 1 ∧ utf8EncodeChar (Char.ofNat c.toNat) = [c] := by
  have same := byteChar c
  have small := UInt8.lt_iff_toNat_lt.mp ascii
  have limit : (0x80 : UInt8).toNat = 0x80 := rfl
  have low : (Char.ofNat c.toNat).toNat < 0x80 := by omega
  refine ⟨asciiSize low,?_⟩
  rw [encodeAscii low, same, UInt8.ofNat_toNat]

theorem charWhole {c : UInt8} {rest : List UInt8} (high : ¬ c < 0x80) (whole : utf8Len (c :: rest) ≠ 0) :
    ∃ ch, charAt c rest = [ch] ∧ charSize ch = utf8Len (c :: rest) ∧
      (c :: rest).take (utf8Len (c :: rest)) = utf8EncodeChar ch ∧ 0x80 ≤ ch.toNat := by
  obtain ⟨ch,start,above⟩ := utf8LenChar whole
  refine ⟨ch,?_,?_,start,above⟩
  · unfold charAt
    dsimp only
    rw [if_neg high, if_neg whole, start, decodeChar, Option.getD_some]
  · rw [charSize, ← start, List.length_take_of_le]
    exact (utf8LenInside whole).1

theorem fittingByte {used : Nat} {c : Char} {b : UInt8} (cs : List Char) (room : used < textRoom)
    (byte : utf8EncodeChar c = [b]) :
    encode (fitting charSize (textRoom - used) (c :: cs)) =
      b :: encode (fitting charSize (textRoom - (used + 1)) cs) := by
  have one : charSize c = 1 := congrArg List.length byte
  rw [fitting, one, if_pos (by omega), encodeCons, byte, Nat.sub_sub]
  rfl

/- What `append_clean` puts behind `used` bytes is the longest front that has room. -/
theorem cleanedChars (used skip : Nat) (src : List UInt8) :
    cleaned used skip src = encode (fitting charSize (textRoom - used) (cleanChars skip src)) := by
  have limit : textRoom = logRingText - 1 := rfl
  fun_induction cleaned used skip src with
  | case1 => simp only [cleanChars,fitting,encodeNil]
  | case2 used skip head rest ih =>
    rw [ih]
    rfl
  | case3 used c rest full =>
    rw [show textRoom - used = 0 by omega, fittingFull]
    rfl
  | case4 used rest room ih => rw [ih, cleanChars, if_pos rfl]
  | case5 used rest room escape ih => rw [ih, cleanChars, if_neg escape, if_pos rfl]
  | case6 used c rest room escape cr control ih =>
    rw [ih, cleanChars, if_neg escape, if_neg cr, if_pos control]
    exact (fittingByte _ (by omega) rfl).symm
  | case7 used c rest room escape cr control ascii ih =>
    rw [ih, cleanChars, if_neg escape, if_neg cr, if_neg control, charAt, if_pos ascii, asciiLen rest ascii,
      List.singleton_append, fittingByte _ (by omega) (asciiChar ascii).2]
  | case8 used c rest room escape cr control high n broken ih =>
    have zero : utf8Len (c :: rest) = 0 := broken
    rw [ih, cleanChars, if_neg escape, if_neg cr, if_neg control, charAt, if_neg high, zero]
    exact (fittingByte _ (by omega) rfl).symm
  | case9 used c rest room escape cr control high n whole full =>
    obtain ⟨ch,found,size,start,_⟩ := charWhole high whole
    rw [cleanChars, if_neg escape, if_neg cr, if_neg control, found, List.singleton_append, fitting,
      size, if_neg (by omega)]
    rfl
  | case10 used c rest room escape cr control high n whole fits ih =>
    obtain ⟨ch,found,size,start,_⟩ := charWhole high whole
    rw [ih, cleanChars, if_neg escape, if_neg cr, if_neg control, found, List.singleton_append, fitting,
      size, if_pos (by omega), encodeCons, Nat.sub_sub, start]

theorem appendCleanChars (dst : Text) (src : List UInt8) : (appendClean dst src).bytes =
    dst.bytes ++ encode (fitting charSize (textRoom - dst.bytes.length) (cleanChars 0 src)) := by
  rw [← cleanedChars]
  rfl

def Shown (c : Char) : Prop := 0x20 ≤ c.toNat ∧ c.toNat ≠ 0x7f

/- Text that has neither a byte of a control character nor one of an escape. -/
def PlainBytes (bytes : List UInt8) : Prop := ∀ b ∈ bytes, 0x20 ≤ b.toNat ∧ b.toNat ≠ 0x7f

instance (bytes : List UInt8) : Decidable (PlainBytes bytes) := List.decidableBAll _ bytes

theorem charBytes {c : Char} : PlainBytes (utf8EncodeChar c) ↔ Shown c := by
  by_cases ascii : c.toNat < 0x80
  · have byte : (UInt8.ofNat c.toNat).toNat = c.toNat := toNatByte (by omega)
    unfold PlainBytes Shown
    rw [encodeAscii ascii, List.forall_mem_singleton, byte]
  · have high := highAll (Nat.not_lt.mp ascii)
    refine iff_of_true (fun b mem => ?_) ⟨by omega,by omega⟩
    have := high b mem
    omega

theorem plainEncode {cs : List Char} : PlainBytes (encode cs) ↔ ∀ c ∈ cs, Shown c := by
  induction cs with
  | nil => exact iff_of_true (List.forall_mem_nil _) (List.forall_mem_nil _)
  | cons c cs ih =>
    rw [encodeCons, PlainBytes, List.forall_mem_append, List.forall_mem_cons]
    exact and_congr charBytes ih

theorem cleanCharsShown (skip : Nat) (src : List UInt8) : ∀ c ∈ cleanChars skip src, Shown c := by
  fun_induction cleanChars skip src with
  | case1 => exact List.forall_mem_nil _
  | case2 skip head rest ih => exact ih
  | case3 rest ih => exact ih
  | case4 rest _ ih => exact ih
  | case5 c rest _ _ _ ih => exact List.forall_mem_cons.mpr ⟨⟨by decide,by decide⟩,ih⟩
  | case6 c rest _ _ control ih =>
    refine List.forall_mem_append.mpr ⟨?_,ih⟩
    simp only [Bool.or_eq_true,decide_eq_true_eq,beq_iff_eq,not_or] at control
    by_cases ascii : c < 0x80
    · rw [charAt, if_pos ascii]
      have low := UInt8.le_iff_toNat_le.mp (UInt8.not_lt.mp control.1)
      have delete : c.toNat ≠ 0x7f := fun same => control.2 (UInt8.toNat_inj.mp same)
      rw [List.forall_mem_singleton, Shown, byteChar]
      exact ⟨low,delete⟩
    · by_cases broken : utf8Len (c :: rest) = 0
      · have found : charAt c rest = ['?'] := by
          unfold charAt
          dsimp only
          rw [if_neg ascii, if_pos broken]
        rw [found]
        exact List.forall_mem_singleton.mpr ⟨by decide,by decide⟩
      · obtain ⟨ch,found,_,_,high⟩ := charWhole ascii broken
        rw [found]
        exact List.forall_mem_singleton.mpr ⟨by omega,by omega⟩

theorem cleanedPlain (used skip : Nat) (src : List UInt8) : PlainBytes (cleaned used skip src) := by
  rw [cleanedChars]
  refine plainEncode.mpr (fun c mem => cleanCharsShown skip src c ?_)
  exact (fittingPrefix _ _).subset mem

theorem cleanCharsSkip (tail rest : List UInt8) : cleanChars tail.length (tail ++ rest) = cleanChars 0 rest := by
  induction tail with
  | nil => rfl
  | cons b tail ih => exact ih

theorem cleanCharsEncode {cs : List Char} (shown : ∀ c ∈ cs, Shown c) : cleanChars 0 (encode cs) = cs := by
  induction cs with
  | nil => rfl
  | cons c cs ih =>
    obtain ⟨here,later⟩ := List.forall_mem_cons.mp shown
    have plain := charBytes.mpr here
    rw [encodeCons]
    by_cases ascii : c.toNat < 0x80
    · have byte : (UInt8.ofNat c.toNat).toNat = c.toNat := toNatByte (by omega)
      have low : UInt8.ofNat c.toNat < 0x80 := UInt8.lt_iff_toNat_lt.mpr (byte.trans_lt ascii)
      have least : ∀ n : UInt8, n.toNat < 0x20 → UInt8.ofNat c.toNat ≠ n := by
        rintro n control rfl
        rw [byte] at control
        exact absurd here.1 (Nat.not_le.mpr control)
      have visible : ¬ (UInt8.ofNat c.toNat < 0x20 || UInt8.ofNat c.toNat == 0x7f) = true := by
        simp only [Bool.or_eq_true,decide_eq_true_eq,beq_iff_eq,not_or]
        refine ⟨fun below => ?_,fun same => ?_⟩
        · have := UInt8.lt_iff_toNat_lt.mp below
          rw [byte] at this
          exact absurd here.1 (Nat.not_le.mpr this)
        · exact here.2 (byte.symm.trans (congrArg UInt8.toNat same))
      rw [encodeAscii ascii, List.singleton_append, cleanChars, if_neg (least _ (by decide)),
        if_neg (least _ (by decide)), if_neg visible, charAt, if_pos low, asciiLen _ low, byte, Char.ofNat_toNat,
        ih later]
      rfl
    · obtain ⟨b,tail,bytes,high,whole⟩ := utf8LenHigh (Nat.not_lt.mp ascii) (encode cs)
      obtain ⟨_,found⟩ := escapeAtHigh (encode cs) bytes high whole
      have above : ∀ n : UInt8, n.toNat < 0x80 → b ≠ n := by
        rintro n low rfl
        omega
      have visible : ¬ (b < 0x20 || b == 0x7f) = true := by
        simp only [Bool.or_eq_true,decide_eq_true_eq,beq_iff_eq,not_or]
        refine ⟨fun below => ?_,above _ (by decide)⟩
        have := UInt8.lt_iff_toNat_lt.mp below
        have limit : (0x20 : UInt8).toNat = 0x20 := rfl
        omega
      rw [bytes, List.cons_append, cleanChars, if_neg (above _ (by decide)), if_neg (above _ (by decide)),
        if_neg visible, found, whole, Nat.add_sub_cancel, cleanCharsSkip, ih later]
      rfl

theorem appendCleanWhole {cs : List Char} (plain : PlainBytes (encode cs)) (room : (encode cs).length ≤ textRoom) :
    (appendClean .empty (encode cs)).bytes = encode cs := by
  rw [appendCleanChars, cleanCharsEncode (plainEncode.mp plain), fittingAll]
  · rfl
  · rw [← encodeTotal]
    exact room

end EpskcCommissioner.LogChars
