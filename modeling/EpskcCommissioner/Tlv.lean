import Mathlib.Data.List.Basic
import EpskcCommissioner.PrefixCode

/-! TLVs of the Thread kind: a type, a length and a value. A length of 255 stands for two
bytes of length that follow it. -/
namespace EpskcCommissioner

structure Tlv where
  type : UInt8
  wide : Bool
  value : List UInt8
  fits : value.length < if wide then 65536 else 255

namespace Tlv

/- What a length needs, behind its type: its bytes or, of a wide one, the mark and two bytes. -/
def lengthBytes (wide : Bool) (n : Nat) : List UInt8 :=
  if wide then [255,UInt8.ofNat (n / 256),UInt8.ofNat n] else [UInt8.ofNat n]

def encode (t : Tlv) : List UInt8 := t.type :: (lengthBytes t.wide t.value.length ++ t.value)

def readWide : List UInt8 → Option (Bool × Nat × List UInt8)
  | hi :: lo :: rest => some (true,hi.toNat * 256 + lo.toNat,rest)
  | _ => none

def readLength : List UInt8 → Option (Bool × Nat × List UInt8)
  | [] => none
  | n :: rest => if n ≠ 255 then some (false,n.toNat,rest) else readWide rest

theorem readLengthExact {bytes rest : List UInt8} {wide : Bool} {n : Nat} :
    readLength bytes = some (wide,n,rest) ↔
      n < (if wide then 65536 else 255) ∧ bytes = lengthBytes wide n ++ rest := by
  constructor
  · intro found
    rcases bytes with _ | ⟨b,bytes⟩
    · exact absurd found.symm (Option.some_ne_none _)
    · by_cases narrow : b ≠ 255
      · rw [readLength, if_pos narrow] at found
        cases found
        have small := b.toNat_lt
        have other : b.toNat ≠ 255 := fun same => narrow (UInt8.toNat_inj.mp same)
        exact ⟨show b.toNat < 255 by omega,by simp [lengthBytes]⟩
      · rw [readLength, if_neg narrow] at found
        cases not_not.mp narrow
        rcases bytes with _ | ⟨hi,_ | ⟨lo,bytes⟩⟩
        · exact absurd found.symm (Option.some_ne_none _)
        · exact absurd found.symm (Option.some_ne_none _)
        · cases found
          have high := hi.toNat_lt
          have low := lo.toNat_lt
          refine ⟨show hi.toNat * 256 + lo.toNat < 65536 by omega,?_⟩
          have first : (hi.toNat * 256 + lo.toNat) / 256 = hi.toNat := by omega
          have second : UInt8.ofNat (hi.toNat * 256 + lo.toNat) = lo := by
            apply UInt8.toNat_inj.mp
            rw [UInt8.toNat_ofNat']
            omega
          simp [lengthBytes,first,second]
  · rintro ⟨small,rfl⟩
    cases wide with
    | false =>
      change n < 255 at small
      have value : (UInt8.ofNat n).toNat = n := UInt8.toNat_ofNat_of_lt' (show n < 256 by omega)
      have narrow : UInt8.ofNat n ≠ 255 := fun same => by
        have wrong : n = 255 := value.symm.trans (congrArg UInt8.toNat same)
        omega
      change (if UInt8.ofNat n ≠ 255 then some (false,(UInt8.ofNat n).toNat,rest) else _) = _
      rw [if_pos narrow, value]
    | true =>
      change n < 65536 at small
      have high : (UInt8.ofNat (n / 256)).toNat = n / 256 := UInt8.toNat_ofNat_of_lt' (show _ < 256 by omega)
      have low : (UInt8.ofNat n).toNat = n % 256 := UInt8.toNat_ofNat'
      change some (true,(UInt8.ofNat (n / 256)).toNat * 256 + (UInt8.ofNat n).toNat,rest) = _
      rw [high, low, Nat.div_add_mod']

theorem takeFits {bytes rest : List UInt8} {wide : Bool} {n : Nat}
    (found : readLength bytes = some (wide,n,rest)) (room : n ≤ rest.length) :
    (rest.take n).length < if wide then 65536 else 255 := by
  rw [List.length_take_of_le room]
  exact (readLengthExact.mp found).1

def next : List UInt8 → Option (Tlv × List UInt8)
  | [] => none
  | type :: bytes =>
    match found : readLength bytes with
    | none => none
    | some (wide,n,rest) =>
      if room : n ≤ rest.length then
        some (⟨type,wide,rest.take n,takeFits found room⟩,rest.drop n)
      else none

theorem nextFound {type : UInt8} {bytes rest : List UInt8} {wide : Bool} {n : Nat}
    (found : readLength bytes = some (wide,n,rest)) : next (type :: bytes) =
      if room : n ≤ rest.length then
        some (⟨type,wide,rest.take n,takeFits found room⟩,rest.drop n)
      else none := by
  simp only [next]
  split
  · rename_i none
    exact absurd (none.symm.trans found).symm (Option.some_ne_none _)
  · rename_i same
    cases Option.some.inj (same.symm.trans found)
    rfl

theorem nextNone {type : UInt8} {bytes : List UInt8} (none : readLength bytes = none) :
    next (type :: bytes) = .none := by
  simp only [next]
  split
  · rfl
  · rename_i found
    exact absurd (none.symm.trans found).symm (Option.some_ne_none _)

theorem nextSound {bytes rest : List UInt8} {t : Tlv} (found : next bytes = some (t,rest)) :
    bytes = t.encode ++ rest := by
  rcases bytes with _ | ⟨type,bytes⟩
  · exact absurd found.symm (Option.some_ne_none _)
  · cases read : readLength bytes with
    | none =>
      rw [nextNone read] at found
      exact absurd found.symm (Option.some_ne_none _)
    | some parts =>
      obtain ⟨wide,n,left⟩ := parts
      rw [nextFound read] at found
      split at found <;> try contradiction
      rename_i room
      cases Option.some.inj found
      have bytes := (readLengthExact.mp read).2
      rw [encode, List.length_take_of_le room, List.cons_append, List.append_assoc, List.take_append_drop]
      exact congrArg (List.cons type) bytes

theorem nextEncoded (t : Tlv) (rest : List UInt8) : next (t.encode ++ rest) = some (t,rest) := by
  have read : readLength (lengthBytes t.wide t.value.length ++ (t.value ++ rest)) =
      some (t.wide,t.value.length,t.value ++ rest) := readLengthExact.mpr ⟨t.fits,rfl⟩
  have room : t.value.length ≤ (t.value ++ rest).length := by
    rw [List.length_append]
    exact Nat.le_add_right _ _
  have found := @nextFound t.type _ _ _ _ read
  rw [dif_pos room] at found
  simp only [List.take_left, List.drop_left] at found
  rw [encode, List.cons_append, List.append_assoc]
  exact found

end Tlv

def tlvs : PrefixCode Tlv where
  encode := Tlv.encode
  next := Tlv.next
  exact := fun _ t rest => ⟨Tlv.nextSound,fun same => same ▸ Tlv.nextEncoded t rest⟩
  progress := fun _ => List.cons_ne_nil _ _

namespace Tlv

structure Span where
  type : UInt8
  start : Nat
  length : Nat
  deriving DecidableEq, Repr

/- The framing: the values of the TLVs from `i` on, and of one that is cut. -/
def spansFrom : (fuel i : Nat) → List UInt8 → List Span
  | fuel + 1, i, type :: bytes =>
    match readLength bytes with
    | none => []
    | some (_,n,rest) =>
      let start := i + (bytes.length + 1 - rest.length)
      ⟨type,start,n⟩ :: if n ≤ rest.length then spansFrom fuel (start + n) (rest.drop n) else []
  | _, _, _ => []

def spans (bytes : List UInt8) : List Span := spansFrom bytes.length 0 bytes

def Span.Has (s : Span) (k : Nat) : Prop := s.start ≤ k ∧ k < s.start + s.length

theorem spansFound {type : UInt8} {bytes rest : List UInt8} {wide : Bool} {n : Nat} (fuel i : Nat)
    (read : readLength bytes = some (wide,n,rest)) : spansFrom (fuel + 1) i (type :: bytes) =
      ⟨type,i + (bytes.length + 1 - rest.length),n⟩ ::
        if n ≤ rest.length then spansFrom fuel (i + (bytes.length + 1 - rest.length) + n) (rest.drop n)
        else [] := by
  rw [spansFrom, read]

theorem spansNone {type : UInt8} {bytes : List UInt8} (fuel i : Nat) (read : readLength bytes = none) :
    spansFrom (fuel + 1) i (type :: bytes) = [] := by
  rw [spansFrom, read]

theorem spansBehind {fuel i : Nat} {bytes : List UInt8} {s : Span} (mem : s ∈ spansFrom fuel i bytes) :
    i ≤ s.start := by
  induction fuel generalizing i bytes with
  | zero => exact absurd mem List.not_mem_nil
  | succ fuel ih =>
    rcases bytes with _ | ⟨type,bytes⟩
    · exact absurd mem List.not_mem_nil
    · rw [spansFrom] at mem
      split at mem
      · exact absurd mem List.not_mem_nil
      · rcases List.mem_cons.mp mem with rfl | later
        · exact Nat.le_add_right _ _
        · split at later
          · have := ih later
            omega
          · exact absurd later List.not_mem_nil

end Tlv
end EpskcCommissioner
