import Mathlib.Data.List.Basic
import EpskcCommissioner.PrefixCode

/-! CoAP messages as bytes: a header, a token, options and, behind a marker, the payload. A
number of an option is a nibble, with one or two more bytes where it does not fit. -/
namespace EpskcCommissioner.Coap

inductive Extended where
  | small (n : Fin 13)
  | byte (b : UInt8)
  | word (hi lo : UInt8)
  deriving DecidableEq, Repr

namespace Extended

def nibble : Extended → Nat
  | .small n => n
  | .byte _ => 13
  | .word _ _ => 14

def bytes : Extended → List UInt8
  | .small _ => []
  | .byte b => [b]
  | .word hi lo => [hi,lo]

def value : Extended → Nat
  | .small n => n
  | .byte b => b.toNat + 13
  | .word hi lo => hi.toNat * 256 + lo.toNat + 269

/- The number of a nibble, and what is behind its bytes; the nibble 15 has none. -/
def read (nibble : Nat) (bytes : List UInt8) : Option (Extended × List UInt8) :=
  if small : nibble < 13 then some (.small ⟨nibble,small⟩,bytes)
  else if nibble = 13 then
    match bytes with
    | b :: rest => some (.byte b,rest)
    | [] => none
  else if nibble = 14 then
    match bytes with
    | hi :: lo :: rest => some (.word hi lo,rest)
    | _ => none
  else none

theorem nibbleLess (e : Extended) : e.nibble < 15 := by
  cases e with
  | small n => exact Nat.lt_trans n.isLt (by decide)
  | byte b => exact Nat.lt_succ_of_lt (Nat.lt_succ_self 13)
  | word hi lo => exact Nat.lt_succ_self 14

theorem readExact {n : Nat} {bytes rest : List UInt8} {e : Extended} :
    read n bytes = some (e,rest) ↔ e.nibble = n ∧ bytes = e.bytes ++ rest := by
  constructor
  · intro found
    unfold read at found
    split at found
    · cases found
      exact ⟨rfl,rfl⟩
    · split at found
      · rename_i same
        split at found
        · cases found
          exact ⟨same.symm,rfl⟩
        · contradiction
      · split at found
        · rename_i same
          split at found
          · cases found
            exact ⟨same.symm,rfl⟩
          · contradiction
        · contradiction
  · rintro ⟨rfl,rfl⟩
    cases e with
    | small n => exact dif_pos n.isLt
    | byte b => rfl
    | word hi lo => rfl

end Extended

/- An option: its number less the one before, and its value. -/
structure Opt where
  delta : Extended
  length : Extended
  value : List UInt8
  fits : value.length = length.value

namespace Opt

def first (o : Opt) : UInt8 := UInt8.ofNat (o.delta.nibble * 16 + o.length.nibble)

def encode (o : Opt) : List UInt8 := o.first :: (o.delta.bytes ++ (o.length.bytes ++ o.value))

def next : List UInt8 → Option (Opt × List UInt8)
  | [] => none
  | b :: rest =>
    match Extended.read (b.toNat / 16) rest with
    | none => none
    | some (delta,rest) =>
      match Extended.read (b.toNat % 16) rest with
      | none => none
      | some (length,rest) =>
        if room : length.value ≤ rest.length then
          some (⟨delta,length,rest.take length.value,List.length_take_of_le room⟩,rest.drop length.value)
        else none

theorem firstNibbles (o : Opt) :
    o.first.toNat / 16 = o.delta.nibble ∧ o.first.toNat % 16 = o.length.nibble := by
  have delta := o.delta.nibbleLess
  have length := o.length.nibbleLess
  have value : o.first.toNat = o.delta.nibble * 16 + o.length.nibble :=
    UInt8.toNat_ofNat_of_lt' (show _ < 256 by omega)
  omega

theorem nextSound {bytes rest : List UInt8} {o : Opt} (found : next bytes = some (o,rest)) :
    bytes = o.encode ++ rest := by
  cases bytes with
  | nil => exact absurd found.symm (Option.some_ne_none _)
  | cons b bytes =>
    cases readDelta : Extended.read (b.toNat / 16) bytes with
    | none => simp [next,readDelta] at found
    | some pair =>
      obtain ⟨delta,behind⟩ := pair
      cases readLength : Extended.read (b.toNat % 16) behind with
      | none => simp [next,readDelta,readLength] at found
      | some pair =>
        obtain ⟨length,value⟩ := pair
        simp only [next,readDelta,readLength] at found
        split at found <;> try contradiction
        cases Option.some.inj found
        obtain ⟨high,rfl⟩ := Extended.readExact.mp readDelta
        obtain ⟨low,rfl⟩ := Extended.readExact.mp readLength
        have small := b.toNat_lt
        have same : UInt8.ofNat (delta.nibble * 16 + length.nibble) = b := by
          rw [high, low, Nat.div_add_mod' b.toNat 16]
          exact UInt8.ofNat_toNat
        simp [encode,first,same]

theorem nextEncoded (o : Opt) (rest : List UInt8) : next (o.encode ++ rest) = some (o,rest) := by
  obtain ⟨high,low⟩ := o.firstNibbles
  have readDelta : Extended.read (o.first.toNat / 16) (o.delta.bytes ++ (o.length.bytes ++ (o.value ++ rest))) =
      some (o.delta,o.length.bytes ++ (o.value ++ rest)) := Extended.readExact.mpr ⟨high.symm,rfl⟩
  have readLength : Extended.read (o.first.toNat % 16) (o.length.bytes ++ (o.value ++ rest)) =
      some (o.length,o.value ++ rest) := Extended.readExact.mpr ⟨low.symm,rfl⟩
  have fits := o.fits
  have room : o.length.value ≤ (o.value ++ rest).length := by
    rw [List.length_append]
    omega
  obtain ⟨delta,length,value,_⟩ := o
  simp only [encode,List.cons_append,List.append_assoc,next,readDelta,readLength,dif_pos room]
  simp [← fits]

end Opt

def opts : PrefixCode Opt where
  encode := Opt.encode
  next := Opt.next
  exact := fun _ o rest => ⟨Opt.nextSound,fun same => same ▸ Opt.nextEncoded o rest⟩
  progress := fun _ => List.cons_ne_nil _ _

def numbered (before : Nat) : List Opt → List (Nat × List UInt8)
  | [] => []
  | o :: options => (before + o.delta.value,o.value) :: numbered (before + o.delta.value) options

def marker : UInt8 := 0xff

def behindMarker : List UInt8 → Option (List UInt8)
  | [] => none
  | b :: rest => if b = marker then some rest else none

theorem markerStops (payload : List UInt8) : opts.next (marker :: payload) = none := rfl

theorem behindMarkerSplit {bytes payload : List UInt8} :
    behindMarker (opts.split bytes).2 = some payload ↔
      ∃ options, bytes = opts.encodeAll options ++ marker :: payload := by
  constructor
  · intro found
    obtain ⟨whole,_⟩ := opts.splitWhole bytes
    generalize (opts.split bytes).2 = rest at found whole
    cases rest with
    | nil => exact absurd found.symm (Option.some_ne_none payload)
    | cons b left =>
      obtain ⟨rfl,same⟩ := Option.ite_none_right_eq_some.mp found
      cases Option.some.inj same
      exact ⟨_,whole⟩
  · rintro ⟨options,rfl⟩
    rw [opts.splitExact.mpr ⟨rfl,markerStops payload⟩]
    rfl

structure Message where
  kind : Fin 4
  code : UInt8
  idHigh : UInt8
  idLow : UInt8
  token : List UInt8
  short : token.length ≤ 8
  options : List Opt
  payload : List UInt8

namespace Message

def first (m : Message) : UInt8 := UInt8.ofNat (64 + m.kind.val * 16 + m.token.length)

def behind (m : Message) : List UInt8 := opts.encodeAll m.options ++ marker :: m.payload

def encode (m : Message) : List UInt8 :=
  m.first :: m.code :: m.idHigh :: m.idLow :: (m.token ++ m.behind)

theorem behindSplit (m : Message) : opts.split m.behind = (m.options,marker :: m.payload) :=
  opts.splitExact.mpr ⟨rfl,markerStops m.payload⟩

theorem firstFields (m : Message) : m.first.toNat = 64 + m.kind.val * 16 + m.token.length := by
  have kind := m.kind.isLt
  have short := m.short
  exact UInt8.toNat_ofNat_of_lt' (show _ < 256 by omega)

theorem encodeInjective {m n : Message} (same : m.encode = n.encode) : m = n := by
  obtain ⟨first,rest⟩ := List.cons.inj same
  obtain ⟨code,rest⟩ := List.cons.inj rest
  obtain ⟨idHigh,rest⟩ := List.cons.inj rest
  obtain ⟨idLow,rest⟩ := List.cons.inj rest
  have fields : 64 + m.kind.val * 16 + m.token.length = 64 + n.kind.val * 16 + n.token.length := by
    rw [← firstFields, ← firstFields, first]
  have shortM := m.short
  have shortN := n.short
  have kinds : m.kind = n.kind := Fin.ext (by omega)
  obtain ⟨token,behind⟩ := List.append_inj rest (by omega)
  have splits : (m.options,marker :: m.payload) = (n.options,marker :: n.payload) := by
    rw [← behindSplit, ← behindSplit, behind]
  obtain ⟨options,payload⟩ := Prod.mk.inj splits
  have payload := (List.cons.inj payload).2
  cases m
  cases n
  cases kinds
  cases code
  cases idHigh
  cases idLow
  cases token
  cases options
  cases payload
  rfl

end Message
end EpskcCommissioner.Coap
