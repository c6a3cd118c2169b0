import Mathlib.Data.List.Basic

/-! `meshcop_codec.h`: the parts of a CoAP message that the commissioner looks at. The
loops count down from the length of what they read, which is more than they need. -/
namespace EpskcCommissioner.MeshcopCodec

def isEmptyAck : List UInt8 → Bool
  | [a,b,_,_] => a == 0x60 && b == 0x00
  | _ => false

def isSuccess : List UInt8 → Bool
  | a :: b :: _ :: _ :: rest =>
    a >>> 6 == 1 && (a &&& 0x0f).toNat ≤ 8 && (a &&& 0x0f).toNat ≤ rest.length && b >>> 5 == 2
  | _ => false

def extBytes (nibble : UInt8) : Nat := if nibble = 13 then 1 else if nibble = 14 then 2 else 0

def bigEndian (hi lo : UInt8) : Nat := hi.toNat * 256 + lo.toNat

/- The length of an option's value; `ext` starts with the extension of its nibble. -/
def optionLen (nibble : UInt8) : (ext : List UInt8) → Nat
  | hi :: lo :: _ =>
    if nibble = 13 then hi.toNat + 13
    else if nibble = 14 then bigEndian hi lo + 269
    else nibble.toNat
  | [hi] => if nibble = 13 then hi.toNat + 13 else nibble.toNat
  | [] => nibble.toNat

/- The loop of `meshcop_coap_payload` over the options: what follows the marker. -/
def coapOptions : (fuel : Nat) → List UInt8 → Option (List UInt8)
  | fuel + 1, b :: rest =>
    if b = 0xff then some rest
    else if b >>> 4 = 15 ∨ b &&& 0x0f = 15 then none
    else if rest.length < extBytes (b >>> 4) + extBytes (b &&& 0x0f) then none
    else
      let ext := rest.drop (extBytes (b >>> 4))
      let value := ext.drop (extBytes (b &&& 0x0f))
      if value.length < optionLen (b &&& 0x0f) ext then none
      else coapOptions fuel (value.drop (optionLen (b &&& 0x0f) ext))
  | _, _ => none

def coapPayload : List UInt8 → Option (List UInt8)
  | a :: _ :: _ :: _ :: rest =>
    if a >>> 6 ≠ 1 ∨ 8 < (a &&& 0x0f).toNat then none
    else if rest.length < (a &&& 0x0f).toNat then none
    else coapOptions rest.length (rest.drop (a &&& 0x0f).toNat)
  | _ => none

def meshcopStateTlv : UInt8 := 16
def meshcopStateAccept : UInt8 := 1

/- The length of a TLV and what follows it; 255 announces two bytes of length. -/
def tlvLength (n : UInt8) (rest : List UInt8) : Option (Nat × List UInt8) :=
  if n ≠ 255 then some (n.toNat,rest)
  else
    match rest with
    | hi :: lo :: rest => some (bigEndian hi lo,rest)
    | _ => none

/- The loop of `meshcop_petition_was_accepted`: the first State TLV decides. -/
def stateAccepted : (fuel : Nat) → List UInt8 → Bool
  | fuel + 1, type :: n :: rest =>
    match tlvLength n rest with
    | none => false
    | some (len,value) =>
      if value.length < len then false
      else if type = meshcopStateTlv then len == 1 && value.head? == some meshcopStateAccept
      else stateAccepted fuel (value.drop len)
  | _, _ => false

def petitionWasAccepted (buf : List UInt8) : Bool :=
  match coapPayload buf with
  | none => false
  | some payload => stateAccepted payload.length payload

theorem ackNoSuccess {buf : List UInt8} (ack : isEmptyAck buf = true) : isSuccess buf = false := by
  unfold isEmptyAck at ack
  split at ack
  · simp only [Bool.and_eq_true,beq_iff_eq] at ack
    obtain ⟨rfl,rfl⟩ := ack
    rfl
  · contradiction

/- The messages that the host test calls accepted and rejected. -/
example : petitionWasAccepted [0x60,0x44,0,1,0xff,16,1,1] = true ∧
    petitionWasAccepted [0x60,0x44,0,1,0xff,16,2,1] = false := by decide

end EpskcCommissioner.MeshcopCodec
