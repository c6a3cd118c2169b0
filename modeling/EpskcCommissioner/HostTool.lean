import EpskcCommissioner.MeshcopPayload
import EpskcCommissioner.MeshcopTlvs

/-! `tools/epskc_commissioner.c`, the commissioner for a computer that the firmware's was ported
from: its walks over a CoAP message and over the TLVs in it, which check less. -/
namespace EpskcCommissioner.HostTool
open CBytes Coap MeshcopCodec MeshcopPetition MeshcopTlvs Decimal
open Utf8 (encode)
open MeshcopPayload (highNibble lowNibble found payloadReturned)

/- One round of the loop of `coap_payload`: where the next option is. A length with another byte
is kept in one byte, and the two bytes of a longer length are passed unread. -/
def optionAt (buf : List UInt8) (b : UInt8) (i : Nat) : Checked Nat :=
  let length := b &&& 0x0f
  let i := i + extBytes (b >>> 4)
  if length = 13 then do
    let more ← byteAt buf i
    pure (i + 1 + (more + 13).toNat)
  else pure (i + extBytes length + length.toNat)

def coapOptionsAt (buf : List UInt8) : (fuel : Nat) → (i : Nat) → Checked (Option (Nat × Nat))
  | 0, _ => .error .fuel
  | fuel + 1, i =>
    if i < buf.length then do
      let b ← byteAt buf i
      if b = 0xff then
        let outLen ← less buf.length (i + 1)
        pure (some (i + 1,outLen))
      else
        let next ← optionAt buf b (i + 1)
        coapOptionsAt buf fuel next
    else pure none

/- `coap_payload` but for what it prints: where its result points to, and how much there is. -/
def coapPayload (buf : List UInt8) : Checked (Option (Nat × Nat)) :=
  if buf.length < 4 then pure none
  else do
    let b ← byteAt buf 0
    coapOptionsAt buf (buf.length + 1) (4 + (b &&& 0x0f).toNat)

def tlvName (type : UInt8) : String :=
  match type.toNat with
  | 0 => "Channel"
  | 1 => "PAN ID"
  | 2 => "Extended PAN ID"
  | 3 => "Network Name"
  | 5 => "Network Key"
  | 10 => "Commissioner ID"
  | 11 => "Commissioner Session ID"
  | 14 => "Active Timestamp"
  | 16 => "State"
  | 4 => "PSKc"
  | 7 => "Network Key Seq"
  | 8 => "Mesh-Local ULA"
  | 12 => "Security Policy"
  | 13 => "Get"
  | 51 => "Channel Mask"
  | _ => "?"

def printHead (t : UInt8) (l : Nat) : List UInt8 :=
  encode ("  [".toList ++ right 2 (digits t.toNat) ++ "] ".toList ++ left 24 (tlvName t).toList ++
    " len=".toList ++ left 3 (digits l) ++ " ".toList)

def printTruncated (t : UInt8) (want got : Nat) : List UInt8 :=
  encode ("  !! truncated TLV ".toList ++ digits t.toNat ++ " (want ".toList ++ digits want ++
    ", have ".toList ++ digits got ++ ")\n".toList)

def printValueAt (p : List UInt8) (t : UInt8) (l i : Nat) : Checked (List UInt8) := do
  let value ← bytesAt p i l
  pure (if t = tlvNetworkName then printName value else Hex.encode value)

def printFrom (p : List UInt8) : (fuel : Nat) → (i : Nat) → Checked (List UInt8)
  | 0, _ => .error .fuel
  | fuel + 1, i =>
    if i + 2 ≤ p.length then do
      let (t,l,i) ← tlvHeadAt p i
      if p.length < i + l then pure (printTruncated t l (p.length - i))
      else
        let value ← printValueAt p t l i
        let more ← printFrom p fuel (i + l)
        pure (printHead t l ++ value ++ [0x0a] ++ more)
    else pure []

/- What `parse_tlvs` prints. -/
def parseTlvs (p : List UInt8) : Checked (List UInt8) := printFrom p (p.length + 1) 0

def printCode (code : UInt8) : List UInt8 :=
  encode ("  CoAP code ".toList ++ digits ((code >>> 5) &&& 0x7).toNat ++ ".".toList ++
    padded 2 (code &&& 0x1f).toNat ++ "\n".toList)

/- What `coap_payload` prints before its walk. -/
def showCode (buf : List UInt8) : Checked (List UInt8) :=
  if buf.length < 4 then pure []
  else do
    let code ← byteAt buf 1
    pure (printCode code)

/- What `main` prints above the TLVs of the second reply; there is nothing above the first's. -/
def datasetHeading : List UInt8 := encode "  --- ACTIVE OPERATIONAL DATASET ---\n".toList

/- What `main` prints of a reply behind its bytes. -/
def showReply (heading buf : List UInt8) : Checked (List UInt8) := do
  let code ← showCode buf
  match ← coapPayload buf with
  | some (i,n) =>
    let listing ← parseTlvs ((buf.drop i).take n)
    pure (code ++ heading ++ listing)
  | none => pure (code ++ encode "  (no payload)\n".toList)

/- An option length that one byte holds, and that has at most one byte of its own. -/
def Narrow : Extended → Prop
  | .small _ => True
  | .byte b => b.toNat < 243
  | .word _ _ => False

instance : DecidablePred Narrow
  | .small _ => inferInstanceAs (Decidable True)
  | .byte b => inferInstanceAs (Decidable (b.toNat < 243))
  | .word _ _ => inferInstanceAs (Decidable False)

variable {buf rest payload : List UInt8} {o : Opt} {i fuel : Nat}

theorem extNibble {nibble : UInt8} {e : Extended} (same : nibble.toNat = e.nibble) : extBytes nibble = e.bytes.length := by
  cases e with
  | small n =>
    have small : nibble.toNat < 13 := same ▸ n.isLt
    exact MeshcopPayload.extNibble small
  | byte b =>
    cases UInt8.toNat_inj.mp (same.trans (show 13 = (13 : UInt8).toNat from rfl))
    rfl
  | word hi lo =>
    cases UInt8.toNat_inj.mp (same.trans (show 14 = (14 : UInt8).toNat from rfl))
    rfl

theorem optionAtNarrow (behind : buf.drop i = o.encode ++ rest) (narrow : Narrow o.length) :
    optionAt buf o.first (i + 1) = .ok (i + o.encode.length) := by
  obtain ⟨high,low⟩ := o.firstNibbles
  rw [← highNibble] at high
  rw [← lowNibble] at low
  have delta := extNibble high
  have size : o.encode.length = 1 + o.delta.bytes.length + o.length.bytes.length + o.length.value := by
    simp only [Opt.encode, List.length_cons, List.length_append, o.fits]
    omega
  have after : buf.drop (i + 1) = o.delta.bytes ++ (o.length.bytes ++ o.value ++ rest) := by
    rw [Opt.encode, List.cons_append] at behind
    rw [dropNext behind]
    simp only [List.append_assoc]
  have ext := dropMore after
  unfold optionAt
  dsimp only
  rw [delta, size]
  cases length : o.length with
  | small n =>
    rw [length] at low
    have other : o.first &&& 0x0f ≠ 13 := fun same => absurd n.isLt (by
      have : (n : Nat) = 13 := low.symm.trans (congrArg UInt8.toNat same)
      omega)
    rw [if_neg other, extNibble low, low]
    exact congrArg Except.ok (by simp only [Extended.bytes, Extended.value, Extended.nibble, List.length_nil]; omega)
  | byte b =>
    rw [length] at low narrow ext
    have same : o.first &&& 0x0f = 13 := UInt8.toNat_inj.mp low
    have room : b.toNat < 243 := narrow
    have sum : (b + 13).toNat = b.toNat + 13 := by
      rw [UInt8.toNat_add]
      exact Nat.mod_eq_of_lt (show b.toNat + 13 < 256 by omega)
    rw [if_pos same, byteAtDrop ext, okBind, sum]
    exact congrArg Except.ok (by simp only [Extended.bytes, Extended.value, List.length_singleton]; omega)
  | word hi lo =>
    rw [length] at narrow
    exact narrow.elim

theorem firstOther (o : Opt) : o.first ≠ 0xff := by
  intro same
  have nibbles := o.firstNibbles.1
  have less := o.delta.nibbleLess
  rw [same] at nibbles
  change 15 = _ at nibbles
  omega

theorem coapOptionsNarrow {options : List Opt} (narrow : ∀ o ∈ options, Narrow o.length)
    (behind : buf.drop i = opts.encodeAll options ++ marker :: payload) (enough : options.length < fuel) :
    coapOptionsAt buf fuel i = .ok (some (found buf payload)) := by
  induction options generalizing i fuel with
  | nil =>
    obtain ⟨fuel,rfl⟩ := Nat.exists_eq_succ_of_ne_zero (Nat.ne_of_gt enough)
    have first : buf.drop i = marker :: payload := behind
    have inside := dropInside first
    have left := congrArg List.length (dropNext first)
    rw [List.length_drop] at left
    unfold coapOptionsAt
    rw [if_pos inside, byteAtDrop first, okBind, if_pos (show marker = 0xff from rfl), lessRoom inside, okBind, dropNext first]
    exact congrArg (fun n => Except.ok (some (n,payload.length))) (by omega)
  | cons o options ih =>
    obtain ⟨fuel,rfl⟩ := Nat.exists_eq_succ_of_ne_zero (Nat.ne_of_gt (Nat.lt_of_le_of_lt (Nat.zero_le _) enough))
    rw [opts.encodeCons] at behind
    have first : buf.drop i = o.first :: (o.delta.bytes ++ (o.length.bytes ++ o.value) ++
        (opts.encodeAll options ++ marker :: payload)) := behind
    unfold coapOptionsAt
    rw [if_pos (dropInside first), byteAtDrop first, okBind, if_neg (firstOther o),
      optionAtNarrow behind (narrow o List.mem_cons_self), okBind]
    exact ih (fun later among => narrow later (List.mem_cons_of_mem _ among)) (dropMore behind)
      (Nat.lt_of_succ_lt_succ enough)

def Narrows (m : Message) : Prop := ∀ o ∈ m.options, Narrow o.length

instance (m : Message) : Decidable (Narrows m) := List.decidableBAll _ _

theorem coapPayloadNarrow {m : Message} (narrow : Narrows m) :
    coapPayload m.encode = .ok (some (found m.encode m.payload)) := by
  have tokenNibble : (m.first &&& 0x0f).toNat = m.token.length := by
    have short := m.short
    have fields := m.firstFields
    rw [lowNibble]
    omega
  have long : m.options.length < m.encode.length + 1 := by
    have options := opts.encodeLong m.options
    simp only [Message.encode, Message.behind, List.length_cons, List.length_append]
    omega
  have behind : m.encode.drop (4 + m.token.length) = opts.encodeAll m.options ++ marker :: m.payload := by
    rw [← List.drop_drop]
    exact List.drop_left
  unfold coapPayload
  rw [if_neg (by simp [Message.encode]), show byteAt m.encode 0 = .ok m.first from rfl, okBind, tokenNibble]
  exact coapOptionsNarrow narrow behind long

def printTlv (t : Tlv) : List UInt8 :=
  printHead t.type t.value.length ++ (if t.type = tlvNetworkName then printName t.value else Hex.encode t.value) ++ [0x0a]

def printCut (rest : List UInt8) : List UInt8 :=
  if rest.length < 2 then []
  else match tlvHeadAt rest 0 with
    | .ok (t,l,j) => printTruncated t l (rest.length - j)
    | .error _ => []

theorem byteAtShift (p : List UInt8) (i k : Nat) : byteAt (p.drop i) k = byteAt p (i + k) := by
  rw [byteAt, byteAt, List.getElem?_drop]

theorem headShift {p : List UInt8} {i j l : Nat} {t : UInt8} (inside : i + 2 ≤ p.length)
    (head : tlvHeadAt p i = .ok (t,l,j)) : i ≤ j ∧ tlvHeadAt (p.drop i) 0 = .ok (t,l,j - i) := by
  have length : (p.drop i).length = p.length - i := List.length_drop
  unfold tlvHeadAt at head ⊢
  simp only [byteAtShift, Nat.zero_add]
  rw [length]
  have same : 2 + 2 ≤ p.length - i ↔ i + 2 + 2 ≤ p.length := by omega
  simp only [same]
  cases first : byteAt p i with
  | error e => simp [first, bind, Except.bind] at head
  | ok a =>
    cases second : byteAt p (i + 1) with
    | error e => simp [first, second, bind, Except.bind] at head
    | ok b =>
      simp only [first, second, okBind] at head ⊢
      split at head
      · rename_i wide
        cases third : byteAt p (i + 2) with
        | error e => simp [third, bind, Except.bind] at head
        | ok hi =>
          cases fourth : byteAt p (i + 3) with
          | error e => simp [third, fourth, bind, Except.bind] at head
          | ok lo =>
            simp only [third, fourth, okBind] at head
            cases head
            rw [if_pos wide, okBind, okBind]
            exact ⟨by omega,congrArg (fun n => Except.ok (t,bigEndian hi lo,n)) (by omega)⟩
      · rename_i narrow
        cases head
        rw [if_neg narrow]
        exact ⟨by omega,congrArg (fun n => Except.ok (t,b.toNat,n)) (by omega)⟩

theorem printFromItems {p : List UInt8} {fuel i : Nat} (inside : i ≤ p.length) (enough : p.length < fuel + i) :
    printFrom p fuel i = .ok ((tlvs.items fuel (p.drop i)).1.flatMap printTlv ++
      printCut (tlvs.items fuel (p.drop i)).2) := by
  induction fuel generalizing i with
  | zero => omega
  | succ fuel ih =>
    unfold printFrom
    have length : (p.drop i).length = p.length - i := List.length_drop
    by_cases more : i + 2 ≤ p.length
    · rw [if_pos more, PrefixCode.items]
      cases meets more with
      | @cut t l j head short none type =>
        obtain ⟨later,shifted⟩ := headShift more head
        rw [head, okBind, none]
        dsimp only
        rw [if_pos short, printCut, if_neg (by omega), shifted]
        exact congrArg (fun n => Except.ok (printTruncated t l n)) (by omega)
      | @whole u j head later place value =>
        obtain ⟨rest,whole,next⟩ := value
        have long := congrArg List.length whole
        rw [List.length_drop, List.length_append] at long
        have bytes := bytesAtValue place whole (Nat.le_refl u.value.length)
        rw [List.take_length] at bytes
        rw [head, okBind, next]
        dsimp only
        rw [if_neg (by omega), printValueAt, bytes, okBind]
        rw [show ∀ x, (pure x : Checked (List UInt8)) = .ok x from fun _ => rfl, okBind, ih (by omega) (by omega),
          dropMore whole, okBind, List.flatMap_cons, printTlv]
        simp only [List.append_assoc]
        rfl
    · have none := (@endStops p i (fuel + 1) more).1
      rw [if_neg more, none, printCut, if_pos (show (p.drop i).length < 2 by omega)]
      rfl

/- The tool lists the complete TLVs, and of one that is cut how much of it is there. -/
theorem parseTlvsSplit (p : List UInt8) :
    parseTlvs p = .ok ((tlvs.split p).1.flatMap printTlv ++ printCut (tlvs.split p).2) := by
  unfold parseTlvs
  rw [printFromItems (Nat.zero_le _) (Nat.lt_succ_self _), List.drop_zero, tlvs.itemsSplit (Nat.le_succ _)]

def Shared (type : UInt8) : Prop := tlvName type = meshcopTlvName type

instance : DecidablePred Shared := fun _ => inferInstanceAs (Decidable (_ = _))

theorem sharedExact : ∀ type : UInt8, Shared type ↔ type ∉ [7,8,13,51,53] := by decide +kernel

theorem printTlvShared {t : Tlv} (shared : Shared t.type) : printTlv t = MeshcopTlvs.printTlv true t := by
  unfold printTlv MeshcopTlvs.printTlv MeshcopTlvs.printValue printHead MeshcopTlvs.printHead
  rw [show tlvName t.type = meshcopTlvName t.type from shared, Bool.not_true, Bool.and_false, if_neg Bool.false_ne_true]

theorem splitAll (ts : List Tlv) : tlvs.split (tlvs.encodeAll ts) = (ts,[]) :=
  tlvs.splitExact.mpr ⟨(List.append_nil _).symm,rfl⟩

theorem listingsAgree {ts : List Tlv} (shared : ∀ t ∈ ts, Shared t.type) :
    parseTlvs (tlvs.encodeAll ts) = meshcopPrintTlvs (tlvs.encodeAll ts) true := by
  rw [parseTlvsSplit, printSplit, splitAll]
  have same : ts.flatMap printTlv = ts.flatMap (MeshcopTlvs.printTlv true) :=
    List.flatMap_congr fun t among => printTlvShared (shared t among)
  rw [same]
  rfl

/- The two programs read one payload out of a message with short options. -/
theorem hostPayload (m : Message) (narrow : Narrows m) :
    coapPayload m.encode = MeshcopPayload.meshcopCoapPayload m.encode ∧
    coapPayload m.encode = .ok (some (m.encode.length - m.payload.length,m.payload.length)) ∧
    m.encode.drop (m.encode.length - m.payload.length) = m.payload := by
  obtain ⟨returned,whole⟩ := payloadReturned m
  have tool := coapPayloadNarrow narrow
  exact ⟨tool.trans returned.symm,tool,whole⟩

theorem hostPayloadPetition : ∃ m : Message, m.encode = MeshcopFetch.petition 0x2000 ∧
    coapPayload m.encode = .ok (some (10,13)) := by
  have request := MeshcopPayload.postEncode 0x2000 (show MeshcopFetch.uriPetition.length < 13 by decide)
    (show MeshcopFetch.petitionPayload ≠ [] by decide)
  have sizes : (MeshcopFetch.petition 0x2000).length = 23 ∧ MeshcopFetch.petitionPayload.length = 13 := by decide
  refine ⟨_,request,?_⟩
  rw [(hostPayload _ (by decide)).2.1, request]
  exact congrArg (fun n => Except.ok (some (n,13))) (congrArg (· - 13) sizes.1)

/- Of a message with short options whose payload is whole TLVs of shared names, the tool prints
the code of the message, the heading and the listing that the firmware makes of the payload
when nothing is hidden. -/
theorem hostListing (m : Message) (ts : List Tlv) (heading : List UInt8) (narrow : Narrows m)
    (payload : m.payload = tlvs.encodeAll ts) (shared : ∀ t ∈ ts, t.type ∉ [7,8,13,51,53]) :
    ∃ i n listing, MeshcopPayload.meshcopCoapPayload m.encode = .ok (some (i,n)) ∧
      meshcopPrintTlvs ((m.encode.drop i).take n) true = .ok listing ∧ listing = ts.flatMap printTlv ∧
      showReply heading m.encode = .ok (printCode m.code ++ heading ++ listing) := by
  obtain ⟨returned,whole⟩ := payloadReturned m
  have read : (m.encode.drop (m.encode.length - m.payload.length)).take m.payload.length = tlvs.encodeAll ts := by
    rw [whole, List.take_length, payload]
  have listed : parseTlvs (tlvs.encodeAll ts) = .ok (ts.flatMap printTlv) := by
    rw [parseTlvsSplit, splitAll]
    exact congrArg Except.ok (List.append_nil _)
  have alike := listingsAgree fun t among => (sharedExact t.type).mpr (shared t among)
  have code : showCode m.encode = .ok (printCode m.code) := by
    unfold showCode
    rw [if_neg (by simp [Message.encode]), show byteAt m.encode 1 = .ok m.code from rfl, okBind]
    rfl
  refine ⟨_,_,_,returned,?_,rfl,?_⟩
  · rw [read, ← alike, listed]
  · unfold showReply
    rw [code, okBind, coapPayloadNarrow narrow, okBind]
    change (do let listing ← parseTlvs ((m.encode.drop (m.encode.length - m.payload.length)).take m.payload.length)
               pure (printCode m.code ++ heading ++ listing)) = _
    rw [read, listed, okBind]
    rfl

/- A channel, and a key that the firmware would hide without `reveal`. -/
def dataset : List Tlv := [⟨0,false,[0,0,15],by decide⟩,⟨5,false,[0xab,0xcd],by decide⟩]

theorem ackKind : 2 < 4 := by decide

theorem noToken : ([] : List UInt8).length ≤ 8 := Nat.zero_le 8

def datasetReply : Message where
  kind := ⟨2,ackKind⟩
  code := 0x44
  idHigh := 0x20
  idLow := 0x01
  token := []
  short := noToken
  options := []
  payload := tlvs.encodeAll dataset

theorem hostListingDataset : ∃ listing, meshcopPrintTlvs datasetReply.payload true = .ok listing ∧
    meshcopPrintTlvs datasetReply.payload false ≠ .ok listing ∧
    showReply datasetHeading datasetReply.encode =
      .ok (encode "  CoAP code 2.04\n  --- ACTIVE OPERATIONAL DATASET ---\n".toList ++ listing) := by
  obtain ⟨i,n,listing,returned,printed,_,shown⟩ :=
    hostListing datasetReply dataset datasetHeading (by decide) rfl (by decide)
  obtain ⟨returned',whole⟩ := payloadReturned datasetReply
  cases Except.ok.inj (returned.symm.trans returned')
  rw [whole, List.take_length] at printed
  refine ⟨listing,printed,fun same => ?_,shown.trans ?_⟩
  · have apart : meshcopPrintTlvs datasetReply.payload true ≠ meshcopPrintTlvs datasetReply.payload false := by
      decide +kernel
    exact apart (printed.trans same.symm)
  · have heading : printCode datasetReply.code ++ datasetHeading =
        encode "  CoAP code 2.04\n  --- ACTIVE OPERATIONAL DATASET ---\n".toList := by decide +kernel
    rw [heading]

end EpskcCommissioner.HostTool
