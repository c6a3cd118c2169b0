import EpskcCommissioner.CBytes
import EpskcCommissioner.Coap
import EpskcCommissioner.MeshcopCodec
import EpskcCommissioner.MeshcopFetch

/-! The loops of `meshcop_codec.h` over a message, index by index: they end, no byte beyond the
message is read, and what they accept is exactly a CoAP message. -/
namespace EpskcCommissioner.MeshcopPayload
open CBytes MeshcopCodec MeshcopFetch Coap

/- The length of an option's value, its extension at `i`. -/
def optionLenAt (buf : List UInt8) (nibble : UInt8) (i : Nat) : Checked Nat :=
  if nibble = 13 then do
    let b ← byteAt buf i
    pure (b.toNat + 13)
  else if nibble = 14 then do
    let hi ← byteAt buf i
    let lo ← byteAt buf (i + 1)
    pure (bigEndian hi lo + 269)
  else pure nibble.toNat

/- One round of the loop of `meshcop_coap_payload`: where the next option is. -/
def optionAt (buf : List UInt8) (b : UInt8) (i : Nat) : Checked (Option Nat) :=
  let delta := b >>> 4
  let length := b &&& 0x0f
  if delta = 15 ∨ length = 15 then pure none
  else do
    let room ← less buf.length i
    if room < extBytes delta + extBytes length then pure none
    else
      let i := i + extBytes delta
      let optionLen ← optionLenAt buf length i
      let i := i + extBytes length
      let room ← less buf.length i
      if room < optionLen then pure none else pure (some (i + optionLen))

/- The loop, and what follows it: where the payload is, and how long. -/
def coapOptionsAt (buf : List UInt8) : (fuel : Nat) → (i : Nat) → Checked (Option (Nat × Nat))
  | 0, _ => .error .fuel
  | fuel + 1, i =>
    if i < buf.length then do
      let b ← byteAt buf i
      if b = 0xff then
        let outLen ← less buf.length (i + 1)
        pure (some (i + 1,outLen))
      else
        let next ← optionAt buf b (i + 1)
        match next with
        | none => pure none
        | some i => coapOptionsAt buf fuel i
    else pure none

/- `meshcop_coap_payload`, its pointers given. -/
def meshcopCoapPayload (buf : List UInt8) : Checked (Option (Nat × Nat)) :=
  if buf.length < 4 then pure none
  else do
    let b ← byteAt buf 0
    if b >>> 6 ≠ 1 ∨ 8 < (b &&& 0x0f).toNat then pure none
    else
      let i := 4 + (b &&& 0x0f).toNat
      if buf.length < i then pure none else coapOptionsAt buf (buf.length + 1) i

theorem highNibble (b : UInt8) : (b >>> 4).toNat = b.toNat / 16 := by
  rw [UInt8.toNat_shiftRight, Nat.shiftRight_eq_div_pow]
  rfl

theorem lowNibble (b : UInt8) : (b &&& 0x0f).toNat = b.toNat % 16 := by
  rw [UInt8.toNat_and]
  exact Nat.and_two_pow_sub_one_eq_mod b.toNat 4

theorem extNibble {nibble : UInt8} (small : nibble.toNat < 13) : extBytes nibble = 0 := by
  have first : nibble ≠ 13 := fun same => absurd small (same ▸ by decide)
  have second : nibble ≠ 14 := fun same => absurd small (same ▸ by decide)
  rw [extBytes, if_neg first, if_neg second]

theorem nibbleCases {nibble : UInt8} (small : nibble.toNat < 16) :
    nibble.toNat < 13 ∨ nibble = 13 ∨ nibble = 14 ∨ nibble = 15 := by
  simp only [← UInt8.toNat_inj]
  change _ ∨ _ = 13 ∨ _ = 14 ∨ _ = 15
  omega

theorem readShort {nibble : UInt8} {bytes : List UInt8} (small : nibble.toNat < 16)
    (short : nibble = 15 ∨ bytes.length < extBytes nibble) : Extended.read nibble.toNat bytes = none := by
  rcases nibbleCases small with low | rfl | rfl | rfl
  · rw [extNibble low] at short
    rcases short with rfl | none
    · exact absurd low (by decide)
    · exact absurd none (Nat.not_lt_zero _)
  · rcases short with no | short
    · exact absurd no (by decide)
    · change bytes.length < 1 at short
      cases List.eq_nil_of_length_eq_zero (Nat.lt_one_iff.mp short)
      rfl
  · rcases short with no | short
    · exact absurd no (by decide)
    · rcases bytes with _ | ⟨hi,_ | ⟨lo,rest⟩⟩
      · rfl
      · rfl
      · exact absurd short (Nat.not_lt.mpr (Nat.le_add_left 2 rest.length))
  · rfl

theorem readNibble {nibble : UInt8} {bytes : List UInt8} (small : nibble.toNat < 16) (good : nibble ≠ 15)
    (room : extBytes nibble ≤ bytes.length) :
    ∃ e : Extended, Extended.read nibble.toNat bytes = some (e,bytes.drop (extBytes nibble)) ∧
      e.value = optionLen nibble bytes := by
  rcases nibbleCases small with low | rfl | rfl | rfl
  · have first : nibble ≠ 13 := fun same => absurd low (same ▸ by decide)
    have second : nibble ≠ 14 := fun same => absurd low (same ▸ by decide)
    refine ⟨.small ⟨nibble.toNat,low⟩,?_,?_⟩
    · rw [extNibble low]
      exact dif_pos low
    · unfold optionLen
      split <;> simp [first,second,Extended.value]
  · obtain ⟨b,rest,rfl⟩ := List.exists_cons_of_length_pos room
    refine ⟨.byte b,rfl,?_⟩
    cases rest <;> rfl
  · rcases bytes with _ | ⟨hi,_ | ⟨lo,rest⟩⟩
    · exact absurd room (Nat.not_succ_le_zero 1)
    · exact absurd room (Nat.not_succ_le_self 1)
    · exact ⟨.word hi lo,rfl,rfl⟩
  · exact absurd rfl good

theorem nextBehind (b : UInt8) (rest : List UInt8) : (Opt.next (b :: rest)).map Prod.snd =
    if b >>> 4 = 15 ∨ b &&& 0x0f = 15 then none
    else if rest.length < extBytes (b >>> 4) + extBytes (b &&& 0x0f) then none
    else
      let ext := rest.drop (extBytes (b >>> 4))
      let value := ext.drop (extBytes (b &&& 0x0f))
      if value.length < optionLen (b &&& 0x0f) ext then none
      else some (value.drop (optionLen (b &&& 0x0f) ext)) := by
  have small := b.toNat_lt
  have smallDelta : (b >>> 4).toNat < 16 := by
    rw [highNibble]
    omega
  have smallLength : (b &&& 0x0f).toNat < 16 := by
    rw [lowNibble]
    omega
  simp only [Opt.next]
  rw [← highNibble, ← lowNibble]
  generalize b >>> 4 = delta at smallDelta ⊢
  generalize b &&& 0x0f = length at smallLength ⊢
  by_cases deltaReads : delta = 15 ∨ rest.length < extBytes delta
  · rw [readShort smallDelta deltaReads]
    rcases deltaReads with rfl | short
    · rw [if_pos (.inl rfl)]
      rfl
    · rw [if_pos (show rest.length < _ by omega), ite_self]
      rfl
  · obtain ⟨goodDelta,roomDelta⟩ := not_or.mp deltaReads
    obtain ⟨d,readDelta,_⟩ := readNibble smallDelta goodDelta (Nat.le_of_not_lt roomDelta)
    rw [readDelta]
    dsimp only
    by_cases lengthReads : length = 15 ∨ (rest.drop (extBytes delta)).length < extBytes length
    · rw [readShort smallLength lengthReads]
      rcases lengthReads with rfl | short
      · rw [if_pos (.inr rfl)]
        rfl
      · rw [List.length_drop] at short
        rw [if_pos (show rest.length < _ by omega), ite_self]
        rfl
    · obtain ⟨goodLength,roomLength⟩ := not_or.mp lengthReads
      obtain ⟨l,readLength,value⟩ := readNibble smallLength goodLength (Nat.le_of_not_lt roomLength)
      rw [readLength]
      rw [List.length_drop] at roomLength
      dsimp only
      rw [if_neg (not_or.mpr ⟨goodDelta,goodLength⟩), if_neg (show ¬rest.length < _ by omega), ← value]
      by_cases fits : l.value ≤ ((rest.drop (extBytes delta)).drop (extBytes length)).length
      · rw [dif_pos fits, if_neg (Nat.not_lt.mpr fits)]
        rfl
      · rw [dif_neg fits, if_pos (Nat.lt_of_not_le fits)]
        rfl

theorem optionLenAtDrop {buf ext : List UInt8} {nibble : UInt8} {i : Nat} (behind : buf.drop i = ext)
    (room : extBytes nibble ≤ ext.length) : optionLenAt buf nibble i = .ok (optionLen nibble ext) := by
  unfold optionLenAt
  by_cases byte : nibble = 13
  · subst byte
    obtain ⟨b,rest,rfl⟩ := List.exists_cons_of_length_pos room
    rw [if_pos rfl, byteAtDrop behind]
    cases rest <;> rfl
  · by_cases word : nibble = 14
    · subst word
      rcases ext with _ | ⟨hi,_ | ⟨lo,rest⟩⟩
      · exact absurd room (Nat.not_succ_le_zero 1)
      · exact absurd room (Nat.not_succ_le_self 1)
      · rw [if_neg byte, if_pos rfl, byteAtDrop behind, byteAtDrop (dropNext behind)]
        rfl
    · rw [if_neg byte, if_neg word]
      unfold optionLen
      split <;> simp [byte,word,pure,Except.pure]

theorem optionAtNext {buf rest : List UInt8} {b : UInt8} {i : Nat} (behind : buf.drop i = b :: rest) :
    optionAt buf b (i + 1) =
      .ok ((Opt.next (b :: rest)).map (fun found => buf.length - found.2.length)) := by
  have inside := dropInside behind
  have after := dropNext behind
  have split : (Opt.next (b :: rest)).map (fun found => buf.length - found.2.length) =
      ((Opt.next (b :: rest)).map Prod.snd).map (fun left => buf.length - left.length) := by
    rw [Option.map_map]
    rfl
  rw [split, nextBehind]
  unfold optionAt
  dsimp only
  by_cases reserved : b >>> 4 = 15 ∨ b &&& 0x0f = 15
  · rw [if_pos reserved, if_pos reserved]
    rfl
  · rw [if_neg reserved, if_neg reserved, lessRoom (by omega), okBind, after]
    by_cases short : rest.length < extBytes (b >>> 4) + extBytes (b &&& 0x0f)
    · rw [if_pos short, if_pos short]
      rfl
    · rw [if_neg short, if_neg short]
      have long : (buf.drop (i + 1)).length = rest.length := congrArg List.length after
      rw [List.length_drop] at long
      have ext : buf.drop (i + 1 + extBytes (b >>> 4)) = rest.drop (extBytes (b >>> 4)) := by
        rw [← List.drop_drop, after]
      have value : buf.drop (i + 1 + extBytes (b >>> 4) + extBytes (b &&& 0x0f)) =
          (rest.drop (extBytes (b >>> 4))).drop (extBytes (b &&& 0x0f)) := by
        rw [← List.drop_drop, ext]
      have room : extBytes (b &&& 0x0f) ≤ (rest.drop (extBytes (b >>> 4))).length := by
        rw [List.length_drop]
        omega
      rw [optionLenAtDrop ext room, okBind, lessRoom (by omega), okBind, value]
      generalize optionLen (b &&& 0x0f) (rest.drop (extBytes (b >>> 4))) = len
      split
      · rfl
      · rename_i fits
        rw [List.length_drop, List.length_drop] at fits
        rw [Option.map_some, List.length_drop, List.length_drop, List.length_drop]
        exact congrArg (fun n => Except.ok (some n)) (by omega)

def found (buf : List UInt8) (payload : List UInt8) : Nat × Nat := (buf.length - payload.length,payload.length)

theorem coapOptionsAtItems {buf : List UInt8} {fuel i : Nat} (inside : i ≤ buf.length)
    (enough : buf.length < fuel + i) :
    coapOptionsAt buf fuel i =
      .ok ((behindMarker (opts.items fuel (buf.drop i)).2).map (found buf)) := by
  induction fuel generalizing i with
  | zero => omega
  | succ fuel ih =>
    unfold coapOptionsAt
    cases behind : buf.drop i with
    | nil =>
      rw [if_neg (Nat.not_lt.mpr (List.drop_eq_nil_iff.mp behind))]
      rfl
    | cons b rest =>
      have after := dropNext behind
      have long := dropInside behind
      rw [if_pos long, byteAtDrop behind, okBind]
      by_cases last : b = 0xff
      · subst last
        have stop : opts.items (fuel + 1) (marker :: rest) = ([],marker :: rest) := rfl
        rw [if_pos rfl, lessRoom long, okBind, after, show (0xff : UInt8) :: rest = marker :: rest from rfl, stop]
        have left := congrArg List.length after
        rw [List.length_drop] at left
        exact congrArg (fun n => Except.ok (some (n,rest.length))) (by omega)
      · rw [if_neg last, optionAtNext behind, okBind]
        cases next : Opt.next (b :: rest) with
        | none =>
          have stop : opts.items (fuel + 1) (b :: rest) = ([],b :: rest) := by
            rw [PrefixCode.items, show opts.next (b :: rest) = none from next]
          have other : behindMarker (b :: rest) = none := if_neg last
          rw [stop, other]
          rfl
        | some pair =>
          obtain ⟨o,left⟩ := pair
          have whole : buf.drop i = o.encode ++ left := behind.trans (Opt.nextSound next)
          have progress := List.length_pos_iff.mpr (opts.progress o)
          have sizes := congrArg List.length whole
          rw [List.length_drop, List.length_append] at sizes
          change 0 < o.encode.length at progress
          have later := dropEnd whole
          have more : (opts.items (fuel + 1) (b :: rest)).2 = (opts.items fuel left).2 := by
            rw [PrefixCode.items, show opts.next (b :: rest) = some (o,left) from next]
          have goesOn := @ih (buf.length - left.length) (Nat.sub_le _ _) (by omega)
          rw [later] at goesOn
          rw [more]
          exact goesOn

theorem coapOptionsSplit {bytes : List UInt8} {fuel : Nat} (enough : bytes.length ≤ fuel) :
    coapOptions fuel bytes = behindMarker (opts.split bytes).2 := by
  rw [← opts.itemsSplit enough]
  induction fuel generalizing bytes with
  | zero =>
    cases List.eq_nil_of_length_eq_zero (Nat.le_zero.mp enough)
    rfl
  | succ fuel ih =>
    cases bytes with
    | nil => rfl
    | cons b rest =>
      by_cases last : b = 0xff
      · subst last
        rfl
      · have step : coapOptions (fuel + 1) (b :: rest) =
            ((Opt.next (b :: rest)).map Prod.snd).bind (coapOptions fuel) := by
          rw [nextBehind, coapOptions, if_neg last]
          dsimp only
          split_ifs <;> rfl
        rw [step]
        cases next : Opt.next (b :: rest) with
        | none =>
          have stop : opts.items (fuel + 1) (b :: rest) = ([],b :: rest) := by
            rw [PrefixCode.items, show opts.next (b :: rest) = none from next]
          have other : behindMarker (b :: rest) = none := if_neg last
          rw [stop, other]
          rfl
        | some pair =>
          obtain ⟨o,left⟩ := pair
          have shorter : left.length < (b :: rest).length := opts.nextShorter next
          rw [List.length_cons] at shorter enough
          have more : (opts.items (fuel + 1) (b :: rest)).2 = (opts.items fuel left).2 := by
            rw [PrefixCode.items, show opts.next (b :: rest) = some (o,left) from next]
          rw [more]
          exact ih (show left.length ≤ fuel by omega)

/- `meshcop_coap_payload` ends, reads no byte beyond the message, and finds what `coapPayload`
finds. -/
theorem meshcopCoapPayloadFinds (buf : List UInt8) :
    meshcopCoapPayload buf = .ok ((coapPayload buf).map (found buf)) := by
  unfold meshcopCoapPayload
  rcases buf with _ | ⟨a,_ | ⟨code,_ | ⟨high,_ | ⟨low,rest⟩⟩⟩⟩
  · rfl
  · rfl
  · rfl
  · rfl
  · generalize bytes : a :: code :: high :: low :: rest = buf
    have long : 4 + rest.length = buf.length := by
      rw [← bytes]
      simp only [List.length_cons]
      omega
    have first : buf.drop 0 = a :: code :: high :: low :: rest := bytes.symm
    have behind : ∀ n, buf.drop (4 + n) = rest.drop n := by
      intro n
      rw [← bytes, ← List.drop_drop]
      rfl
    have payload : coapPayload buf = if a >>> 6 ≠ 1 ∨ 8 < (a &&& 0x0f).toNat then none
        else if rest.length < (a &&& 0x0f).toNat then none
        else coapOptions rest.length (rest.drop (a &&& 0x0f).toNat) := by
      rw [← bytes]
      rfl
    rw [if_neg (show ¬buf.length < 4 by omega), byteAtDrop first, okBind, payload]
    dsimp only
    generalize (a &&& 0x0f).toNat = token
    split
    · rfl
    · by_cases cut : rest.length < token
      · rw [if_pos cut, if_pos (show buf.length < 4 + token by omega)]
        rfl
      · have left : (rest.drop token).length ≤ rest.length := by
          rw [List.length_drop]
          exact Nat.sub_le _ _
        rw [if_neg cut, if_neg (show ¬buf.length < 4 + token by omega), coapOptionsSplit left,
          coapOptionsAtItems (by omega) (by omega), behind, opts.itemsSplit (by omega)]

theorem versionOne {a : UInt8} : a >>> 6 = 1 ↔ a.toNat / 64 = 1 := by
  rw [← UInt8.toNat_inj, UInt8.toNat_shiftRight, Nat.shiftRight_eq_div_pow]
  rfl

theorem coapPayloadMessage {buf payload : List UInt8} :
    coapPayload buf = some payload ↔ ∃ m : Message, m.encode = buf ∧ m.payload = payload := by
  constructor
  · intro found
    unfold coapPayload at found
    split at found <;> try contradiction
    rename_i a code high low rest
    split at found <;> try contradiction
    rename_i header
    split at found <;> try contradiction
    rename_i room
    rw [not_or, not_not, versionOne, lowNibble] at header
    rw [lowNibble] at room found
    have left : (rest.drop (a.toNat % 16)).length ≤ rest.length := by
      rw [List.length_drop]
      exact Nat.sub_le _ _
    rw [coapOptionsSplit left] at found
    obtain ⟨options,whole⟩ := behindMarkerSplit.mp found
    have token : (rest.take (a.toNat % 16)).length = a.toNat % 16 := List.length_take_of_le (by omega)
    refine ⟨⟨⟨a.toNat / 16 % 4,Nat.mod_lt _ (by decide)⟩,code,high,low,rest.take (a.toNat % 16),by omega,options,
      payload⟩,?_,rfl⟩
    have first : UInt8.ofNat (64 + a.toNat / 16 % 4 * 16 + (rest.take (a.toNat % 16)).length) = a := by
      rw [token, show 64 + a.toNat / 16 % 4 * 16 + a.toNat % 16 = a.toNat by omega]
      exact UInt8.ofNat_toNat
    rw [Message.encode, Message.first, Message.behind, first, ← whole, List.take_append_drop]
  · rintro ⟨m,rfl,rfl⟩
    have first := m.firstFields
    have kind := m.kind.isLt
    have short := m.short
    have version : m.first >>> 6 = 1 := versionOne.mpr (by omega)
    have token : (m.first &&& 0x0f).toNat = m.token.length := by
      rw [lowNibble]
      omega
    rw [Message.encode, coapPayload, token, if_neg (not_or.mpr ⟨not_not.mpr version,by omega⟩), if_neg, List.drop_left,
      coapOptionsSplit, m.behindSplit]
    · rfl
    · rw [List.length_append]
      exact Nat.le_add_left _ _
    · rw [List.length_append]
      omega

/- The message that `coap_post` writes. -/
def postMessage (mid : UInt16) (uri payload : List UInt8) (short : uri.length < 13) : Message where
  kind := 0
  code := 0x02
  idHigh := (mid >>> 8).toUInt8
  idLow := mid.toUInt8
  token := []
  short := Nat.zero_le _
  options := [⟨.small 11,.small 1,[0x63],rfl⟩,⟨.small 0,.small ⟨uri.length,short⟩,uri,rfl⟩]
  payload := payload

theorem postEncode (mid : UInt16) {uri payload : List UInt8} (short : uri.length < 13) (some : payload ≠ []) :
    (postMessage mid uri payload short).encode = coapPost mid uri payload := by
  have second : Opt.first ⟨.small 0,.small ⟨uri.length,short⟩,uri,rfl⟩ = UInt8.ofNat uri.length := by
    change UInt8.ofNat (0 * 16 + uri.length) = UInt8.ofNat uri.length
    rw [Nat.zero_mul, Nat.zero_add]
  simp only [coapPost,if_neg some,List.cons_append,List.nil_append]
  simp only [Message.encode,Message.first,Message.behind,postMessage,PrefixCode.encodeAll,opts,Opt.encode,
    List.flatMap_cons,List.flatMap_nil,second,Extended.bytes,marker,List.cons_append,List.nil_append,
    List.append_assoc]
  rfl

/- The payload of a message comes back, whatever its token and its options are. -/
theorem payloadReturned (m : Message) :
    meshcopCoapPayload m.encode = .ok (some (m.encode.length - m.payload.length,m.payload.length)) ∧
      m.encode.drop (m.encode.length - m.payload.length) = m.payload := by
  constructor
  · rw [meshcopCoapPayloadFinds, coapPayloadMessage.mpr ⟨m,rfl,rfl⟩]
    rfl
  · have parts : m.encode = (m.first :: m.code :: m.idHigh :: m.idLow ::
        (m.token ++ (opts.encodeAll m.options ++ [marker]))) ++ m.payload := by
      simp [Message.encode,Message.behind]
    rw [parts, List.length_append, Nat.add_sub_cancel, List.drop_left]

/- `meshcop_coap_payload` always ends and stays inside the message; it returns the payload of
what is a message, and of nothing else; and what `coap_post` writes is the request meant. -/
theorem coapPayloadExact :
    (∀ buf, (∃ m : Message, m.encode = buf ∧ meshcopCoapPayload buf =
        .ok (some (buf.length - m.payload.length,m.payload.length)) ∧
        buf.drop (buf.length - m.payload.length) = m.payload) ∨
      (¬∃ m : Message, m.encode = buf) ∧ meshcopCoapPayload buf = .ok none) ∧
    ∀ mid uri payload, 1 ≤ uri.length → uri.length ≤ 12 → payload ≠ [] →
      ∃ m : Message, (∀ n : Message, n.encode = coapPost mid uri payload ↔ n = m) ∧
        numbered 0 m.options = [(11,[0x63]),(11,uri)] ∧ m.payload = payload ∧
        meshcopCoapPayload (coapPost mid uri payload) =
          .ok (some ((coapPost mid uri payload).length - payload.length,payload.length)) ∧
        (coapPost mid uri payload).drop ((coapPost mid uri payload).length - payload.length) = payload := by
  constructor
  · intro buf
    cases finds : coapPayload buf with
    | none =>
      refine .inr ⟨?_,by rw [meshcopCoapPayloadFinds, finds]; rfl⟩
      rintro ⟨m,same⟩
      have payload := coapPayloadMessage.mpr ⟨m,same,rfl⟩
      exact absurd (finds.symm.trans payload).symm (Option.some_ne_none _)
    | some payload =>
      obtain ⟨m,rfl,rfl⟩ := coapPayloadMessage.mp finds
      exact .inl ⟨m,rfl,payloadReturned m⟩
  · intro mid uri payload _ short nonempty
    have message := postEncode mid (Nat.lt_succ_of_le short) nonempty
    obtain ⟨returned,whole⟩ := payloadReturned (postMessage mid uri payload (Nat.lt_succ_of_le short))
    rw [message] at returned whole
    refine ⟨postMessage mid uri payload (Nat.lt_succ_of_le short),fun n => ⟨fun same => ?_,?_⟩,rfl,rfl,returned,whole⟩
    · exact Message.encodeInjective (same.trans message.symm)
    · rintro rfl
      exact message

theorem coapPayloadExactPetition : ∃ m : Message, m.encode = petition 0x2000 ∧
    numbered 0 m.options = [(11,[0x63]),(11,uriPetition)] ∧ m.payload = petitionPayload := by
  obtain ⟨m,only,options,payload,_⟩ := coapPayloadExact.2 0x2000 uriPetition petitionPayload (by decide)
    (by decide) (by decide)
  exact ⟨m,(only m).mpr rfl,options,payload⟩

end EpskcCommissioner.MeshcopPayload
