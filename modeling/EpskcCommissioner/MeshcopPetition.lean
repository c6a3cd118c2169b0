import EpskcCommissioner.MeshcopPayload
import EpskcCommissioner.Tlv

/-! `meshcop_petition_was_accepted`, index by index: it stays inside the payload, and the first
State TLV of a CoAP message decides, if all before it are complete. -/
namespace EpskcCommissioner.MeshcopPetition
open CBytes MeshcopCodec MeshcopPayload Coap

def tlvLengthAt (payload : List UInt8) (n : UInt8) (i : Nat) : Checked (Option (Nat × Nat)) :=
  if n = 255 then do
    let room ← less payload.length i
    if room < 2 then pure none
    else
      let hi ← byteAt payload i
      let lo ← byteAt payload (i + 1)
      pure (some (bigEndian hi lo,i + 2))
  else pure (some (n.toNat,i))

def stateAt (payload : List UInt8) (len i : Nat) : Checked Bool :=
  if len = 1 then do
    let state ← byteAt payload i
    pure (state == meshcopStateAccept)
  else pure false

def stateAcceptedAt (payload : List UInt8) : (fuel : Nat) → (i : Nat) → Checked Bool
  | 0, _ => .error .fuel
  | fuel + 1, i =>
    if i + 2 ≤ payload.length then do
      let type ← byteAt payload i
      let n ← byteAt payload (i + 1)
      let head ← tlvLengthAt payload n (i + 2)
      match head with
      | none => pure false
      | some (len,i) =>
        let room ← less payload.length i
        if room < len then pure false
        else if type = meshcopStateTlv then stateAt payload len i
        else stateAcceptedAt payload fuel (i + len)
    else pure false

def meshcopPetitionWasAccepted (buf : List UInt8) : Checked Bool := do
  let payload ← meshcopCoapPayload buf
  match payload with
  | none => pure false
  | some (i,n) => stateAcceptedAt ((buf.drop i).take n) (n + 1) 0

def accepts : List Tlv → Bool
  | [] => false
  | t :: ts => if t.type = meshcopStateTlv then t.value == [meshcopStateAccept] else accepts ts

theorem tlvLengthRead (n : UInt8) (rest : List UInt8) :
    tlvLength n rest = (Tlv.readLength (n :: rest)).map Prod.snd := by
  unfold tlvLength
  rw [Tlv.readLength]
  split
  · rfl
  · rcases rest with _ | ⟨hi,_ | ⟨lo,rest⟩⟩ <;> rfl

theorem tlvLengthBehind {n : UInt8} {rest value : List UInt8} {len : Nat}
    (read : tlvLength n rest = some (len,value)) : ∃ pre, rest = pre ++ value := by
  unfold tlvLength at read
  split at read
  · cases read
    exact ⟨[],rfl⟩
  · rcases rest with _ | ⟨hi,_ | ⟨lo,rest⟩⟩
    · exact absurd read.symm (Option.some_ne_none _)
    · exact absurd read.symm (Option.some_ne_none _)
    · cases read
      exact ⟨[hi,lo],rfl⟩

theorem nextHeadless {type n : UInt8} {rest : List UInt8} (read : tlvLength n rest = none) :
    tlvs.next (type :: n :: rest) = none := by
  rw [tlvLengthRead] at read
  exact Tlv.nextNone (Option.map_eq_none_iff.mp read)

theorem nextShort {type n : UInt8} {rest value : List UInt8} {len : Nat}
    (read : tlvLength n rest = some (len,value)) (short : value.length < len) :
    tlvs.next (type :: n :: rest) = none := by
  rw [tlvLengthRead] at read
  obtain ⟨⟨wide,length,left⟩,parts,same⟩ := Option.map_eq_some_iff.mp read
  cases same
  exact (Tlv.nextFound parts).trans (dif_neg (Nat.not_le.mpr short))

theorem nextWhole {type n : UInt8} {rest value : List UInt8} {len : Nat}
    (read : tlvLength n rest = some (len,value)) (room : len ≤ value.length) :
    ∃ t : Tlv, tlvs.next (type :: n :: rest) = some (t,value.drop len) ∧ t.type = type ∧
      t.value = value.take len := by
  rw [tlvLengthRead] at read
  obtain ⟨⟨wide,length,left⟩,parts,same⟩ := Option.map_eq_some_iff.mp read
  cases same
  refine ⟨⟨type,wide,value.take len,Tlv.takeFits parts room⟩,?_,rfl,rfl⟩
  exact (Tlv.nextFound parts).trans (dif_pos room)

theorem tlvLengthAtRead {payload rest : List UInt8} {i : Nat} (n : UInt8) (inside : i ≤ payload.length)
    (behind : payload.drop i = rest) : tlvLengthAt payload n i =
      .ok ((tlvLength n rest).map (fun parts => (parts.1,payload.length - parts.2.length))) := by
  have long := congrArg List.length behind
  rw [List.length_drop] at long
  unfold tlvLengthAt tlvLength
  by_cases wide : n = 255
  · rw [if_pos wide, if_neg (not_not.mpr wide), lessRoom inside, okBind, behind]
    rcases rest with _ | ⟨hi,_ | ⟨lo,rest⟩⟩
    · rfl
    · rfl
    · rw [List.length_cons, List.length_cons] at long
      rw [if_neg (by simp), byteAtDrop behind, okBind, byteAtDrop (dropNext behind), okBind]
      exact congrArg (fun j => Except.ok (some (bigEndian hi lo,j)))
        (show i + 2 = payload.length - rest.length by omega)
  · rw [if_neg wide, if_pos wide]
    exact congrArg (fun j => Except.ok (some (n.toNat,j)))
      (show i = payload.length - rest.length by omega)

theorem valueAccepts {value : List UInt8} {len : Nat} (room : len ≤ value.length) :
    (len == 1 && value.head? == some meshcopStateAccept) = (value.take len == [meshcopStateAccept]) := by
  by_cases one : len = 1
  · subst one
    obtain ⟨b,rest,rfl⟩ := List.exists_cons_of_length_pos room
    simp
  · have other : value.take len ≠ [meshcopStateAccept] := by
      intro same
      have long := congrArg List.length same
      rw [List.length_take_of_le room] at long
      exact one long
    rw [beq_eq_false_iff_ne.mpr one, beq_eq_false_iff_ne.mpr other]
    rfl

theorem stateAtRead {payload value : List UInt8} {i len : Nat} (behind : payload.drop i = value)
    (room : len ≤ value.length) :
    stateAt payload len i = .ok (value.take len == [meshcopStateAccept]) := by
  unfold stateAt
  by_cases one : len = 1
  · subst one
    obtain ⟨b,rest,rfl⟩ := List.exists_cons_of_length_pos room
    rw [if_pos rfl, byteAtDrop behind, okBind]
    simp [pure,Except.pure]
  · rw [if_neg one, ← valueAccepts room, beq_eq_false_iff_ne.mpr one]
    rfl

theorem stateAcceptedAtItems {payload : List UInt8} {fuel i : Nat} (inside : i ≤ payload.length)
    (enough : payload.length < fuel + i) :
    stateAcceptedAt payload fuel i = .ok (accepts (tlvs.items fuel (payload.drop i)).1) := by
  induction fuel generalizing i with
  | zero => omega
  | succ fuel ih =>
    rcases behind : payload.drop i with _ | ⟨type,_ | ⟨n,rest⟩⟩
    · have long := congrArg List.length behind
      rw [List.length_drop] at long
      unfold stateAcceptedAt
      rw [if_neg (show ¬i + 2 ≤ payload.length by simp only [List.length_nil] at long; omega)]
      rfl
    · have long := congrArg List.length behind
      rw [List.length_drop] at long
      unfold stateAcceptedAt
      rw [if_neg (show ¬i + 2 ≤ payload.length by simp only [List.length_singleton] at long; omega)]
      rfl
    · have long := congrArg List.length behind
      rw [List.length_drop, List.length_cons, List.length_cons] at long
      have second := dropNext behind
      have third : payload.drop (i + 2) = rest := dropNext second
      unfold stateAcceptedAt
      rw [if_pos (by omega), byteAtDrop behind, okBind, byteAtDrop second, okBind,
        tlvLengthAtRead n (by omega) third, okBind, PrefixCode.items]
      cases read : tlvLength n rest with
      | none =>
        rw [nextHeadless read]
        rfl
      | some parts =>
        obtain ⟨len,value⟩ := parts
        obtain ⟨pre,whole⟩ := tlvLengthBehind read
        have behindValue := dropEnd (third.trans whole)
        have sizes := congrArg List.length whole
        rw [List.length_append] at sizes
        have place : payload.length - value.length ≤ payload.length := Nat.sub_le _ _
        rw [Option.map_some]
        dsimp only
        rw [lessRoom place, okBind, behindValue]
        by_cases short : value.length < len
        · rw [if_pos short, nextShort read short]
          rfl
        · obtain ⟨t,next,sameType,sameValue⟩ := nextWhole read (Nat.le_of_not_lt short)
          rw [if_neg short, next]
          dsimp only
          by_cases state : type = meshcopStateTlv
          · rw [if_pos state, stateAtRead behindValue (Nat.le_of_not_lt short)]
            rw [accepts, sameType, if_pos state, sameValue]
          · have later : payload.drop (payload.length - value.length + len) = value.drop len := by
              rw [← List.drop_drop, behindValue]
            rw [if_neg state, accepts, sameType, if_neg state, ← later]
            exact ih (by omega) (by omega)

theorem stateAcceptedItems {payload : List UInt8} {fuel : Nat} (enough : payload.length ≤ fuel) :
    stateAccepted fuel payload = accepts (tlvs.items fuel payload).1 := by
  induction fuel generalizing payload with
  | zero => rfl
  | succ fuel ih =>
    rcases payload with _ | ⟨type,_ | ⟨n,rest⟩⟩
    · rfl
    · rfl
    · rw [stateAccepted, PrefixCode.items]
      cases read : tlvLength n rest with
      | none =>
        rw [nextHeadless read]
        rfl
      | some parts =>
        obtain ⟨len,value⟩ := parts
        dsimp only
        by_cases short : value.length < len
        · rw [if_pos short, nextShort read short]
          rfl
        · obtain ⟨t,next,sameType,sameValue⟩ := nextWhole read (Nat.le_of_not_lt short)
          rw [if_neg short, next]
          dsimp only
          rw [accepts, sameType]
          by_cases state : type = meshcopStateTlv
          · rw [if_pos state, if_pos state, sameValue]
            exact valueAccepts (Nat.le_of_not_lt short)
          · obtain ⟨pre,whole⟩ := tlvLengthBehind read
            have sizes := congrArg List.length whole
            rw [List.length_append] at sizes
            rw [List.length_cons, List.length_cons] at enough
            rw [if_neg state, if_neg state]
            apply ih
            rw [List.length_drop]
            omega

theorem acceptsFirst {ts : List Tlv} : accepts ts = true ↔ ∃ before t after,
    ts = before ++ t :: after ∧ (∀ u ∈ before, u.type ≠ meshcopStateTlv) ∧ t.type = meshcopStateTlv ∧
      t.value = [meshcopStateAccept] := by
  induction ts with
  | nil =>
    refine ⟨fun no => absurd no Bool.false_ne_true,?_⟩
    rintro ⟨before,t,after,none,_⟩
    exact absurd none.symm (List.append_ne_nil_of_right_ne_nil _ (List.cons_ne_nil _ _))
  | cons u ts ih =>
    rw [accepts]
    by_cases state : u.type = meshcopStateTlv
    · rw [if_pos state, beq_iff_eq]
      constructor
      · exact fun accepted => ⟨[],u,ts,rfl,List.forall_mem_nil _,state,accepted⟩
      · rintro ⟨before,t,after,same,others,_,accepted⟩
        rcases before with _ | ⟨first,before⟩
        · cases same
          exact accepted
        · cases same
          exact absurd state (others u List.mem_cons_self)
    · rw [if_neg state, ih]
      constructor
      · rintro ⟨before,t,after,rfl,others,found⟩
        exact ⟨u :: before,t,after,rfl,List.forall_mem_cons.mpr ⟨state,others⟩,found⟩
      · rintro ⟨before,t,after,same,others,found⟩
        rcases before with _ | ⟨first,before⟩
        · cases same
          exact absurd found.1 state
        · cases same
          exact ⟨before,t,after,rfl,(List.forall_mem_cons.mp others).2,found⟩

/- The payload has, behind complete TLVs of other types, the State TLV that accepts. -/
def Accepting (payload : List UInt8) : Prop :=
  ∃ (before : List Tlv) (t : Tlv) (rest : List UInt8),
    payload = tlvs.encodeAll before ++ (t.encode ++ rest) ∧
    (∀ u ∈ before, u.type ≠ meshcopStateTlv) ∧ t.type = meshcopStateTlv ∧ t.value = [meshcopStateAccept]

theorem splitAccepting {payload : List UInt8} : accepts (tlvs.split payload).1 = true ↔ Accepting payload := by
  rw [acceptsFirst]
  constructor
  · rintro ⟨before,t,after,items,found⟩
    obtain ⟨whole,_⟩ := tlvs.splitWhole payload
    refine ⟨before,t,tlvs.encodeAll after ++ (tlvs.split payload).2,?_,found⟩
    rw [items, PrefixCode.encodeAll, List.flatMap_append, List.append_assoc] at whole
    exact whole.trans (congrArg (tlvs.encodeAll before ++ ·) (tlvs.encodeCons t after _))
  · rintro ⟨before,t,rest,rfl,found⟩
    refine ⟨before,t,(tlvs.split rest).1,?_,found⟩
    have own : tlvs.encodeAll [t] ++ rest = t.encode ++ rest := tlvs.encodeCons t [] rest
    rw [← own, tlvs.splitBehind, tlvs.splitBehind]
    rfl

theorem petitionAnswers (buf : List UInt8) :
    meshcopPetitionWasAccepted buf = .ok (petitionWasAccepted buf) := by
  unfold meshcopPetitionWasAccepted petitionWasAccepted
  rw [meshcopCoapPayloadFinds, okBind]
  cases finds : coapPayload buf with
  | none => rfl
  | some payload =>
    obtain ⟨m,rfl,rfl⟩ := coapPayloadMessage.mp finds
    have whole : (m.encode.drop (m.encode.length - m.payload.length)).take m.payload.length = m.payload := by
      rw [(payloadReturned m).2, List.take_length]
    change stateAcceptedAt ((m.encode.drop (m.encode.length - m.payload.length)).take m.payload.length)
      (m.payload.length + 1) 0 = _
    rw [whole, stateAcceptedAtItems (Nat.zero_le _) (Nat.lt_succ_self _), List.drop_zero,
      tlvs.itemsSplit (Nat.le_succ _), ← tlvs.itemsSplit (Nat.le_refl _)]
    exact congrArg Except.ok (stateAcceptedItems (Nat.le_refl _)).symm

/- `meshcop_petition_was_accepted` always ends and stays inside the payload; and it answers
yes to a CoAP message whose payload is accepting, and to nothing else. -/
theorem petitionExact (buf : List UInt8) : ∃ answer, meshcopPetitionWasAccepted buf = .ok answer ∧
    (answer = true ↔ ∃ m : Message, m.encode = buf ∧ Accepting m.payload) := by
  refine ⟨petitionWasAccepted buf,petitionAnswers buf,?_⟩
  unfold petitionWasAccepted
  cases finds : coapPayload buf with
  | none =>
    refine ⟨fun no => absurd no Bool.false_ne_true,?_⟩
    rintro ⟨m,same,_⟩
    have payload := coapPayloadMessage.mpr ⟨m,same,rfl⟩
    exact absurd (finds.symm.trans payload).symm (Option.some_ne_none _)
  | some payload =>
    obtain ⟨m,rfl,rfl⟩ := coapPayloadMessage.mp finds
    dsimp only
    rw [stateAcceptedItems (Nat.le_refl _), tlvs.itemsSplit (Nat.le_refl _), splitAccepting]
    constructor
    · exact fun accepting => ⟨m,rfl,accepting⟩
    · rintro ⟨n,same,accepting⟩
      cases Message.encodeInjective same
      exact accepting

end EpskcCommissioner.MeshcopPetition
