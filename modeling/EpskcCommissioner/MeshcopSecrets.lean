import EpskcCommissioner.MeshcopTlvs

/-! What is shown of a dataset does not depend on its keys: two datasets with the same framing
that differ only inside the values of secret TLVs are printed and summarized alike. -/
namespace EpskcCommissioner.MeshcopSecrets
open MeshcopTlvs Tlv

def Secret (spans : List Span) (k : Nat) : Prop := ∃ s ∈ spans, tlvIsSecret s.type = true ∧ s.Has k

structure Alike (a b : List UInt8) : Prop where
  long : a.length = b.length
  framing : spans a = spans b
  same : ∀ k, ¬Secret (spans a) k → a[k]? = b[k]?

structure ShownAlike (a b : List Tlv × List UInt8) : Prop where
  printed : a.1.flatMap (printTlv false) ++ printCut a.2 = b.1.flatMap (printTlv false) ++ printCut b.2
  summarized : ∀ nameCap s, a.1.foldl (summarizeTlv nameCap) s = b.1.foldl (summarizeTlv nameCap) s

theorem shownCons {t u : Tlv} {a b : List Tlv × List UInt8} (printed : printTlv false t = printTlv false u)
    (summarized : ∀ nameCap s, summarizeTlv nameCap s t = summarizeTlv nameCap s u) (rest : ShownAlike a b) :
    ShownAlike (t :: a.1,a.2) (u :: b.1,b.2) := by
  constructor
  · rw [List.flatMap_cons, List.flatMap_cons, List.append_assoc, List.append_assoc, printed, rest.printed]
  · intro nameCap s
    rw [List.foldl_cons, List.foldl_cons, summarized, rest.summarized]

theorem printAlike {t u : Tlv} (type : t.type = u.type) (long : t.value.length = u.value.length)
    (same : tlvIsSecret t.type = false → t.value = u.value) : printTlv false t = printTlv false u := by
  unfold printTlv printValue
  rw [← type, ← long]
  cases secret : tlvIsSecret t.type with
  | false => rw [same secret]
  | true =>
    have other : t.type ≠ tlvNetworkName := fun name => absurd (name ▸ secret) (by decide)
    rw [if_neg other, if_neg other]
    rfl

theorem summarizeAlike {t u : Tlv} (type : t.type = u.type) (nameCap : Nat) (s : Summary)
    (same : tlvIsSecret t.type = false → t.value = u.value) :
    summarizeTlv nameCap s t = summarizeTlv nameCap s u := by
  unfold summarizeTlv
  rw [← type]
  cases secret : tlvIsSecret t.type with
  | false => rw [same secret]
  | true =>
    have name : t.type ≠ tlvNetworkName := fun same => absurd (same ▸ secret) (by decide)
    have channel : t.type ≠ tlvChannel := fun same => absurd (same ▸ secret) (by decide)
    have panid : t.type ≠ tlvPanid := fun same => absurd (same ▸ secret) (by decide)
    simp only [name,channel,panid,false_and,if_false]

theorem readLengthRest {type : UInt8} {bytes rest : List UInt8} {wide : Bool} {n : Nat}
    (read : readLength bytes = some (wide,n,rest)) : rest.length ≤ bytes.length ∧
      ∀ k : Nat, (type :: bytes)[bytes.length + 1 - rest.length + k]? = rest[k]? := by
  have whole := (readLengthExact.mp read).2
  have long := congrArg List.length whole
  rw [List.length_append] at long
  refine ⟨by omega,fun k => ?_⟩
  have place : bytes.length + 1 - rest.length = (lengthBytes wide n).length + 1 := by omega
  rw [place, Nat.add_right_comm, List.getElem?_cons_succ]
  nth_rewrite 1 [whole]
  rw [List.getElem?_append_right (Nat.le_add_right _ _), Nat.add_sub_cancel_left]

theorem shownSame {a b : List Tlv × List UInt8} (same : a = b) : ShownAlike a b := by
  cases same
  exact ⟨rfl,fun _ _ => rfl⟩

structure AlikeFrom (fuel i : Nat) (a b : List UInt8) : Prop where
  long : a.length = b.length
  framing : spansFrom fuel i a = spansFrom fuel i b
  same : ∀ k, ¬Secret (spansFrom fuel i a) (i + k) → a[k]? = b[k]?

section walk

variable {fuel i n : Nat} {type other : UInt8} {a b as bs ra rb : List UInt8} {wide wideB : Bool}

theorem alikeNone (alike : AlikeFrom fuel i a b) (none : spansFrom fuel i a = []) : a = b := by
  apply List.ext_getElem?
  intro k
  apply alike.same
  rintro ⟨s,mem,_⟩
  rw [none] at mem
  exact absurd mem List.not_mem_nil

theorem alikeHead (alike : AlikeFrom (fuel + 1) i (type :: as) (other :: bs))
    (read : readLength as = some (wide,n,ra)) : type = other ∧ ∃ wideB rb,
      readLength bs = some (wideB,n,rb) ∧ ra.length = rb.length := by
  have long := alike.long
  rw [List.length_cons, List.length_cons] at long
  have framing := alike.framing
  rw [spansFound fuel i read] at framing
  cases readB : readLength bs with
  | none =>
    rw [spansNone fuel i readB] at framing
    exact absurd framing (List.cons_ne_nil _ _)
  | some parts =>
    obtain ⟨wideB,m,rb⟩ := parts
    rw [spansFound fuel i readB] at framing
    obtain ⟨rfl,start,rfl⟩ := Span.mk.inj (List.cons.inj framing).1
    obtain ⟨shortA,_⟩ := @readLengthRest type _ _ _ _ read
    obtain ⟨shortB,_⟩ := @readLengthRest type _ _ _ _ readB
    exact ⟨rfl,wideB,rb,rfl,by omega⟩

theorem restSame (alike : AlikeFrom (fuel + 1) i (type :: as) (other :: bs))
    (readA : readLength as = some (wide,n,ra)) (readB : readLength bs = some (wideB,n,rb))
    (rests : ra.length = rb.length) {k : Nat}
    (free : ¬Secret (spansFrom (fuel + 1) i (type :: as)) (i + (as.length + 1 - ra.length + k))) :
    ra[k]? = rb[k]? := by
  have long := alike.long
  rw [List.length_cons, List.length_cons] at long
  have place : as.length + 1 - ra.length = bs.length + 1 - rb.length := by omega
  have restA := (@readLengthRest type _ _ _ _ readA).2
  have restB := (@readLengthRest other _ _ _ _ readB).2
  rw [← place] at restB
  rw [← restA, ← restB]
  exact alike.same _ free

theorem alikeValue (alike : AlikeFrom (fuel + 1) i (type :: as) (other :: bs))
    (readA : readLength as = some (wide,n,ra)) (readB : readLength bs = some (wideB,n,rb))
    (rests : ra.length = rb.length) (room : n ≤ ra.length) (plain : tlvIsSecret type = false) :
    ra.take n = rb.take n := by
  apply List.ext_getElem?
  intro k
  rw [List.getElem?_take, List.getElem?_take]
  split
  · rename_i inside
    refine restSame alike readA readB rests ?_
    rw [spansFound fuel i readA, if_pos room]
    rintro ⟨s,mem,secret,has⟩
    rcases List.mem_cons.mp mem with rfl | later
    · exact absurd (secret.symm.trans plain) Bool.true_eq_false_eq_False
    · have behind := spansBehind later
      obtain ⟨first,_⟩ := has
      omega
  · rfl

theorem alikeRest (alike : AlikeFrom (fuel + 1) i (type :: as) (other :: bs))
    (readA : readLength as = some (wide,n,ra)) (readB : readLength bs = some (wideB,n,rb))
    (rests : ra.length = rb.length) (room : n ≤ ra.length) :
    AlikeFrom fuel (i + (as.length + 1 - ra.length) + n) (ra.drop n) (rb.drop n) := by
  have spansA := @spansFound type _ _ _ _ fuel i readA
  have spansB := @spansFound other _ _ _ _ fuel i readB
  rw [if_pos room] at spansA
  rw [if_pos (rests ▸ room)] at spansB
  refine ⟨?_,?_,?_⟩
  · rw [List.length_drop, List.length_drop, rests]
  · have tail := alike.framing
    rw [spansA, spansB] at tail
    have long := alike.long
    rw [List.length_cons, List.length_cons] at long
    rw [(List.cons.inj tail).2, show as.length + 1 - ra.length = bs.length + 1 - rb.length by omega]
  · intro k free
    rw [List.getElem?_drop, List.getElem?_drop]
    refine restSame alike readA readB rests ?_
    rw [spansA]
    rintro ⟨s,mem,secret,has⟩
    rcases List.mem_cons.mp mem with rfl | later
    · have inside := has.2
      dsimp only at inside
      omega
    · refine free ⟨s,later,secret,?_⟩
      rw [show i + (as.length + 1 - ra.length) + n + k = i + (as.length + 1 - ra.length + (n + k)) by omega]
      exact has

end walk

/- The walk over both at once: each TLV is secret in both or the same in both. -/
theorem shownAlike {fuel i : Nat} {a b : List UInt8} (alike : AlikeFrom fuel i a b) (enough : a.length ≤ fuel) :
    ShownAlike (tlvs.items fuel a) (tlvs.items fuel b) := by
  induction fuel generalizing i a b with
  | zero => exact shownSame (congrArg (tlvs.items 0) (alikeNone alike rfl))
  | succ fuel ih =>
    rcases a with _ | ⟨type,as⟩
    · exact shownSame (congrArg (tlvs.items (fuel + 1)) (alikeNone alike rfl))
    rcases b with _ | ⟨other,bs⟩
    · exact absurd alike.long (Nat.succ_ne_zero _)
    cases readA : readLength as with
    | none => exact shownSame (congrArg (tlvs.items (fuel + 1)) (alikeNone alike (spansNone fuel i readA)))
    | some parts =>
      obtain ⟨wide,n,ra⟩ := parts
      obtain ⟨rfl,wideB,rb,readB,rests⟩ := alikeHead alike readA
      by_cases room : n ≤ ra.length
      · have roomB : n ≤ rb.length := rests ▸ room
        have nextA : tlvs.next (type :: as) = _ := (nextFound readA).trans (dif_pos room)
        have nextB : tlvs.next (type :: bs) = _ := (nextFound readB).trans (dif_pos roomB)
        have value := alikeValue alike readA readB rests room
        have sizes : (ra.take n).length = (rb.take n).length := by
          rw [List.length_take_of_le room, List.length_take_of_le roomB]
        have short := (@readLengthRest type _ _ _ _ readA).1
        rw [List.length_cons] at enough
        rw [PrefixCode.items, PrefixCode.items, nextA, nextB]
        refine shownCons (printAlike rfl sizes value) ?_ (ih (alikeRest alike readA readB rests room) ?_)
        · intro nameCap s
          refine summarizeAlike ?_ nameCap s value
          rfl
        · rw [List.length_drop]
          omega
      · have nextA : tlvs.next (type :: as) = none := (nextFound readA).trans (dif_neg room)
        have nextB : tlvs.next (type :: bs) = none := (nextFound readB).trans (dif_neg (rests ▸ room))
        rw [PrefixCode.items, PrefixCode.items, nextA, nextB]
        rcases as with _ | ⟨x,as⟩
        · exact absurd readA.symm (Option.some_ne_none _)
        · rcases bs with _ | ⟨y,bs⟩
          · exact absurd readB.symm (Option.some_ne_none _)
          · exact ⟨rfl,fun _ _ => rfl⟩

/- No byte of a key has any influence on what is printed without `reveal`, or on the name,
the channel and the PAN ID. -/
theorem keysHidden {a b : List UInt8} (alike : Alike a b) :
    meshcopPrintTlvs a false = meshcopPrintTlvs b false ∧
      ∀ nameCap, meshcopSummarize a nameCap = meshcopSummarize b nameCap := by
  have framing : spansFrom a.length 0 a = spansFrom a.length 0 b := by
    have same := alike.framing
    unfold spans at same
    rwa [← alike.long] at same
  have whole : AlikeFrom a.length 0 a b := ⟨alike.long,framing,fun k free =>
    alike.same k (fun secret => free ((Nat.zero_add k).symm ▸ secret))⟩
  have shown := shownAlike whole (Nat.le_refl _)
  rw [tlvs.itemsSplit (Nat.le_refl _), tlvs.itemsSplit (Nat.le_of_eq alike.long.symm)] at shown
  constructor
  · rw [printSplit, printSplit, shown.printed]
  · intro nameCap
    rw [summarizeSplit, summarizeSplit, shown.summarized]

/- A network key of one byte before a name. -/
theorem keysHiddenOne : meshcopPrintTlvs [5,1,7,3,1,0x61] false = meshcopPrintTlvs [5,1,9,3,1,0x61] false ∧
    [5,1,7,3,1,0x61] ≠ ([5,1,9,3,1,0x61] : List UInt8) := by
  have same : ∀ k, ¬Secret (spans [5,1,7,3,1,0x61]) k →
      ([5,1,7,3,1,0x61] : List UInt8)[k]? = ([5,1,9,3,1,0x61] : List UInt8)[k]? := by
    intro k free
    rcases k with _ | _ | _ | k
    · rfl
    · rfl
    · exact absurd ⟨⟨5,2,1⟩,List.mem_cons_self,rfl,Nat.le_refl 2,Nat.lt_succ_self 2⟩ free
    · rfl
  have alike : Alike [5,1,7,3,1,0x61] [5,1,9,3,1,0x61] := ⟨rfl,rfl,same⟩
  exact ⟨(keysHidden alike).1,by decide⟩

end EpskcCommissioner.MeshcopSecrets
