import EpskcCommissioner.Decimal
import EpskcCommissioner.Hex
import EpskcCommissioner.MeshcopPetition
import EpskcCommissioner.Utf8

/-! `meshcop_print_tlvs` and `meshcop_summarize`: two walks over the TLVs of a dataset, index
by index. Both pass exactly the complete TLVs before the first that is cut. -/
namespace EpskcCommissioner.MeshcopTlvs
open CBytes MeshcopCodec MeshcopPetition Decimal
open Utf8 (encode)

def tlvChannel : UInt8 := 0
def tlvPanid : UInt8 := 1
def tlvNetworkName : UInt8 := 3
def tlvPskc : UInt8 := 4
def tlvNetworkKey : UInt8 := 5

def meshcopTlvName (type : UInt8) : String :=
  match type.toNat with
  | 0 => "Channel"
  | 1 => "PAN ID"
  | 2 => "Extended PAN ID"
  | 3 => "Network Name"
  | 4 => "PSKc"
  | 5 => "Network Key"
  | 7 => "Network Key Sequence"
  | 8 => "Mesh-Local Prefix"
  | 10 => "Commissioner ID"
  | 11 => "Commissioner Session ID"
  | 12 => "Security Policy"
  | 14 => "Active Timestamp"
  | 16 => "State"
  | 53 => "Channel Mask"
  | _ => "?"

def tlvIsSecret (type : UInt8) : Bool := type == tlvNetworkKey || type == tlvPskc

/- The head of a TLV, where both walks have at least two bytes: its type, its length and where
its value is. -/
def tlvHeadAt (p : List UInt8) (i : Nat) : Checked (UInt8 × Nat × Nat) := do
  let t ← byteAt p i
  let l ← byteAt p (i + 1)
  if l = 255 ∧ i + 2 + 2 ≤ p.length then
    let hi ← byteAt p (i + 2)
    let lo ← byteAt p (i + 3)
    pure (t,bigEndian hi lo,i + 4)
  else pure (t,l.toNat,i + 2)

/- `%2u` -/
def right (width : Nat) (text : List Char) : List Char := List.replicate (width - text.length) ' ' ++ text

/- `%-24s` -/
def left (width : Nat) (text : List Char) : List Char := text ++ List.replicate (width - text.length) ' '

def printHead (t : UInt8) (l : Nat) : List UInt8 :=
  encode ("  [".toList ++ right 2 (digits t.toNat) ++ "] ".toList ++ left 24 (meshcopTlvName t).toList ++
    " len=".toList ++ left 3 (digits l) ++ " ".toList)

def printTruncated (t : UInt8) : List UInt8 :=
  encode ("  !! truncated TLV ".toList ++ digits t.toNat ++ "\n".toList)

/- `%.*s` in quotes: up to the first NUL. -/
def printName (value : List UInt8) : List UInt8 := 0x22 :: (value.takeWhile (· != 0) ++ [0x22])

def hidden : List UInt8 := encode "<hidden - use 'reveal' to show>".toList

def printValueAt (p : List UInt8) (reveal : Bool) (t : UInt8) (l i : Nat) : Checked (List UInt8) :=
  if t = tlvNetworkName then do
    let value ← bytesAt p i l
    pure (printName value)
  else if tlvIsSecret t && !reveal then pure hidden
  else do
    let value ← bytesAt p i l
    pure (Hex.encode value)

def printFrom (p : List UInt8) (reveal : Bool) : (fuel : Nat) → (i : Nat) → Checked (List UInt8)
  | 0, _ => .error .fuel
  | fuel + 1, i =>
    if i + 2 ≤ p.length then do
      let (t,l,i) ← tlvHeadAt p i
      if p.length < i + l then pure (printTruncated t)
      else
        let value ← printValueAt p reveal t l i
        let more ← printFrom p reveal fuel (i + l)
        pure (printHead t l ++ value ++ [0x0a] ++ more)
    else pure []

/- What `meshcop_print_tlvs` prints. -/
def meshcopPrintTlvs (p : List UInt8) (reveal : Bool) : Checked (List UInt8) := printFrom p reveal (p.length + 1) 0

/- What `meshcop_summarize` gives back; of the name, the bytes before its NUL. -/
structure Summary where
  name : List UInt8
  channel : Nat
  panid : Nat
  deriving DecidableEq, Repr

def summarizeAt (p : List UInt8) (nameCap : Nat) (t : UInt8) (l i : Nat) (s : Summary) : Checked Summary :=
  if t = tlvNetworkName ∧ nameCap ≠ 0 then do
    let n := if l < nameCap - 1 then l else nameCap - 1
    let name ← bytesAt p i n
    pure {s with name := name}
  else if t = tlvChannel ∧ 3 ≤ l then do
    let hi ← byteAt p (i + 1)
    let lo ← byteAt p (i + 2)
    pure {s with channel := bigEndian hi lo}
  else if t = tlvPanid ∧ 2 ≤ l then do
    let hi ← byteAt p i
    let lo ← byteAt p (i + 1)
    pure {s with panid := bigEndian hi lo}
  else pure s

def summarizeFrom (p : List UInt8) (nameCap : Nat) : (fuel : Nat) → (i : Nat) → Summary → Checked Summary
  | 0, _, _ => .error .fuel
  | fuel + 1, i, s =>
    if i + 2 ≤ p.length then do
      let (t,l,i) ← tlvHeadAt p i
      if p.length < i + l then pure s
      else
        let s ← summarizeAt p nameCap t l i s
        summarizeFrom p nameCap fuel (i + l) s
    else pure s

def meshcopSummarize (p : List UInt8) (nameCap : Nat) : Checked Summary :=
  summarizeFrom p nameCap (p.length + 1) 0 ⟨[],0,0⟩

def printValue (reveal : Bool) (t : Tlv) : List UInt8 :=
  if t.type = tlvNetworkName then printName t.value
  else if tlvIsSecret t.type && !reveal then hidden
  else Hex.encode t.value

def printTlv (reveal : Bool) (t : Tlv) : List UInt8 :=
  printHead t.type t.value.length ++ printValue reveal t ++ [0x0a]

def printCut : List UInt8 → List UInt8
  | t :: _ :: _ => printTruncated t
  | _ => []

def summarizeTlv (nameCap : Nat) (s : Summary) (t : Tlv) : Summary :=
  if t.type = tlvNetworkName ∧ nameCap ≠ 0 then {s with name := t.value.take (nameCap - 1)}
  else if t.type = tlvChannel ∧ 3 ≤ t.value.length then
    {s with channel := bigEndian (t.value.getD 1 0) (t.value.getD 2 0)}
  else if t.type = tlvPanid ∧ 2 ≤ t.value.length then
    {s with panid := bigEndian (t.value.getD 0 0) (t.value.getD 1 0)}
  else s

/- What a walk meets where at least two bytes are left. -/
inductive Meets (p : List UInt8) (i : Nat) : Prop where
  | cut {t : UInt8} {l j : Nat} (head : tlvHeadAt p i = .ok (t,l,j)) (short : p.length < j + l)
      (none : tlvs.next (p.drop i) = none) (type : printCut (p.drop i) = printTruncated t)
  | whole {u : Tlv} {j : Nat} (head : tlvHeadAt p i = .ok (u.type,u.value.length,j)) (later : i < j)
      (inside : j ≤ p.length) (value : ∃ rest, p.drop j = u.value ++ rest ∧ tlvs.next (p.drop i) = some (u,rest))

theorem meetsLength {p rest value : List UInt8} {t n : UInt8} {i j len : Nat}
    (behind : p.drop i = t :: n :: rest) (read : tlvLength n rest = some (len,value))
    (head : tlvHeadAt p i = .ok (t,len,j)) (later : i < j) (inside : j ≤ p.length)
    (place : p.drop j = value) : Meets p i := by
  have long := congrArg List.length place
  rw [List.length_drop] at long
  by_cases short : value.length < len
  · refine .cut head (by omega) ?_ ?_
    · rw [behind]
      exact nextShort read short
    · rw [behind]
      rfl
  · obtain ⟨u,next,rfl,same⟩ := @nextWhole t _ _ _ _ read (Nat.le_of_not_lt short)
    have size : u.value.length = len := by
      rw [same, List.length_take_of_le (Nat.le_of_not_lt short)]
    refine .whole (size ▸ head) later inside ⟨value.drop len,?_,?_⟩
    · rw [place, same, List.take_append_drop]
    · rw [behind]
      exact next

theorem meets {p : List UInt8} {i : Nat} (inside : i + 2 ≤ p.length) : Meets p i := by
  have long : (p.drop i).length = p.length - i := List.length_drop
  rcases behind : p.drop i with _ | ⟨t,_ | ⟨n,rest⟩⟩
  · rw [behind, List.length_nil] at long
    omega
  · rw [behind, List.length_singleton] at long
    omega
  · rw [behind, List.length_cons, List.length_cons] at long
    have second := dropNext behind
    have third : p.drop (i + 2) = rest := dropNext second
    have head : tlvHeadAt p i = if n = 255 ∧ i + 2 + 2 ≤ p.length then do
          let hi ← byteAt p (i + 2)
          let lo ← byteAt p (i + 3)
          pure (t,bigEndian hi lo,i + 4)
        else pure (t,n.toNat,i + 2) := by
      unfold tlvHeadAt
      rw [byteAtDrop behind, okBind, byteAtDrop second, okBind]
    by_cases wide : n = 255
    · subst wide
      rcases rest with _ | ⟨hi,_ | ⟨lo,rest⟩⟩
      · rw [List.length_nil] at long
        rw [if_neg (by omega)] at head
        refine .cut head (show p.length < i + 2 + 255 by omega) ?_ ?_
        · rw [behind]
          exact nextHeadless rfl
        · rw [behind]
          rfl
      · rw [List.length_singleton] at long
        rw [if_neg (by omega)] at head
        refine .cut head (show p.length < i + 2 + 255 by omega) ?_ ?_
        · rw [behind]
          exact nextHeadless rfl
        · rw [behind]
          rfl
      · rw [List.length_cons, List.length_cons] at long
        rw [if_pos ⟨rfl,by omega⟩, byteAtDrop third, okBind, byteAtDrop (dropNext third), okBind] at head
        exact meetsLength behind rfl head (by omega) (by omega) (dropNext (dropNext third))
    · rw [if_neg (fun both => wide both.1)] at head
      exact meetsLength behind (if_pos wide) head (by omega) (by omega) third

theorem endStops {p : List UInt8} {i fuel : Nat} (short : ¬i + 2 ≤ p.length) :
    tlvs.items fuel (p.drop i) = ([],p.drop i) ∧ printCut (p.drop i) = [] := by
  have long : (p.drop i).length = p.length - i := List.length_drop
  rcases behind : p.drop i with _ | ⟨t,_ | ⟨n,rest⟩⟩
  · cases fuel <;> exact ⟨rfl,rfl⟩
  · cases fuel <;> exact ⟨rfl,rfl⟩
  · rw [behind, List.length_cons, List.length_cons] at long
    omega

theorem bytesAtValue {p value rest : List UInt8} {j n : Nat} (inside : j ≤ p.length)
    (place : p.drop j = value ++ rest) (room : n ≤ value.length) : bytesAt p j n = .ok (value.take n) := by
  have long : n ≤ (p.drop j).length := by
    rw [place, List.length_append]
    exact Nat.le_add_right_of_le room
  rw [bytesAtDrop long inside, place, List.take_append_of_le_length room]

theorem printValueAtWhole {p rest : List UInt8} {j : Nat} {u : Tlv} (reveal : Bool)
    (inside : j ≤ p.length) (place : p.drop j = u.value ++ rest) :
    printValueAt p reveal u.type u.value.length j = .ok (printValue reveal u) := by
  have bytes := bytesAtValue inside place (Nat.le_refl u.value.length)
  rw [List.take_length] at bytes
  unfold printValueAt printValue
  rw [bytes]
  split_ifs <;> rfl

theorem printFromItems {p : List UInt8} {reveal : Bool} {fuel i : Nat} (inside : i ≤ p.length)
    (enough : p.length < fuel + i) :
    printFrom p reveal fuel i = .ok ((tlvs.items fuel (p.drop i)).1.flatMap (printTlv reveal) ++
      printCut (tlvs.items fuel (p.drop i)).2) := by
  induction fuel generalizing i with
  | zero => omega
  | succ fuel ih =>
    unfold printFrom
    by_cases more : i + 2 ≤ p.length
    · rw [if_pos more, PrefixCode.items]
      cases meets more with
      | cut head short none type =>
        rw [head, okBind, none]
        dsimp only
        rw [if_pos short, type]
        rfl
      | @whole u j head later place value =>
        obtain ⟨rest,whole,next⟩ := value
        have long := congrArg List.length whole
        rw [List.length_drop, List.length_append] at long
        rw [head, okBind, next]
        dsimp only
        rw [if_neg (by omega), printValueAtWhole reveal place whole, okBind, ih (by omega) (by omega), dropMore whole,
          okBind, List.flatMap_cons, printTlv]
        simp only [List.append_assoc]
        rfl
    · obtain ⟨none,last⟩ := @endStops p i (fuel + 1) more
      rw [if_neg more, none, last]
      rfl

theorem byteAtValue {p value rest : List UInt8} {j k : Nat} (place : p.drop j = value ++ rest)
    (room : k < value.length) : byteAt p (j + k) = .ok (value.getD k 0) := by
  have found : p[j + k]? = some (value.getD k 0) := by
    rw [← List.getElem?_drop, place, List.getElem?_append_left room, List.getD_eq_getElem _ _ room,
      List.getElem?_eq_getElem room]
  unfold byteAt
  rw [found]

theorem summarizeAtWhole {p rest : List UInt8} {j : Nat} {u : Tlv} (nameCap : Nat) (s : Summary)
    (inside : j ≤ p.length) (place : p.drop j = u.value ++ rest) :
    summarizeAt p nameCap u.type u.value.length j s = .ok (summarizeTlv nameCap s u) := by
  unfold summarizeAt summarizeTlv
  split
  · have cap : (if u.value.length < nameCap - 1 then u.value.length else nameCap - 1) ≤ u.value.length := by
      split
      · exact Nat.le_refl _
      · rename_i long
        exact Nat.le_of_not_lt long
    have same : u.value.take (if u.value.length < nameCap - 1 then u.value.length else nameCap - 1) =
        u.value.take (nameCap - 1) := by
      split
      · rename_i short
        rw [List.take_length, List.take_of_length_le (Nat.le_of_lt short)]
      · rfl
    dsimp only
    rw [bytesAtValue inside place cap, okBind, same]
    rfl
  · split
    · rename_i channel
      rw [byteAtValue place (show 1 < _ by omega), okBind, byteAtValue place (show 2 < _ by omega), okBind]
      rfl
    · split
      · rename_i panid
        rw [← Nat.add_zero j, byteAtValue place (show 0 < _ by omega), okBind, Nat.add_zero,
          byteAtValue place (show 1 < _ by omega), okBind]
        rfl
      · rfl

theorem summarizeFromItems {p : List UInt8} {nameCap fuel i : Nat} (s : Summary) (inside : i ≤ p.length)
    (enough : p.length < fuel + i) : summarizeFrom p nameCap fuel i s =
      .ok ((tlvs.items fuel (p.drop i)).1.foldl (summarizeTlv nameCap) s) := by
  induction fuel generalizing i s with
  | zero => omega
  | succ fuel ih =>
    unfold summarizeFrom
    by_cases more : i + 2 ≤ p.length
    · rw [if_pos more, PrefixCode.items]
      cases meets more with
      | cut head short none type =>
        rw [head, okBind, none]
        dsimp only
        rw [if_pos short]
        rfl
      | @whole u j head later place value =>
        obtain ⟨rest,whole,next⟩ := value
        have long := congrArg List.length whole
        rw [List.length_drop, List.length_append] at long
        rw [head, okBind, next]
        dsimp only
        rw [if_neg (by omega), summarizeAtWhole nameCap s place whole, okBind, ih _ (by omega) (by omega),
          dropMore whole]
        rfl
    · rw [if_neg more, (@endStops p i (fuel + 1) more).1]
      rfl

theorem printSplit (p : List UInt8) (reveal : Bool) : meshcopPrintTlvs p reveal =
    .ok ((tlvs.split p).1.flatMap (printTlv reveal) ++ printCut (tlvs.split p).2) := by
  unfold meshcopPrintTlvs
  rw [printFromItems (Nat.zero_le _) (Nat.lt_succ_self _), List.drop_zero, tlvs.itemsSplit (Nat.le_succ _)]

theorem summarizeSplit (p : List UInt8) (nameCap : Nat) : meshcopSummarize p nameCap =
    .ok ((tlvs.split p).1.foldl (summarizeTlv nameCap) ⟨[],0,0⟩) := by
  unfold meshcopSummarize
  rw [summarizeFromItems _ (Nat.zero_le _) (Nat.lt_succ_self _), List.drop_zero,
    tlvs.itemsSplit (Nat.le_succ _)]

theorem foldlLast {S T A : Type} {step : S → T → S} (get : S → A) (p : T → Bool) (f : T → A)
    (sets : ∀ s t, get (step s t) = if p t then f t else get s) (ts : List T) (s : S) :
    get (ts.foldl step s) = (((ts.filter p).getLast?).map f).getD (get s) := by
  induction ts using List.reverseRecOn with
  | nil => rfl
  | append_singleton ts t ih =>
    rw [List.foldl_concat, sets, List.filter_append]
    cases found : p t with
    | true => simp [found]
    | false => simp [found,ih]

def lastOf (type : UInt8) (least : Nat) (ts : List Tlv) : Option Tlv :=
  (ts.filter (fun t => t.type = type ∧ least ≤ t.value.length)).getLast?

def summaryOf (nameCap : Nat) (ts : List Tlv) : Summary where
  name := ((lastOf tlvNetworkName 0 ts).map (fun t => t.value.take (nameCap - 1))).getD []
  channel := ((lastOf tlvChannel 3 ts).map (fun t => bigEndian (t.value.getD 1 0) (t.value.getD 2 0))).getD 0
  panid := ((lastOf tlvPanid 2 ts).map (fun t => bigEndian (t.value.getD 0 0) (t.value.getD 1 0))).getD 0

theorem nameSet {nameCap : Nat} (room : nameCap ≠ 0) (s : Summary) (t : Tlv) :
    (summarizeTlv nameCap s t).name = if decide (t.type = tlvNetworkName ∧ 0 ≤ t.value.length) then
      t.value.take (nameCap - 1) else s.name := by
  unfold summarizeTlv
  by_cases name : t.type = tlvNetworkName
  · simp [name,room]
  · simp only [name,false_and,if_false,decide_false,Bool.false_eq_true]
    split_ifs <;> rfl

theorem channelSet (nameCap : Nat) (s : Summary) (t : Tlv) :
    (summarizeTlv nameCap s t).channel = if decide (t.type = tlvChannel ∧ 3 ≤ t.value.length) then
      bigEndian (t.value.getD 1 0) (t.value.getD 2 0) else s.channel := by
  unfold summarizeTlv
  by_cases channel : t.type = tlvChannel ∧ 3 ≤ t.value.length
  · have other : ¬(t.type = tlvNetworkName ∧ nameCap ≠ 0) := fun name =>
      absurd (channel.1.symm.trans name.1) (by decide)
    rw [if_neg other, if_pos channel, decide_eq_true channel]
    rfl
  · rw [decide_eq_false channel, if_neg channel, if_neg Bool.false_ne_true]
    split_ifs <;> rfl

theorem panidSet (nameCap : Nat) (s : Summary) (t : Tlv) :
    (summarizeTlv nameCap s t).panid = if decide (t.type = tlvPanid ∧ 2 ≤ t.value.length) then
      bigEndian (t.value.getD 0 0) (t.value.getD 1 0) else s.panid := by
  unfold summarizeTlv
  by_cases panid : t.type = tlvPanid ∧ 2 ≤ t.value.length
  · have first : ¬(t.type = tlvNetworkName ∧ nameCap ≠ 0) := fun name =>
      absurd (panid.1.symm.trans name.1) (by decide)
    have second : ¬(t.type = tlvChannel ∧ 3 ≤ t.value.length) := fun channel =>
      absurd (panid.1.symm.trans channel.1) (by decide)
    rw [if_neg first, if_neg second, if_pos panid, decide_eq_true panid]
    rfl
  · rw [decide_eq_false panid, if_neg panid, if_neg Bool.false_ne_true]
    split_ifs <;> rfl

theorem foldSummary {nameCap : Nat} (room : 1 ≤ nameCap) (ts : List Tlv) :
    ts.foldl (summarizeTlv nameCap) ⟨[],0,0⟩ = summaryOf nameCap ts := by
  have name := foldlLast Summary.name _ _ (nameSet (Nat.pos_iff_ne_zero.mp room)) ts ⟨[],0,0⟩
  have channel := foldlLast Summary.channel _ _ (channelSet nameCap) ts ⟨[],0,0⟩
  have panid := foldlLast Summary.panid _ _ (panidSet nameCap) ts ⟨[],0,0⟩
  generalize ts.foldl (summarizeTlv nameCap) ⟨[],0,0⟩ = s at name channel panid ⊢
  cases s
  cases name
  cases channel
  cases panid
  rfl

/- `meshcop_summarize` always ends and stays inside the buffer. The complete TLVs before the
first that is cut are the ones that it passes and that `meshcop_print_tlvs` prints, and the
last of each kind among them give its results. -/
theorem summarizeExact (p : List UInt8) (nameCap : Nat) (room : 1 ≤ nameCap) : ∃ ts rest,
    (∀ us last, p = tlvs.encodeAll us ++ last ∧ tlvs.next last = none ↔ us = ts ∧ last = rest) ∧
    meshcopSummarize p nameCap = .ok (summaryOf nameCap ts) ∧
    ∀ reveal, meshcopPrintTlvs p reveal = .ok (ts.flatMap (printTlv reveal) ++ printCut rest) := by
  refine ⟨(tlvs.split p).1,(tlvs.split p).2,?_,?_,printSplit p⟩
  · intro us last
    rw [← tlvs.splitExact]
    constructor
    · exact fun parts => ⟨congrArg Prod.fst parts.symm,congrArg Prod.snd parts.symm⟩
    · rintro ⟨rfl,rfl⟩
      rfl
  · rw [summarizeSplit, foldSummary room]

/- A name, and a PAN ID whose length is cut. -/
theorem summarizeExactName : meshcopSummarize [3,2,0x68,0x69,1,255,0] 17 = .ok ⟨[0x68,0x69],0,0⟩ ∧
    ∃ ts rest, (∀ us last, [3,2,0x68,0x69,1,255,0] = tlvs.encodeAll us ++ last ∧ tlvs.next last = none ↔
      us = ts ∧ last = rest) ∧ summaryOf 17 ts = ⟨[0x68,0x69],0,0⟩ := by
  have found : meshcopSummarize [3,2,0x68,0x69,1,255,0] 17 = .ok ⟨[0x68,0x69],0,0⟩ := by decide +kernel
  obtain ⟨ts,rest,only,summary,_⟩ := summarizeExact [3,2,0x68,0x69,1,255,0] 17 (by decide)
  exact ⟨found,ts,rest,only,Except.ok.inj (summary.symm.trans found)⟩

end EpskcCommissioner.MeshcopTlvs
