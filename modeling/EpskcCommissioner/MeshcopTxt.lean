import EpskcCommissioner.CBuffer
import EpskcCommissioner.Utf8
import EpskcCommissioner.WifiDriver

/-! `meshcop_txt_apply_locked`: OpenThread's entries of a service's TXT record are set in the
mDNS responder one by one, each cut at its first `=`, and the model name after them. -/
namespace EpskcCommissioner.MeshcopTxt
open CBytes (Checked byteAt bytesAt less byteAtDrop bytesAtDrop dropNext dropMore)
open CBuffer WifiDriver

def equals : UInt8 := 0x3d

/- `otBorderAgentMeshCoPServiceTxtData`, the bytes of `mData` that are in use. -/
structure TxtData where
  data : List UInt8
  fits : data.length ≤ 256

/- What OpenThread and the responder answer; the responder to the nth entry. -/
structure Answers where
  active : Bool
  published : Bool
  txt : Option TxtData
  set : Nat → EspErr

/- One item that is set. The key is a string and the value has an explicit length. -/
structure Item where
  service : List UInt8
  key : List UInt8
  value : List UInt8
  deriving DecidableEq, Repr

/- `THREAD_MESHCOP_MODEL_NAME` -/
def modelName : List UInt8 := Utf8.encode "M5Stack CoreS3 Thread BR".toList

def modelItem (service : List UInt8) : Item := ⟨service,[0x6d,0x6e],modelName⟩

def memchr (data : List UInt8) (b : UInt8) : (n i : Nat) → Checked (Option Nat)
  | 0, _ => .ok none
  | n + 1, i => do
    let c ← byteAt data i
    if c = b then .ok (some i) else memchr data b n (i + 1)

/- The item of an entry, and nothing where the loop continues. `key` is what the stack holds
where the key is put. -/
def entryItem (service data : List UInt8) (key : Vector UInt8 16) (entry entryLen : Nat) : Stored (Option Item) := do
  match ← reading (memchr data equals entryLen entry) with
  | none => pure none
  | some eq =>
    if eq = entry then pure none
    else
      let keyLen ← reading (less eq entry)
      if 16 ≤ keyLen then pure none
      else
        let name ← reading (bytesAt data entry keyLen)
        let copied ← putAll ⟨key.toList,0⟩ name
        let ended ← store copied.buf keyLen 0
        let behind ← reading (less entryLen keyLen)
        let valueLen ← reading (less behind 1)
        let value ← reading (bytesAt data (eq + 1) (valueLen % 256))
        pure (some ⟨service,stringIn ended,value⟩)

def applyFrom (a : Answers) (service data : List UInt8) (stack : Nat → Vector UInt8 16) :
    (fuel pos applied : Nat) → Stored (List Item × Bool)
  | 0, _, _ => .error (.other .fuel)
  | fuel + 1, pos, applied =>
    if pos < data.length then do
      let entryLen ← reading (byteAt data pos)
      let next := (pos + (1 + entryLen.toNat)) % 65536
      if data.length < next then pure ([],true)
      else
        match ← entryItem service data (stack pos) (pos + 1) entryLen.toNat with
        | none => applyFrom a service data stack fuel next applied
        | some item =>
          if a.set applied ≠ espOk then pure ([item],false)
          else do
            let (items,done) ← applyFrom a service data stack fuel next (applied + 1)
            pure (item :: items,done)
    else pure ([],true)

def meshcopTxtApplyLocked (a : Answers) (service : List UInt8) (stack : Nat → Vector UInt8 16) : Stored (List Item) :=
  if !a.active then pure []
  else if !a.published then pure []
  else
    match a.txt with
    | none => pure []
    | some txt => do
      let (items,done) ← applyFrom a service txt.data stack (txt.data.length + 1) 0 0
      pure (if done then items ++ [modelItem service] else items)

/- The data as entries with a length in front of each, and a rest that is nothing or an entry
without its end. -/
def wire (entries : List (List UInt8)) : List UInt8 :=
  (entries.map fun entry => UInt8.ofNat entry.length :: entry).flatten

def Cut : List UInt8 → Prop
  | [] => True
  | n :: rest => rest.length < n.toNat

structure Splits (data : List UInt8) (entries : List (List UInt8)) (rest : List UInt8) : Prop where
  whole : data = wire entries ++ rest
  short : ∀ entry ∈ entries, entry.length < 256
  cut : Cut rest

/- The key and the value of an entry whose first `=` is at one of the places 1 to 15. -/
def keyValue (entry : List UInt8) : Option (List UInt8 × List UInt8) :=
  let place := entry.findIdx (· == equals)
  if 1 ≤ place ∧ place ≤ 15 ∧ place < entry.length then some (entry.take place,entry.drop (place + 1)) else none

def itemsOf (service : List UInt8) (entries : List (List UInt8)) : List Item :=
  (entries.filterMap keyValue).map fun (key,value) => ⟨service,stringIn key,value⟩

def exactItems (service : List UInt8) (entries : List (List UInt8)) : List Item :=
  (entries.filterMap keyValue).map fun (key,value) => ⟨service,key,value⟩

def attempts (set : Nat → EspErr) : (n : Nat) → List Item → List Item × Bool
  | _, [] => ([],true)
  | n, item :: items =>
    if set n ≠ espOk then ([item],false)
    else
      let (more,done) := attempts set (n + 1) items
      (item :: more,done)

variable {service data rest entry name value buf : List UInt8} {entries : List (List UInt8)} {i : Nat}

theorem memchrFinds (place : data.drop i = entry ++ rest) (b : UInt8) : memchr data b entry.length i =
    .ok (if entry.findIdx (· == b) < entry.length then some (i + entry.findIdx (· == b)) else none) := by
  induction entry generalizing i with
  | nil => rfl
  | cons c entry ih =>
    rw [List.length_cons, memchr, byteAtDrop place, CBytes.okBind]
    by_cases same : c = b
    · rw [if_pos same, List.findIdx_cons, beq_iff_eq.mpr same]
      rfl
    · rw [if_neg same, ih (dropNext place), List.findIdx_cons, beq_eq_false_iff_ne.mpr same]
      simp only [cond_false, Nat.add_lt_add_iff_right]
      split
      · congr 2
        omega
      · rfl

theorem stringInText (front : name ++ [0] <+: buf) : stringIn buf = stringIn name := by
  obtain ⟨behind,rfl⟩ := front
  rw [List.append_assoc]
  unfold stringIn
  induction name with
  | nil => rfl
  | cons c name ih =>
    rw [List.cons_append, List.takeWhile_cons, List.takeWhile_cons, ih]

theorem keyStored (key : Vector UInt8 16) (room : name.length < 16) : ∃ copied ended,
    putAll ⟨key.toList,0⟩ name = .ok copied ∧ store copied.buf name.length 0 = .ok ended ∧
      stringIn ended = stringIn name := by
  have start := filledStart key.toList
  rw [Vector.length_toList] at start
  obtain ⟨copied,done,filled⟩ := putAllFilled start name (by rw [List.length_nil]; omega)
  rw [List.nil_append] at filled
  obtain ⟨ended,last,_,front⟩ := storeFilled filled 0 room
  rw [filled.place] at last
  exact ⟨copied,ended,done,last,stringInText front⟩

theorem lessOk {a b : Nat} (room : b ≤ a) : less a b = .ok (a - b) := if_pos room

theorem entryParts (place : data.drop i = entry ++ rest) (inside : i ≤ data.length) {p : Nat} (found : p < entry.length) :
    bytesAt data i p = .ok (entry.take p) ∧ bytesAt data (i + p + 1) (entry.length - p - 1) = .ok (entry.drop (p + 1)) := by
  have long := congrArg List.length place
  rw [List.length_drop, List.length_append] at long
  have behind : data.drop (i + p + 1) = entry.drop (p + 1) ++ rest := by
    rw [Nat.add_assoc, ← List.drop_drop, place, List.drop_append_of_le_length (by omega)]
  have size : (entry.drop (p + 1)).length = entry.length - p - 1 := by
    rw [List.length_drop]
    omega
  constructor
  · rw [bytesAtDrop (by rw [List.length_drop]; omega) inside, place, List.take_append_of_le_length (by omega)]
  · rw [bytesAtDrop (by rw [List.length_drop]; omega) (by omega), behind, ← size, List.take_left]

theorem entryCut (place : data.drop i = entry ++ rest) (inside : i ≤ data.length) (short : entry.length < 256)
    (key : Vector UInt8 16) : entryItem service data key i entry.length =
    .ok ((keyValue entry).map fun (key,value) => ⟨service,stringIn key,value⟩) := by
  unfold entryItem keyValue
  rw [memchrFinds place equals]
  generalize entry.findIdx (· == equals) = p
  by_cases found : p < entry.length
  swap
  · rw [if_neg found, readingOk, okBind, if_neg (fun here => found here.2.2)]
    rfl
  rw [if_pos found, readingOk, okBind]
  dsimp only
  by_cases front : i + p = i
  · rw [if_pos front, if_neg (by omega)]
    rfl
  rw [if_neg front, lessOk (by omega), Nat.add_sub_cancel_left, readingOk, okBind]
  by_cases wide : 16 ≤ p
  · rw [if_pos wide, if_neg (by omega)]
    rfl
  obtain ⟨before,behind⟩ := entryParts place inside found
  have size : (entry.take p).length = p := by
    rw [List.length_take]
    omega
  obtain ⟨copied,ended,stores,ends,text⟩ := @keyStored (entry.take p) key (by omega)
  rw [size] at ends
  rw [if_neg wide, before, readingOk, okBind, stores, okBind, ends, okBind, lessOk (by omega), readingOk, okBind,
    lessOk (by omega), readingOk, okBind, Nat.mod_eq_of_lt (by omega), behind, readingOk, okBind, text, if_pos (by omega)]
  rfl

theorem splitsExist (data : List UInt8) : ∃ entries rest, Splits data entries rest := by
  induction size : data.length using Nat.strongRecOn generalizing data with
  | ind size ih =>
    cases data with
    | nil => exact ⟨[],[],rfl,fun _ mem => absurd mem List.not_mem_nil,trivial⟩
    | cons n behind =>
      rw [List.length_cons] at size
      by_cases cut : behind.length < n.toNat
      · exact ⟨[],n :: behind,rfl,fun _ mem => absurd mem List.not_mem_nil,cut⟩
      · have long : (behind.take n.toNat).length = n.toNat := by
          rw [List.length_take]
          omega
        have small := n.toNat_lt
        obtain ⟨entries,rest,whole,short,cut⟩ := ih (behind.drop n.toNat).length (by rw [List.length_drop]; omega) _ rfl
        refine ⟨behind.take n.toNat :: entries,rest,?_,?_,cut⟩
        · unfold wire at whole ⊢
          rw [List.map_cons, List.flatten_cons, long, UInt8.ofNat_toNat, List.append_assoc, ← whole, List.cons_append,
            List.take_append_drop]
        · exact List.forall_mem_cons.mpr ⟨by omega,short⟩

theorem itemsNext (service entry : List UInt8) (entries : List (List UInt8)) : itemsOf service (entry :: entries) =
    ((keyValue entry).map fun (key,value) => (⟨service,stringIn key,value⟩ : Item)).toList ++ itemsOf service entries := by
  unfold itemsOf
  rw [List.filterMap_cons]
  cases keyValue entry <;> rfl

/- The loop from the place of an entry on. The induction is on the entries that are left. -/
theorem applyRuns (a : Answers) (stack : Nat → Vector UInt8 16) {pos fuel n : Nat} (fits : data.length ≤ 256)
    (inside : pos ≤ data.length) (splits : Splits (data.drop pos) entries rest) (enough : entries.length < fuel) :
    applyFrom a service data stack fuel pos n = .ok (attempts a.set n (itemsOf service entries)) := by
  obtain ⟨place,short,cut⟩ := splits
  induction entries generalizing pos fuel n with
  | nil =>
    rw [show wire [] = [] from rfl, List.nil_append] at place
    cases fuel with
    | zero => omega
    | succ fuel =>
      unfold applyFrom
      cases rest with
      | nil =>
        have none := congrArg List.length place
        rw [List.length_drop, List.length_nil] at none
        rw [if_neg (by omega)]
        rfl
      | cons b behind =>
        have long := congrArg List.length place
        rw [List.length_drop, List.length_cons] at long
        have less : behind.length < b.toNat := cut
        have small := b.toNat_lt
        rw [if_pos (by omega), byteAtDrop place, readingOk, okBind, Nat.mod_eq_of_lt (by omega), if_pos (by omega)]
        rfl
  | cons entry entries ih =>
    obtain ⟨small,short⟩ := List.forall_mem_cons.mp short
    rw [List.length_cons] at enough
    have split : data.drop pos = UInt8.ofNat entry.length :: (entry ++ (wire entries ++ rest)) := by
      rw [place, ← List.append_assoc]
      rfl
    have long := congrArg List.length split
    rw [List.length_drop, List.length_cons, List.length_append] at long
    have size : (UInt8.ofNat entry.length).toNat = entry.length := UInt8.toNat_ofNat_of_lt' small
    have next := dropMore (dropNext split)
    rw [Nat.add_assoc] at next
    cases fuel with
    | zero => omega
    | succ fuel =>
      unfold applyFrom
      rw [if_pos (by omega), byteAtDrop split, readingOk, okBind, size, Nat.mod_eq_of_lt (by omega)]
      dsimp only
      rw [if_neg (by omega), entryCut (dropNext split) (by omega) small, okBind, itemsNext]
      cases keyValue entry with
      | none => exact ih (by omega) (by omega) next short
      | some item =>
        dsimp only [Option.map_some, Option.toList_some, List.singleton_append]
        unfold attempts
        split
        · rfl
        · rw [ih (by omega) (by omega) next short, okBind]
          rfl

theorem attemptsAll {set : Nat → EspErr} (succeed : ∀ n, set n = espOk) (n : Nat) (items : List Item) :
    attempts set n items = (items,true) := by
  induction items generalizing n with
  | nil => rfl
  | cons item items ih =>
    unfold attempts
    rw [if_neg (not_not_intro (succeed n)), ih]

theorem wireLong (entries : List (List UInt8)) : entries.length ≤ (wire entries).length := by
  induction entries with
  | nil => exact Nat.le_refl _
  | cons entry entries ih =>
    unfold wire at ih ⊢
    rw [List.map_cons, List.flatten_cons, List.length_append, List.length_cons, List.length_cons]
    omega

theorem itemsExact (plain : ∀ entry ∈ entries, ∀ kv, keyValue entry = some kv → 0 ∉ kv.1) :
    itemsOf service entries = exactItems service entries := by
  refine List.map_congr_left fun kv mem => ?_
  obtain ⟨entry,listed,cut⟩ := List.mem_filterMap.mp mem
  have ended : kv.1 ++ [0] <+: kv.1 ++ [0] := List.prefix_refl _
  have whole : stringIn kv.1 = kv.1 := (stringInText ended).symm.trans (stringInFront (plain entry listed kv cut) ended)
  show (⟨service,stringIn kv.1,kv.2⟩ : Item) = _
  rw [whole]

/- What can be published is tried to the end or to the first failure, and the model name comes
last where none failed. -/
theorem itemsTried {a : Answers} {txt : TxtData} (answers : a.active = true ∧ a.published = true ∧ a.txt = some txt)
    (splits : Splits txt.data entries rest) (service : List UInt8) (stack : Nat → Vector UInt8 16) :
    meshcopTxtApplyLocked a service stack =
      .ok (let tried := attempts a.set 0 (itemsOf service entries)
        if tried.2 then tried.1 ++ [modelItem service] else tried.1) := by
  obtain ⟨active,published,given⟩ := answers
  have few : entries.length < txt.data.length + 1 := by
    have long := wireLong entries
    have whole := congrArg List.length splits.whole
    rw [List.length_append] at whole
    omega
  unfold meshcopTxtApplyLocked
  rw [active, published, given]
  dsimp only
  rw [applyRuns a stack txt.fits (Nat.zero_le _) splits few]
  rfl

theorem txtApplied (a : Answers) (txt : TxtData) (service : List UInt8) (stack : Nat → Vector UInt8 16)
    (answers : a.active = true ∧ a.published = true ∧ a.txt = some txt) (succeed : ∀ n, a.set n = espOk) :
    (∃ entries rest, Splits txt.data entries rest) ∧ ∀ entries rest, Splits txt.data entries rest →
      meshcopTxtApplyLocked a service stack = .ok (itemsOf service entries ++ [modelItem service]) ∧
      ((∀ entry ∈ entries, ∀ kv, keyValue entry = some kv → 0 ∉ kv.1) → itemsOf service entries = exactItems service entries) := by
  refine ⟨splitsExist txt.data,fun entries rest splits => ⟨?_,itemsExact⟩⟩
  rw [itemsTried answers splits, attemptsAll succeed]
  rfl

/- `sb=`, with the byte 0x3d in it, and an entry that is cut. -/
def sample : TxtData := ⟨[5,0x73,0x62,0x3d,0x3d,0,2,0x61],by decide⟩

def published (txt : TxtData) : Answers := ⟨true,true,some txt,fun _ => espOk⟩

theorem txtAppliedSample : meshcopTxtApplyLocked (published sample) [0x73] (fun _ => Vector.replicate 16 0) =
    .ok [⟨[0x73],[0x73,0x62],[0x3d,0]⟩,modelItem [0x73]] :=
  ((txtApplied (published sample) sample [0x73] _ ⟨rfl,rfl,rfl⟩ (fun _ => rfl)).2 [[0x73,0x62,0x3d,0x3d,0]] [2,0x61]
    ⟨rfl,by decide,show 1 < 2 by decide⟩).1

/- A key with a NUL in it reaches the responder without what stands behind the NUL. -/
def nulKey : TxtData := ⟨[5,0x61,0,0x62,0x3d,0x76],by decide⟩

theorem nulCutsKey : ¬ ∀ (a : Answers) (txt : TxtData) (service : List UInt8) (stack : Nat → Vector UInt8 16),
    a.active = true ∧ a.published = true ∧ a.txt = some txt → (∀ n, a.set n = espOk) →
    ∀ entries rest, Splits txt.data entries rest →
      meshcopTxtApplyLocked a service stack = .ok (exactItems service entries ++ [modelItem service]) := by
  intro exact
  have splits : Splits nulKey.data [[0x61,0,0x62,0x3d,0x76]] [] := ⟨rfl,by decide,trivial⟩
  have claimed := exact (published nulKey) nulKey [0x73] (fun _ => Vector.replicate 16 0) ⟨rfl,rfl,rfl⟩ (fun _ => rfl)
    _ _ splits
  rw [itemsTried ⟨rfl,rfl,rfl⟩ splits] at claimed
  have same := List.append_cancel_right (Except.ok.inj claimed)
  revert same
  decide

end EpskcCommissioner.MeshcopTxt
