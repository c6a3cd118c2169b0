import EpskcCommissioner.MeshcopFetch
import EpskcCommissioner.MeshcopTlvs
import EpskcCommissioner.NetworkCard
import EpskcCommissioner.RestNode
import EpskcCommissioner.ScreenSleep
import EpskcCommissioner.ThreadJoin

/-! The worker's two ways to a network: JOB_JOIN fetches the dataset of a router and joins with
it, and JOB_FORM makes one of its own and joins with that. What the stack then has, what the
card of `ui.c` shows of it and what the pages say belong together. -/
namespace EpskcCommissioner.JoinJob
open WifiDriver CBytes WriteThrough NetworkCard
open MeshcopCodec (bigEndian coapPayload)
open MeshcopFetch (Args Session Read Fetches meshcopFetchDataset fetchInv fetched hexDigits)
open MeshcopTlvs (meshcopSummarize meshcopPrintTlvs printTlv printCut summaryOf lastOf tlvChannel tlvPanid tlvNetworkName)
open RestNode (Role roleName)
open ScreenSleep (colOk colError colAccent)
open ThreadJoin (Thread Calls Dataset Components Mended threadJoin joinReady)
open Utf8 (encode)

inductive Said where
  | result (colour : Nat) (title : String) (body : List UInt8)
  | status (colour : Nat) (text : String)
  deriving DecidableEq, Repr

/- `"%s"` into 17 bytes. -/
def nameOf (bytes : List UInt8) : Name :=
  ⟨(bytes.takeWhile (· != 0)).take 16,Nat.lt_succ_of_le (List.length_take_le 16 _)⟩

/- What `meshcop_summarize` gives, as the card keeps it. -/
def remembered (s : MeshcopTlvs.Summary) : Summary := ⟨nameOf s.name,s.channel,UInt16.ofNat s.panid⟩

def networkText (d : Summary) : List UInt8 :=
  (if d.name.1 = [] then encode "(unnamed)".toList else d.name.1) ++
    encode ("\nchannel " ++ toString d.channel ++ "   pan 0x" ++ hexDigits d.panid.toNat).toList

/- `body` has 192 bytes. -/
def setJoinStage (colour : Nat) (title : String) (d : Summary) (detail : String) : Said :=
  .result colour title ((networkText d ++ encode ("\n\n" ++ detail).toList).take 191)

/- `finish_join` without a dataset, whose `body` has 176 bytes. -/
def finishJoin (lastError : String) : Said :=
  let why := if lastError = "" then "Unknown error - see Diagnostics." else lastError
  .result colError "Authentication failed" ((encode (why ++ "\n\nThe code may be used or expired.").toList).take 175)

/- The card's part of `refresh_network_label`, from the card as it finds it: `active` is what the
stack reads in a dataset that it has. -/
def refreshNetworkLabel (active : Dataset → ActiveDataset) (t : Thread) (c : Content Key Value) :
    List (Op Key Value) :=
  let info := threadNetworkInfo t.ready (t.stored.map active)
  syncNetworkFromStack t.ready (t.stored.map active) c.marked (info.any fun d => decide (¬Holds c d))

/- What a job leaves: the stack, what it put on the screen one after the other, what it printed
of a dataset, its store of the card, and its refresh under the display's lock behind that. -/
structure Run where
  thread : Thread
  said : List Said
  printed : List UInt8
  card : List (Op Key Value)
  refresh : Content Key Value → List (Op Key Value)

/- The arguments of the worker's call, with its `dataset[512]`. -/
def target (ip : String) (port : UInt16) (code : String) : Args := ⟨some ip,port,some code,512⟩

def refusedPage (d : Summary) : Said :=
  setJoinStage colError "Could not apply dataset" d "OpenThread rejected the new dataset."

/- `attached` and `role` are what the stack says behind the wait for it. -/
def joinedPage (attached : Bool) (role : Role) (d : Summary) : Said :=
  if attached then
    setJoinStage colOk "Thread network joined" d ("Attached as " ++ String.ofList (roleName role) ++ ".")
  else setJoinStage colAccent "Credentials saved" d "Still attaching. Check Network or Diagnostics."

/- JOB_JOIN with a dataset in hand. Nobody else changes the dataset of the stack before its
refresh. -/
def applyDataset (active : Dataset → ActiveDataset) (o : Calls) (attached : Bool) (role : Role) (t : Thread)
    (dataset : List UInt8) (d : Summary) (printed : List UInt8) : Run :=
  let received := setJoinStage colAccent "Credentials received" d "Applying the dataset..."
  let joined := threadJoin o dataset t
  let refresh := refreshNetworkLabel active joined.1
  if joined.2 = espOk then
    let applied := setJoinStage colAccent "Dataset applied" d "Attaching to the Thread mesh..."
    ⟨joined.1,[received,applied,joinedPage attached role d],printed,adopt d,refresh⟩
  else ⟨joined.1,[received,refusedPage d],printed,[],refresh⟩

/- JOB_JOIN. `t` is the stack when the job comes to it. A job that has no dataset does not
refresh. -/
def joinJob (active : Dataset → ActiveDataset) (a : Args) (s : Session) (msgid : UInt16) (o : Calls)
    (attached : Bool) (role : Role) (t : Thread) : Checked Run :=
  let f := meshcopFetchDataset a s msgid
  if f.err ≠ espOk then pure ⟨t,[finishJoin f.lastError],[],[],fun _ => []⟩
  else do
    let summary ← meshcopSummarize f.dataset 17
    let printed ← meshcopPrintTlvs f.dataset false
    pure (applyDataset active o attached role t f.dataset (remembered summary) printed)

/- `otOperationalDataset`, with the fields that `thread_form_network` does not touch as `rest`. -/
structure NewNetwork (Rest : Type) where
  extendedPanId : Vector UInt8 8
  networkName : Name
  channel : UInt16
  panId : UInt16
  rest : Rest

def formedName (extendedPanId : Vector UInt8 8) : Name :=
  nameOf (encode "CoreS3-".toList ++ (Hex.encode [extendedPanId[6],extendedPanId[7]]).map Hex.upper)

/- `created` and `convert` are `otDatasetCreateNewNetwork` and `otDatasetConvertToTlvs`. -/
def threadFormNetwork {Rest : Type} (created : Option (NewNetwork Rest)) (convert : NewNetwork Rest → List UInt8)
    (channel : UInt8) (o : Calls) (t : Thread) : Thread × EspErr × Option Summary :=
  if !t.ready then (t,espFail,none)
  else
    match created with
    | none => (t,espFail,none)
    | some ds =>
      let named := {ds with networkName := formedName ds.extendedPanId}
      let ds := if 11 ≤ channel ∧ channel ≤ 26 then {named with channel := channel.toUInt16} else named
      let joined := threadJoin o (convert ds) t
      (joined.1,joined.2,some ⟨ds.networkName,ds.channel.toNat,ds.panId⟩)

/- What OpenThread reads in a dataset that it accepts: no type twice, and the name, the channel
behind its page and the PAN ID, each of its length. -/
structure Reads (active : ActiveDataset) (ds : Dataset) : Prop where
  once : ((tlvs.split ds.tlvs).1.map Tlv.type).Nodup
  name : ∃ t ∈ (tlvs.split ds.tlvs).1, t.type = tlvNetworkName ∧ t.value.length ≤ 16 ∧
    active.networkName = some (nameOf t.value)
  channel : ∃ t ∈ (tlvs.split ds.tlvs).1, t.type = tlvChannel ∧ t.value.length = 3 ∧
    active.channel = some (UInt16.ofNat (bigEndian (t.value.getD 1 0) (t.value.getD 2 0)))
  panId : ∃ t ∈ (tlvs.split ds.tlvs).1, t.type = tlvPanid ∧ t.value.length = 2 ∧
    active.panId = some (UInt16.ofNat (bigEndian (t.value.getD 0 0) (t.value.getD 1 0)))

def cardOf (p : List UInt8) : Summary := remembered (summaryOf 17 (tlvs.split p).1)

theorem onlyLast {ts : List Tlv} {t : Tlv} {least : Nat} (once : (ts.map Tlv.type).Nodup) (mem : t ∈ ts)
    (long : least ≤ t.value.length) : lastOf t.type least ts = some t := by
  have last : ∀ u ∈ lastOf t.type least ts, u = t := by
    intro u found
    obtain ⟨there,same⟩ := List.mem_filter.mp (List.mem_of_getLast? found)
    exact List.inj_on_of_nodup_map once there mem (of_decide_eq_true same).1
  cases found : lastOf t.type least ts with
  | some u => rw [last u found]
  | none =>
    have empty : ts.filter (fun u => u.type = t.type ∧ least ≤ u.value.length) = [] :=
      List.getLast?_eq_none_iff.mp found
    exact absurd (decide_eq_true ⟨rfl,long⟩) (List.filter_eq_nil_iff.mp empty t mem)

theorem bigEndianSmall (hi lo : UInt8) : bigEndian hi lo < 65536 := by
  have high := hi.toNat_lt
  have low := lo.toNat_lt
  unfold bigEndian
  omega

theorem summaryAgrees {active : ActiveDataset} {ds : Dataset} (reads : Reads active ds) :
    threadNetworkInfo true (some active) = some (cardOf ds.tlvs) := by
  obtain ⟨once,⟨n,named,nameType,short,name⟩,ofChannel,⟨p,panned,panType,two,pan⟩⟩ := reads
  obtain ⟨c,channelled,channelType,three,channel⟩ := ofChannel
  have lastName := onlyLast once named (Nat.zero_le _)
  have lastChannel := onlyLast once channelled (Nat.le_of_eq three.symm)
  have lastPan := onlyLast once panned (Nat.le_of_eq two.symm)
  rw [nameType] at lastName
  rw [channelType] at lastChannel
  rw [panType] at lastPan
  have small := bigEndianSmall (c.value.getD 1 0) (c.value.getD 2 0)
  simp only [threadNetworkInfo,if_true,Option.map_some,name,channel,pan,Option.getD_some,cardOf,remembered,
    summaryOf,lastName,lastChannel,lastPan,List.take_of_length_le short]
  rw [UInt16.toNat_ofNat_of_lt' small]

section Join
variable {active : Dataset → ActiveDataset} {a : Args} {s : Session} {msgid : UInt16} {o : Calls} {attached : Bool}
  {role : Role} {t : Thread} {c : Content Key Value} {d : Summary}

/- A stack without a dataset, or without a name, has the card erased, and one with the network of
the card leaves it. -/
theorem refreshGone (ready : t.ready = true) (none : t.stored = none) (shown : c.marked = true) :
    refreshNetworkLabel active t c = networkEraseNvs := by
  simp [refreshNetworkLabel,syncNetworkFromStack,threadNetworkInfo,ready,none,shown]

theorem refreshUnnamed (ready : t.ready = true) (info : threadNetworkInfo t.ready (t.stored.map active) = some d)
    (unnamed : d.name.1 = []) (shown : c.marked = true) : refreshNetworkLabel active t c = networkEraseNvs := by
  rw [ready] at info
  simp [refreshNetworkLabel,syncNetworkFromStack,ready,info,unnamed,shown]

theorem refreshSame (info : threadNetworkInfo t.ready (t.stored.map active) = some d) (named : d.name.1 ≠ [])
    (holds : Holds c d) : refreshNetworkLabel active t c = [] := by
  simp [refreshNetworkLabel,syncNetworkFromStack,info,named,holds]

theorem joinFetched (ok : (meshcopFetchDataset a s msgid).err = espOk) : ∃ printed,
    joinJob active a s msgid o attached role t = .ok (applyDataset active o attached role t
      (meshcopFetchDataset a s msgid).dataset (cardOf (meshcopFetchDataset a s msgid).dataset) printed) := by
  unfold joinJob
  dsimp only
  rw [if_neg (not_not.mpr ok), MeshcopTlvs.summarizeSplit, okBind, MeshcopTlvs.printSplit, okBind,
    MeshcopTlvs.foldSummary (by decide)]
  exact ⟨_,rfl⟩

/- The job ends without a dataset: it says why, and leaves everything else alone. -/
structure Unfetched (lastError : String) (t : Thread) (r : Run) : Prop where
  said : r.said = [finishJoin lastError]
  thread : r.thread = t
  card : r.card = []
  refresh : ∀ c, r.refresh c = []

/- The stack does not take the dataset. The job stores no card; its refresh makes of the card
what it would have made of it before the job, if what was stored could be put back, and erases
a card that is shown, if the stack is left without a dataset. -/
structure Refused (active : Dataset → ActiveDataset) (o : Calls) (t : Thread) (dataset : List UInt8) (r : Run) :
    Prop where
  said : r.said.getLast? = some (refusedPage (cardOf dataset))
  card : r.card = []
  same : Mended o t → r.thread.stored = t.stored ∧ ∀ c, r.refresh c = refreshNetworkLabel active t c
  gone : t.ready = true → r.thread.stored = none → ∀ c, c.marked = true → r.refresh c = networkEraseNvs

/- The stack has the dataset `ds`, and the card is given the network that the stack reads in it.
The refresh leaves a card with that network alone, and erases it only if it has no name. -/
structure Joined (active : Dataset → ActiveDataset) (attached : Bool) (role : Role) (ds : Dataset) (r : Run) : Prop where
  thread : r.thread.stored = some ds
  said : r.said.getLast? = some (joinedPage attached role (cardOf ds.tlvs))
  card : r.card = adopt (cardOf ds.tlvs)
  info : Reads (active ds) ds → threadNetworkInfo true (some (active ds)) = some (cardOf ds.tlvs)
  same : Reads (active ds) ds → (cardOf ds.tlvs).name.1 ≠ [] → ∀ c, Holds c (cardOf ds.tlvs) → r.refresh c = []
  unnamed : Reads (active ds) ds → (cardOf ds.tlvs).name.1 = [] → ∀ c, c.marked = true → r.refresh c = networkEraseNvs

theorem applyRefused {dataset printed : List UInt8} (refused : (threadJoin o dataset t).2 ≠ espOk) :
    Refused active o t dataset (applyDataset active o attached role t dataset (cardOf dataset) printed) := by
  unfold applyDataset
  dsimp only
  rw [if_neg refused]
  refine ⟨rfl,rfl,fun mended => ?_,fun ready none c shown => ?_⟩
  · have same := ThreadJoin.failedJoinSame refused mended
    refine ⟨same,fun c => ?_⟩
    unfold refreshNetworkLabel
    rw [same, joinReady]
  · exact refreshGone ((joinReady o dataset t).trans ready) none shown

theorem applyJoined {dataset printed : List UInt8} {ds : Dataset} (done : (threadJoin o dataset t).2 = espOk)
    (stored : (threadJoin o dataset t).1.stored = some ds) :
    Joined active attached role ds (applyDataset active o attached role t dataset (cardOf ds.tlvs) printed) := by
  have ready : (threadJoin o dataset t).1.ready = true := by
    rw [joinReady]
    cases up : t.ready with
    | true => rfl
    | false =>
      have failed : (threadJoin o dataset t).2 = espFail := by simp [threadJoin,up]
      exact absurd (failed.symm.trans done) ThreadJoin.failNotOk
  have info (reads : Reads (active ds) ds) : threadNetworkInfo (threadJoin o dataset t).1.ready
      ((threadJoin o dataset t).1.stored.map active) = some (cardOf ds.tlvs) := by
    rw [ready, stored]
    exact summaryAgrees reads
  unfold applyDataset
  dsimp only
  rw [if_pos done]
  exact ⟨stored,rfl,rfl,summaryAgrees,fun reads named c holds => refreshSame (info reads) named holds,
    fun reads unnamed c shown => refreshUnnamed ready (info reads) unnamed shown⟩

variable (active a s msgid o attached role t)

/- JOB_JOIN comes to its end without a read out of place, and ends in one of three ways: without a
dataset; with one that the stack does not take; or the stack stores the payload of a response
that the router gave behind an accepted petition, byte for byte. -/
theorem joinStoresReply : ∃ r, joinJob active a s msgid o attached role t = .ok r ∧
    (Unfetched (meshcopFetchDataset a s msgid).lastError t r ∨
    Refused active o t (meshcopFetchDataset a s msgid).dataset r ∨
    ∃ acks petitionRead queue before read rest ds,
      Fetches a s acks petitionRead queue before read rest ∧ coapPayload read.bytes = some ds.tlvs ∧
      Joined active attached role ds r) := by
  by_cases ok : (meshcopFetchDataset a s msgid).err = espOk
  · obtain ⟨printed,ran⟩ := @joinFetched active a s msgid o attached role t ok
    obtain ⟨acks,petitionRead,queue,before,read,rest,fetches⟩ := fetchInv ok
    obtain ⟨payload,reply,result⟩ := fetched msgid fetches
    have dataset : (meshcopFetchDataset a s msgid).dataset = payload := by rw [result]
    rw [dataset] at ran ⊢
    refine ⟨_,ran,.inr ?_⟩
    by_cases done : (threadJoin o payload t).2 = espOk
    · obtain ⟨ds,rfl,stored⟩ := ThreadJoin.joinStores done
      exact .inr ⟨acks,petitionRead,queue,before,read,rest,ds,fetches,reply,applyJoined done stored⟩
    · exact .inl (applyRefused done)
  · exact ⟨_,if_pos ok,.inl ⟨rfl,rfl,rfl,fun _ => rfl⟩⟩

end Join

/- The stack has a dataset, the card is given what the stack reads in it, and the job refreshes. -/
def Agrees (active : Dataset → ActiveDataset) (r : Run) : Prop :=
  ∃ ds d, r.thread.stored = some ds ∧ r.card = adopt d ∧ threadNetworkInfo true (some (active ds)) = some d ∧
    (d.name.1 ≠ [] → ∀ c, Holds c d → r.refresh c = [])

variable {active : Dataset → ActiveDataset} {r : Run}

/- What may happen beside the store of a network: that store, refreshes, and the work on them. -/
def Beside (d : Summary) : Label → Prop
  | .refresh _ => True
  | .joined e => e = d
  | .work _ ok => ok = true
  | .boot _ _ | .stack _ _ | .forget | .cut _ => False

/- The stack has the network, and nobody does anything but store it. -/
structure Settling (d : Summary) (s : Device) : Prop where
  info : threadNetworkInfo s.live s.active = some d
  tasks : ∀ who, ∀ op ∈ s.tasks who, op ∈ adopt d

structure Settled (d : Summary) (s : Device) : Prop extends Settling d s where
  values : ∀ k, s.content.ram k = d.value k ∨ .assign k (d.value k) ∈ s.tasks .worker
  shown : s.content.marked = true ∨ .mark true ∈ s.tasks .worker

variable {d : Summary} {s t : Device} {l : Label}

/- A complete dataset of the network "CoreS3" on channel 15, with PAN ID 0x1234. -/
def sample : Dataset where
  tlvs := [14,8,0,0,0,0,0,1,0,0,0,3,0,0,15,53,6,0,4,7,0xff,0xf8,0,2,8,0x11,0x11,0x11,0x11,0x22,0x22,0x22,0x22,
    7,8,0xfd,0,0,0,0,0,0,1,5,16,0,1,2,3,4,5,6,7,8,9,10,11,12,13,14,15,3,6,0x43,0x6f,0x72,0x65,0x53,0x33,
    1,2,0x12,0x34,4,16,16,17,18,19,20,21,22,23,24,25,26,27,28,29,30,31,12,4,2,0xa0,0xf7,0xf8]
  some := by decide
  fits := by decide

end EpskcCommissioner.JoinJob
