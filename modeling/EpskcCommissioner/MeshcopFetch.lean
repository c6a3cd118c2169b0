import EpskcCommissioner.MeshcopCodec
import EpskcCommissioner.WifiDriver

/-! `meshcop_fetch_dataset`: a petition and a MGMT_ACTIVE_GET over one DTLS session, and
which of the messages that come back is taken for which reply. What the session gives to
one read is a datagram, or the next 1024 bytes of a longer one, or an error. -/
namespace EpskcCommissioner.MeshcopFetch
open WifiDriver MeshcopCodec

/- A datagram of the session, or an error of the read, minus its code. -/
inductive Delivery where
  | datagram (bytes : List UInt8)
  | error (code : Nat)
  deriving DecidableEq, Repr

structure Read where
  datagram : List UInt8
  bytes : List UInt8
  deriving DecidableEq, Repr

/- `sizeof(in)` -/
def inSize : Nat := 1024

/- The reads that a datagram takes; an empty one takes none. -/
def chunks : (fuel : Nat) → List UInt8 → List (List UInt8)
  | _, [] | 0, _ => []
  | fuel + 1, b :: rest => (b :: rest).take inSize :: chunks fuel ((b :: rest).drop inSize)

def readsOf : Delivery → List (Nat ⊕ Read)
  | .datagram bytes => (chunks bytes.length bytes).map (fun part => .inr ⟨bytes,part⟩)
  | .error code => [.inl code]

def incoming (deliveries : List Delivery) : List (Nat ⊕ Read) := deliveries.flatMap readsOf

/- The result of `mbedtls_ssl_read`, positive with the bytes; no more to come is 0. -/
def sslRead : List (Nat ⊕ Read) → (Nat ⊕ Read) × List (Nat ⊕ Read)
  | [] => (.inl 0,[])
  | next :: queue => (next,queue)

/- What `read_real_response` returns, the reads it made and those to come. -/
structure Response where
  result : Nat ⊕ Read
  seen : List Read
  queue : List (Nat ⊕ Read)
  deriving DecidableEq, Repr

def readRealResponse : (attempts : Nat) → List (Nat ⊕ Read) → Response
  | 0, queue => ⟨.inl 1,[],queue⟩
  | attempts + 1, queue =>
    match sslRead queue with
    | (.inl code,queue) => ⟨.inl code,[],queue⟩
    | (.inr read,queue) =>
      if !isEmptyAck read.bytes then ⟨.inr read,[read],queue⟩
      else
        let response := readRealResponse attempts queue
        {response with seen := read :: response.seen}

def coapPost (mid : UInt16) (uri payload : List UInt8) : List UInt8 :=
  let head : List UInt8 :=
    [0x40,0x02,(mid >>> 8).toUInt8,mid.toUInt8,0xb1,0x63,UInt8.ofNat uri.length]
  head ++ uri ++ (if payload = [] then [] else 0xff :: payload)

def uriPetition : List UInt8 := [0x63,0x70]
def uriActiveGet : List UInt8 := [0x61,0x67]

/- `TLV_COMMISSIONER_ID` with "esp32-epskc". -/
def petitionPayload : List UInt8 :=
  [10,11,0x65,0x73,0x70,0x33,0x32,0x2d,0x65,0x70,0x73,0x6b,0x63]

def petition (mid : UInt16) : List UInt8 := coapPost mid uriPetition petitionPayload
def activeGet (mid : UInt16) : List UInt8 := coapPost mid uriActiveGet []

/- How `mbedtls_ssl_handshake` ends when it fails. -/
inductive HandshakeError where
  | netSendFailed | netRecvFailed | netConnReset | timeout | handshakeFailure | fatalAlertMessage
  | other
  deriving DecidableEq, Repr

def HandshakeError.why : HandshakeError → String
  | .netSendFailed | .netRecvFailed | .netConnReset => "router unreachable or out of buffers"
  | .timeout => "timed out, router not responding"
  | .handshakeFailure | .fatalAlertMessage => "wrong passcode or key already used"
  | .other => "unexpected"

structure Args where
  addr : Option String
  port : UInt16
  passcode : Option String
  datasetCap : Nat
  deriving DecidableEq, Repr

/- The outcomes of the calls around the two exchanges: an error is minus its code, and a
write that fails has written nothing. -/
structure Session where
  seeded : Bool
  connected : Option Nat
  configured : Bool
  setUp : Bool
  passwordSet : Bool
  handshake : Option HandshakeError
  petitionWritten : Option Nat
  getWritten : Option Nat
  deliveries : List Delivery
  deriving DecidableEq, Repr

/- `lastError` is `s_last_error`; `msgid` is `s_msgid`. The messages written and the reads of
both exchanges are kept for what is said about them. -/
structure Fetched where
  err : EspErr
  dataset : List UInt8
  lastError : String
  msgid : UInt16
  written : List (List UInt8)
  petitionReads : List Read
  getReads : List Read
  deriving DecidableEq, Repr

def hexDigits (n : Nat) : String :=
  let digits := Nat.toDigits 16 n
  String.ofList (List.replicate (4 - digits.length) '0' ++ digits)

def setErr (before : String) (code : Nat) : String := before ++ " (-0x" ++ hexDigits code ++ ")"

def failed (lastError : String) (msgid : UInt16) (written : List (List UInt8))
    (petitionReads getReads : List Read) : Fetched :=
  ⟨espFail,[],lastError,msgid,written,petitionReads,getReads⟩

/- `s.addr == NULL || s.addr[0] == '\\0'` and the rest of the first check. -/
def badArgs (a : Args) : Bool :=
  a.addr.getD "" == "" || a.port == 0 || a.passcode.getD "" == "" || a.datasetCap == 0

/- The calls up to the handshake, in order: what the first that fails leaves as error. -/
def setupError (s : Session) : Option String :=
  if !s.seeded then some ""
  else
    match s.connected with
    | some code => some (setErr "Could not reach the router" code)
    | none =>
      if !s.configured || !s.setUp || !s.passwordSet then some ""
      else s.handshake.map (fun e => "Handshake failed: " ++ e.why)

def getDataset (a : Args) (s : Session) (msgid : UInt16) (written : List (List UInt8))
    (petitionReads : List Read) (queue : List (Nat ⊕ Read)) : Fetched :=
  match s.getWritten with
  | some code => failed (setErr "Dataset request failed" code) (msgid + 1) written petitionReads []
  | none =>
    let written := written ++ [activeGet msgid]
    let response := readRealResponse 4 queue
    let failed := fun lastError => failed lastError (msgid + 1) written petitionReads response.seen
    match response.result with
    | .inl code => failed (setErr "No dataset reply" code)
    | .inr read =>
      if !isSuccess read.bytes then failed "Router rejected dataset request"
      else
        match coapPayload read.bytes with
        | none | some [] => failed "Router sent no dataset"
        | some payload =>
          if a.datasetCap < payload.length then failed "Dataset too large"
          else ⟨espOk,payload,"",msgid + 1,written,petitionReads,response.seen⟩

def meshcopFetchDataset (a : Args) (s : Session) (msgid : UInt16) : Fetched :=
  if badArgs a then ⟨espErrInvalidArg,[],"Invalid connection details",msgid,[],[],[]⟩
  else
    match setupError s with
    | some lastError => failed lastError msgid [] [] []
    | none =>
      match s.petitionWritten with
      | some code => failed (setErr "Petition send failed" code) (msgid + 1) [] [] []
      | none =>
        let response := readRealResponse 4 (incoming s.deliveries)
        let written := [petition msgid]
        let failed := fun lastError => failed lastError (msgid + 1) written response.seen []
        match response.result with
        | .inl code => failed (setErr "No reply to petition" code)
        | .inr read =>
          if !isSuccess read.bytes then failed "Router rejected petition"
          else if !petitionWasAccepted read.bytes then failed "Router declined petition"
          else getDataset a s (msgid + 1) written response.seen response.queue

/- `s_msgid` of a request, and the ID that a message carries. -/
def messageId (buf : List UInt8) : List UInt8 := (buf.drop 2).take 2

/- A message that is confirmable or not, as a separate response is. -/
def isSeparate (buf : List UInt8) : Bool := (buf.headD 0 >>> 4) &&& 0x03 < 2

/- A success response to a request: a whole datagram with its ID, or a separate response
after the empty ACK of that ID, and no copy of the response to the petition. -/
structure Answers (request : List UInt8) (petitionRead : Read) (before : List Read) (read : Read) :
    Prop where
  whole : read.bytes = read.datagram
  success : isSuccess read.bytes = true
  answers : messageId read.bytes = messageId request ∨
    isSeparate read.bytes = true ∧
      ∃ ack ∈ before, isEmptyAck ack.bytes = true ∧ messageId ack.bytes = messageId request
  fresh : read.datagram ≠ petitionRead.datagram

/- The petition was accepted by one of the reads made for it, and the dataset is the
payload of a response to the last message written, the MGMT_ACTIVE_GET. -/
def Genuine (f : Fetched) : Prop :=
  ∃ first request, f.written = [first,request] ∧ ∃ petitionRead ∈ f.petitionReads, isSuccess petitionRead.bytes = true ∧
    petitionWasAccepted petitionRead.bytes = true ∧
    ∃ before read after, f.getReads = before ++ read :: after ∧
      Answers request petitionRead before read ∧ coapPayload read.bytes = some f.dataset

/- The arguments are good, the session stands and both requests are sent. -/
structure Stands (a : Args) (s : Session) : Prop where
  args : badArgs a = false
  setup : setupError s = none
  petition : s.petitionWritten = none
  get : s.getWritten = none

/- The reads up to the first that is no empty ACK, and those behind it. -/
def afterAcks : List (Nat ⊕ Read) → Option (List Read × Read × List (Nat ⊕ Read))
  | [] | .inl _ :: _ => none
  | .inr read :: queue =>
    if !isEmptyAck read.bytes then some ([],read,queue)
    else (afterAcks queue).map (fun found => (read :: found.1,found.2))

def isDataset (a : Args) (buf : List UInt8) : Bool :=
  isSuccess buf &&
    match coapPayload buf with
    | none | some [] => false
    | some payload => payload.length ≤ a.datasetCap

/- After an accepted petition, the first message that is no empty ACK answers the
MGMT_ACTIVE_GET, if it comes within four reads and is taken for a dataset. -/
def Prompt (a : Args) (s : Session) (request : List UInt8) : Prop :=
  ∀ acks petitionRead queue, afterAcks (incoming s.deliveries) = some (acks,petitionRead,queue) →
    acks.length < 4 → isSuccess petitionRead.bytes = true →
    petitionWasAccepted petitionRead.bytes = true →
    ∀ before read rest, afterAcks queue = some (before,read,rest) → before.length < 4 →
      isDataset a read.bytes = true → Answers request petitionRead before read

theorem readRealAfter {attempts : Nat} {queue rest : List (Nat ⊕ Read)} {acks : List Read} {read : Read}
    (found : afterAcks queue = some (acks,read,rest)) (soon : acks.length < attempts) :
    readRealResponse attempts queue = ⟨.inr read,acks ++ [read],rest⟩ := by
  induction attempts generalizing queue acks with
  | zero => exact absurd soon (Nat.not_lt_zero _)
  | succ attempts ih =>
    match queue with
    | [] => exact nomatch found
    | .inl _ :: _ => exact nomatch found
    | .inr first :: queue =>
      unfold afterAcks at found
      unfold readRealResponse sslRead
      by_cases other : !isEmptyAck first.bytes
      · rw [if_pos other] at found
        cases Option.some.inj found
        exact if_pos other
      · rw [if_neg other] at found
        obtain ⟨⟨later,last⟩,inside,same⟩ := Option.map_eq_some_iff.mp found
        cases same
        have next := ih inside (Nat.lt_of_succ_lt_succ soon)
        dsimp only
        rw [if_neg other, next]
        rfl

theorem readRealInv {attempts : Nat} {queue : List (Nat ⊕ Read)} {read : Read}
    (got : (readRealResponse attempts queue).result = .inr read) :
    ∃ acks rest, afterAcks queue = some (acks,read,rest) ∧ acks.length < attempts := by
  induction attempts generalizing queue with
  | zero => exact nomatch got
  | succ attempts ih =>
    match queue with
    | [] => exact nomatch got
    | .inl _ :: _ => exact nomatch got
    | .inr first :: queue =>
      unfold readRealResponse sslRead at got
      unfold afterAcks
      dsimp only at got
      by_cases other : !isEmptyAck first.bytes
      · rw [if_pos other] at got ⊢
        cases got
        exact ⟨[],queue,rfl,Nat.succ_pos _⟩
      · rw [if_neg other] at got ⊢
        obtain ⟨acks,rest,found,soon⟩ := ih got
        exact ⟨first :: acks,rest,by rw [found]; rfl,Nat.succ_lt_succ soon⟩

theorem afterAcksOnly {queue rest : List (Nat ⊕ Read)} {acks : List Read} {read : Read}
    (found : afterAcks queue = some (acks,read,rest)) : ∀ ack ∈ acks, isEmptyAck ack.bytes = true := by
  induction queue generalizing acks with
  | nil => exact nomatch found
  | cons first queue ih =>
    cases first with
    | inl code => exact nomatch found
    | inr first =>
      unfold afterAcks at found
      by_cases other : !isEmptyAck first.bytes
      · rw [if_pos other] at found
        cases Option.some.inj found
        exact nofun
      · rw [if_neg other] at found
        obtain ⟨⟨later,last⟩,inside,same⟩ := Option.map_eq_some_iff.mp found
        cases same
        exact List.forall_mem_cons.mpr ⟨by simpa using other,ih inside⟩

structure Fetches (a : Args) (s : Session) (acks : List Read) (petitionRead : Read)
    (queue : List (Nat ⊕ Read)) (before : List Read) (read : Read) (rest : List (Nat ⊕ Read)) :
    Prop where
  stands : Stands a s
  petition : afterAcks (incoming s.deliveries) = some (acks,petitionRead,queue)
  soon : acks.length < 4
  success : isSuccess petitionRead.bytes = true
  accepted : petitionWasAccepted petitionRead.bytes = true
  get : afterAcks queue = some (before,read,rest)
  soonToo : before.length < 4
  dataset : isDataset a read.bytes = true

theorem datasetPayload {a : Args} {buf : List UInt8} (dataset : isDataset a buf = true) :
    isSuccess buf = true ∧ ∃ b rest, coapPayload buf = some (b :: rest) ∧
      (b :: rest).length ≤ a.datasetCap := by
  unfold isDataset at dataset
  obtain ⟨success,fits⟩ := Bool.and_eq_true_iff.mp dataset
  refine ⟨success,?_⟩
  split at fits <;> try contradiction
  rename_i payload some found
  cases payload with
  | nil => exact (some rfl).elim
  | cons b rest => exact ⟨b,rest,found,of_decide_eq_true fits⟩

theorem fetched {a : Args} {s : Session} {acks before : List Read} {petitionRead read : Read}
    {queue rest : List (Nat ⊕ Read)} (msgid : UInt16)
    (fetches : Fetches a s acks petitionRead queue before read rest) :
    ∃ payload, coapPayload read.bytes = some payload ∧
      meshcopFetchDataset a s msgid =
        ⟨espOk,payload,"",msgid + 1 + 1,[petition msgid,activeGet (msgid + 1)],acks ++ [petitionRead],
          before ++ [read]⟩ := by
  obtain ⟨⟨args,setup,sent,sentToo⟩,first,soon,success,accepted,get,soonToo,dataset⟩ := fetches
  obtain ⟨good,b,bytes,payload,fits⟩ := datasetPayload dataset
  refine ⟨b :: bytes,payload,?_⟩
  unfold meshcopFetchDataset
  rw [if_neg (by rw [args]; exact Bool.false_ne_true), setup, sent]
  dsimp only
  rw [readRealAfter first soon]
  dsimp only
  rw [if_neg (by rw [success]; decide), if_neg (by rw [accepted]; decide)]
  unfold getDataset
  rw [sentToo]
  dsimp only
  rw [readRealAfter get soonToo]
  dsimp only
  rw [if_neg (by rw [good]; decide), payload]
  dsimp only
  rw [if_neg (Nat.not_lt.mpr fits)]
  rfl

theorem getInv {a : Args} {s : Session} {msgid : UInt16} {written : List (List UInt8)}
    {reads : List Read} {queue : List (Nat ⊕ Read)}
    (ok : (getDataset a s msgid written reads queue).err = espOk) :
    s.getWritten = none ∧ ∃ before read rest, afterAcks queue = some (before,read,rest) ∧
      before.length < 4 ∧ isDataset a read.bytes = true := by
  have fails : espFail ≠ espOk := by decide
  unfold getDataset at ok
  cases sent : s.getWritten with
  | some code =>
    rw [sent] at ok
    exact absurd ok fails
  | none =>
    rw [sent] at ok
    dsimp only at ok
    cases got : (readRealResponse 4 queue).result with
    | inl code =>
      rw [got] at ok
      exact absurd ok fails
    | inr read =>
      rw [got] at ok
      dsimp only at ok
      obtain ⟨before,rest,found,soon⟩ := readRealInv got
      refine ⟨rfl,before,read,rest,found,soon,?_⟩
      unfold isDataset
      split at ok
      · exact absurd ok fails
      · rename_i success
        split at ok
        · exact absurd ok fails
        · exact absurd ok fails
        · rename_i payload some found
          split at ok
          · exact absurd ok fails
          · rename_i fits
            simp only [Bool.not_eq_true',Bool.not_eq_false] at success
            simpa [success] using Nat.not_lt.mp fits

theorem fetchInv {a : Args} {s : Session} {msgid : UInt16}
    (ok : (meshcopFetchDataset a s msgid).err = espOk) :
    ∃ acks petitionRead queue before read rest, Fetches a s acks petitionRead queue before read rest := by
  have fails : espFail ≠ espOk := by decide
  have invalid : espErrInvalidArg ≠ espOk := by decide
  unfold meshcopFetchDataset at ok
  split at ok
  · exact absurd ok invalid
  · rename_i args
    cases setup : setupError s with
    | some lastError =>
      rw [setup] at ok
      exact absurd ok fails
    | none =>
      rw [setup] at ok
      dsimp only at ok
      cases sent : s.petitionWritten with
      | some code =>
        rw [sent] at ok
        exact absurd ok fails
      | none =>
        rw [sent] at ok
        dsimp only at ok
        cases got : (readRealResponse 4 (incoming s.deliveries)).result with
        | inl code =>
          rw [got] at ok
          exact absurd ok fails
        | inr read =>
          rw [got] at ok
          dsimp only at ok
          obtain ⟨acks,queue,found,soon⟩ := readRealInv got
          split at ok
          · exact absurd ok fails
          · rename_i success
            split at ok
            · exact absurd ok fails
            · rename_i accepted
              rw [readRealAfter found soon] at ok
              obtain ⟨sentToo,before,last,rest,next,soonToo,dataset⟩ := getInv ok
              simp only [Bool.not_eq_true',Bool.not_eq_false] at success accepted
              exact ⟨acks,read,queue,before,last,rest,
                ⟨eq_false_of_ne_true args,setup,sent,sentToo⟩,found,soon,success,accepted,
                next,soonToo,dataset⟩

theorem onlyOther {acks before after : List Read} {read other : Read}
    (ack : ∀ r ∈ acks, isEmptyAck r.bytes = true) (real : isEmptyAck other.bytes = false)
    (same : acks ++ [read] = before ++ other :: after) : before = acks ∧ other = read := by
  induction acks generalizing before with
  | nil =>
    cases before with
    | nil => exact ⟨rfl,(List.cons.inj same).1.symm⟩
    | cons _ before => exact absurd (List.cons.inj same).2.symm (by simp)
  | cons first acks ih =>
    obtain ⟨here,later⟩ := List.forall_mem_cons.mp ack
    cases before with
    | nil =>
      rw [(List.cons.inj same).1] at here
      exact Bool.noConfusion (real.symm.trans here)
    | cons next before =>
      obtain ⟨rfl,rest⟩ := List.cons.inj same
      obtain ⟨rfl,found⟩ := ih later rest
      exact ⟨rfl,found⟩

theorem successReal {buf : List UInt8} (success : isSuccess buf = true) : isEmptyAck buf = false := by
  cases ack : isEmptyAck buf with
  | false => rfl
  | true => exact Bool.noConfusion ((ackNoSuccess ack).symm.trans success)

theorem onlySuccess {acks : List Read} {read other : Read} (ack : ∀ r ∈ acks, isEmptyAck r.bytes = true)
    (mem : other ∈ acks ++ [read]) (success : isSuccess other.bytes = true) : other = read := by
  rcases List.mem_append.mp mem with early | last
  · exact Bool.noConfusion ((successReal success).symm.trans (ack other early))
  · exact List.mem_singleton.mp last

/- The dataset is the payload of a response to the MGMT_ACTIVE_GET exactly where the first
message that could be one is one: nothing in the code looks at the IDs. -/
theorem fetchGenuine (a : Args) (s : Session) (msgid : UInt16) :
    ((meshcopFetchDataset a s msgid).err = espOk → Genuine (meshcopFetchDataset a s msgid)) ↔
    (Stands a s → Prompt a s (activeGet (msgid + 1))) := by
  constructor
  · intro genuine stands acks petitionRead queue first soon success accepted before read rest get
      soonToo dataset
    obtain ⟨payload,_,done⟩ := fetched msgid
      ⟨stands,first,soon,success,accepted,get,soonToo,dataset⟩
    obtain ⟨_,request,sent,other,mem,good,_,front,found,back,reads,answers,_⟩ := genuine (by rw [done])
    rw [done] at sent mem reads
    cases sent
    cases onlySuccess (afterAcksOnly first) mem good
    obtain ⟨rfl,rfl⟩ := onlyOther (afterAcksOnly get) (successReal answers.success) reads
    exact answers
  · intro prompt ok
    obtain ⟨acks,petitionRead,queue,before,read,rest,fetches⟩ := fetchInv ok
    obtain ⟨payload,found,done⟩ := fetched msgid fetches
    rw [done]
    refine ⟨_,_,rfl,petitionRead,List.mem_append_right _ List.mem_cons_self,fetches.success,fetches.accepted,
      before,read,[],rfl,?_,found⟩
    exact prompt fetches.stands acks petitionRead queue fetches.petition fetches.soon fetches.success
      fetches.accepted before read rest fetches.get fetches.soonToo fetches.dataset

def acceptedPetition : List UInt8 := [0x60,0x44,0x20,0x00,0xff,16,1,1]

def someArgs : Args := ⟨some "fd00::1",49155,some "000000000",256⟩

/- The border agent repeats its petition response, as CoAP does when an ACK is late. -/
def repeatedSession : Session :=
  ⟨true,none,true,true,true,none,none,none,[.datagram acceptedPetition,.datagram acceptedPetition]⟩

/- The repeated response is returned as the dataset: it is its State TLV. -/
theorem repeatedPetitionFetched :
    (meshcopFetchDataset someArgs repeatedSession 0x2000).err = espOk ∧
    (meshcopFetchDataset someArgs repeatedSession 0x2000).dataset = [16,1,1] ∧
    ¬ Genuine (meshcopFetchDataset someArgs repeatedSession 0x2000) := by
  have reads : (meshcopFetchDataset someArgs repeatedSession 0x2000).getReads =
      [⟨acceptedPetition,acceptedPetition⟩] := by decide +kernel
  have petitions : (meshcopFetchDataset someArgs repeatedSession 0x2000).petitionReads =
      [⟨acceptedPetition,acceptedPetition⟩] := by decide +kernel
  refine ⟨by decide +kernel,by decide +kernel,?_⟩
  rintro ⟨_,_,_,petitionRead,mem,_,_,before,read,after,split,answers,_⟩
  rw [petitions] at mem
  rw [reads] at split
  have last : read ∈ [(⟨acceptedPetition,acceptedPetition⟩ : Read)] :=
    split ▸ List.mem_append_right _ List.mem_cons_self
  exact answers.fresh (by rw [List.mem_singleton.mp mem, List.mem_singleton.mp last])

end EpskcCommissioner.MeshcopFetch
