import EpskcCommissioner.DatasetHex
import EpskcCommissioner.RestQuote

/-! What the REST server tells about its node: `GET /node`, `GET /node/network-name` and the
GET half of `/node/dataset/active`. The network's name is the one text in these responses
that someone else chose. -/
namespace EpskcCommissioner.RestNode
open WifiDriver ThreadJoin CBuffer RestQuote DatasetHex Decimal Utf8

def espErrInvalidSize : EspErr := 0x104

/- `otDeviceRole`; `other` is a value that it does not have. -/
inductive Role where
  | disabled | detached | child | router | leader | other
  deriving DecidableEq, Repr

def otNetworkNameMaxSize : Nat := 16

structure NetworkName where
  bytes : List UInt8
  fits : bytes.length ≤ otNetworkNameMaxSize
  noNul : 0 ∉ bytes
  deriving Repr

/- What OpenThread answers, or nothing. -/
structure Node where
  role : Role
  networkName : Option NetworkName
  extAddress : Option (Vector UInt8 8)
  extPanId : Option (Vector UInt8 8)
  borderAgentId : Option (Vector UInt8 16)
  rloc16 : UInt16
  deriving Repr

def roleName : Role → List Char
  | .disabled => "disabled".toList
  | .detached => "detached".toList
  | .child => "child".toList
  | .router => "router".toList
  | .leader => "leader".toList
  | .other => "?".toList

variable (ready : Bool) (node : Node)

def threadRole : List Char := if !ready then "disabled".toList else roleName node.role

def threadNetworkName : NetworkName :=
  if !ready then ⟨[],by decide,by decide⟩ else node.networkName.getD ⟨[],by decide,by decide⟩

/- An identifier as `bytes_to_hex` writes it, where `cap` has room for it. -/
def identifierHex {n : Nat} (id : Option (Vector UInt8 n)) (cap : Nat) : Option (List UInt8) :=
  if !ready || cap < n * 2 + 1 then none else id.map (fun bytes => Hex.encode bytes.toList)

def threadBorderAgentIdHex (cap : Nat) : Option (List UInt8) := identifierHex ready node.borderAgentId cap

def threadExtAddressHex (cap : Nat) : Option (List UInt8) := identifierHex ready node.extAddress cap

def threadExtPanidHex (cap : Nat) : Option (List UInt8) := identifierHex ready node.extPanId cap

def threadRloc16 : UInt16 := if !ready then 0 else node.rloc16

structure Response where
  status : String
  type : String
  noStore : Bool
  body : List UInt8
  deriving DecidableEq, Repr

/- What a handler returns: it has responded, or it fails with an error code. -/
abbrev Handled := Stored (Except EspErr Response)

/- `send_json` of the string in a buffer. -/
def sendJson (noStore : Bool) (buf : List UInt8) : Handled :=
  .ok (.ok ⟨"200 OK","application/json",noStore,stringIn buf⟩)

def err404 (noStore : Bool) (why : String) : Handled :=
  .ok (.ok ⟨"404 Not Found","application/json",noStore,encode why.toList⟩)

/- `send_quoted`. The buffers of the handlers hold anything before they are written. -/
def sendQuoted (value : List UInt8) (buf : Vector UInt8 128) : Handled := do
  let (whole,buf) ← otbrRestQuoteJsonString value buf.toList 128
  if !whole then .ok (.error espErrInvalidSize) else sendJson false buf

def hNetworkName (buf : Vector UInt8 128) : Handled :=
  sendQuoted ((threadNetworkName ready node).bytes ++ [0]) buf

def nodeText (quotedName : List UInt8) : List UInt8 :=
  encode ("\x7b\"State\":\"".toList ++ threadRole ready node ++ "\",\"NetworkName\":".toList) ++ quotedName ++
    encode ",\"ExtAddress\":\"".toList ++ (threadExtAddressHex ready node 20).getD [] ++
    encode "\",\"ExtPanId\":\"".toList ++ (threadExtPanidHex ready node 20).getD [] ++
    encode ("\",\"Rloc16\":".toList ++ digits (threadRloc16 ready node).toNat ++
      ",\"BorderAgentId\":\"".toList) ++
    (threadBorderAgentIdHex ready node 40).getD [] ++ encode "\"\x7d".toList

def hNode (quotedName : Vector UInt8 128) (json : Vector UInt8 320) : Handled := do
  let (whole,quotedName) ← otbrRestQuoteJsonString ((threadNetworkName ready node).bytes ++ [0]) quotedName.toList 128
  if !whole then .ok (.error espErrInvalidSize)
  else do
    let (json,_) ← snprintf json.toList 320 (nodeText ready node (stringIn quotedName))
    sendJson false json

def datasetText (quotedName pan : List UInt8) : List UInt8 :=
  encode "\x7b\"NetworkName\":".toList ++ quotedName ++ encode ",\"ExtPanId\":\"".toList ++ pan ++
    encode "\",\"ActiveTimestamp\":\x7b\"Seconds\":0\x7d\x7d".toList

def plainText : List UInt8 := encode "text/plain".toList

/- The GET half of `h_dataset_active`. `accept` is the request's header; the handler's copy
of it has 32 bytes. -/
def hDatasetActiveGet (thread : Thread) (accept : Option (List UInt8)) (name : Vector UInt8 20)
    (quotedName : Vector UInt8 128) (json : Vector UInt8 220) : Handled :=
  match threadDatasetHex 540 thread with
  | none => err404 true "\"no active dataset\""
  | some hex =>
    if plainText <:+: (accept.getD []).take 31 then .ok (.ok ⟨"200 OK","text/plain",true,hex⟩)
    else do
      let pan := (threadExtPanidHex thread.ready node 20).getD []
      let (name,_) ← snprintf name.toList 20 (threadNetworkName thread.ready node).bytes
      let (whole,quotedName) ← otbrRestQuoteJsonString name quotedName.toList 128
      if !whole then .ok (.error espErrInvalidSize)
      else do
        let (json,_) ← snprintf json.toList 220 (datasetText (stringIn quotedName) pan)
        sendJson true json

def hexValue (hex : Option (List UInt8)) : Json.Value := .str (byteChars (hex.getD []))

/- `GET /node` -/
def nodeDoc (name : List Char) : Json.Value :=
  .obj [("State".toList,.str (threadRole ready node)),("NetworkName".toList,.str name),
    ("ExtAddress".toList,hexValue (threadExtAddressHex ready node 20)),
    ("ExtPanId".toList,hexValue (threadExtPanidHex ready node 20)),
    ("Rloc16".toList,.int (.ofNat (threadRloc16 ready node).toNat)),
    ("BorderAgentId".toList,hexValue (threadBorderAgentIdHex ready node 40))]

/- `GET /node/dataset/active` -/
def datasetDoc (name : List Char) : Json.Value :=
  .obj [("NetworkName".toList,.str name),("ExtPanId".toList,hexValue (threadExtPanidHex ready node 20)),
    ("ActiveTimestamp".toList,.obj [("Seconds".toList,.int 0)])]

def Bare (cs : List Char) : Prop := ∀ c ∈ cs, (c ≠ '"' ∧ c ≠ '\\' ∧ 0x20 ≤ c.toNat) ∧ c.toNat < 0x80

instance (cs : List Char) : Decidable (Bare cs) := List.decidableBAll _ cs

theorem bareText {cs : List Char} (bare : Bare cs) :
    Plain cs ∧ Json.text (.str cs) = '"' :: (cs ++ ['"']) :=
  ⟨fun c mem => ⟨(bare c mem).1.2.2,(bare c mem).2⟩,Json.quotedPlain (fun c mem => (bare c mem).1)⟩

theorem roleBare : Bare (threadRole ready node) ∧ (threadRole ready node).length ≤ 8 := by
  unfold threadRole
  split
  · exact ⟨by decide +kernel,by decide⟩
  · cases node.role <;> exact ⟨by decide +kernel,by decide⟩

theorem digitBare {c : UInt8} (range : 0x30 ≤ c.toNat ∧ c.toNat ≤ 0x66 ∧ c.toNat ≠ 0x5c) :
    Bare [Char.ofNat c.toNat] := by
  have same := byteChar c
  have quote : '"'.toNat = 0x22 := rfl
  have slash : '\\'.toNat = 0x5c := rfl
  refine List.forall_mem_singleton.mpr ⟨⟨fun marked => ?_,fun marked => ?_,by omega⟩,by omega⟩
  · rw [marked] at same
    omega
  · rw [marked] at same
    omega

theorem identifierBare {n : Nat} (id : Option (Vector UInt8 n)) (cap : Nat) :
    Bare (byteChars ((identifierHex ready id cap).getD [])) ∧
    encode (byteChars ((identifierHex ready id cap).getD [])) = (identifierHex ready id cap).getD [] ∧
    (byteChars ((identifierHex ready id cap).getD [])).length ≤ 2 * n := by
  unfold identifierHex
  split
  · exact ⟨List.forall_mem_nil _,rfl,Nat.zero_le _⟩
  · cases id with
    | none => exact ⟨List.forall_mem_nil _,rfl,Nat.zero_le _⟩
    | some bytes =>
      refine ⟨fun c mem => ?_,encodeByteChars (fun c mem => ?_),?_⟩
      · obtain ⟨d,written,rfl⟩ := List.mem_map.mp mem
        obtain ⟨b,_,digit⟩ := List.mem_flatMap.mp written
        exact digitBare (Hex.byteDigitsRange b d digit) _ List.mem_cons_self
      · obtain ⟨b,_,digit⟩ := List.mem_flatMap.mp mem
        have range := Hex.byteDigitsRange b c digit
        omega
      · have long := Hex.encodeLength bytes.toList
        rw [Vector.length_toList] at long
        rw [byteChars, List.length_map]
        exact Nat.le_of_eq long

theorem rlocPlain (n : UInt16) : Plain (digits n.toNat) ∧ (digits n.toNat).length ≤ 5 := by
  refine ⟨fun c mem => ?_,digitsLength (by decide) (Nat.lt_trans n.toNat_lt (by decide))⟩
  have range : 48 ≤ c.toNat ∧ c.toNat ≤ 57 := Char.isDigit_iff_toNat.mp (digitsAll mem)
  omega

/- The two halves of the body of `GET /node`, around the name. -/
def nodeFront : List Char := "\x7b\"State\":\"".toList ++ threadRole ready node ++ "\",\"NetworkName\":".toList

def nodeBack : List Char :=
  ",\"ExtAddress\":\"".toList ++ byteChars ((threadExtAddressHex ready node 20).getD []) ++
    "\",\"ExtPanId\":\"".toList ++ byteChars ((threadExtPanidHex ready node 20).getD []) ++
    ("\",\"Rloc16\":".toList ++ digits (threadRloc16 ready node).toNat ++ ",\"BorderAgentId\":\"".toList) ++
    byteChars ((threadBorderAgentIdHex ready node 40).getD []) ++ "\"\x7d".toList

theorem nodeSplit (quotedName : List UInt8) :
    nodeText ready node quotedName = encode (nodeFront ready node) ++ quotedName ++ encode (nodeBack ready node) := by
  have ext := (identifierBare ready node.extAddress 20).2.1
  have pan := (identifierBare ready node.extPanId 20).2.1
  have agent := (identifierBare ready node.borderAgentId 40).2.1
  unfold nodeText nodeFront nodeBack threadExtAddressHex threadExtPanidHex threadBorderAgentIdHex
  simp only [encodeAppend,ext,pan,agent,List.append_assoc]

theorem nodeShape (name : List Char) : Json.text (nodeDoc ready node name) =
    nodeFront ready node ++ Json.text (.str name) ++ nodeBack ready node := by
  have role := (bareText (roleBare ready node).1).2
  have ext := (bareText (identifierBare ready node.extAddress 20).1).2
  have pan := (bareText (identifierBare ready node.extPanId 20).1).2
  have agent := (bareText (identifierBare ready node.borderAgentId 40).1).2
  unfold nodeDoc nodeFront nodeBack hexValue threadExtAddressHex threadExtPanidHex threadBorderAgentIdHex
  simp only [Json.objText,List.map_cons,List.map_nil,Json.natText,List.intercalate_cons_cons,
    List.intercalate_singleton,List.append_assoc,List.cons_append,List.nil_append,role,ext,pan,agent]
  rfl

theorem nodePlain : Plain (nodeFront ready node) ∧ Plain (nodeBack ready node) := by
  have role := (bareText (roleBare ready node).1).1
  have ext := (bareText (identifierBare ready node.extAddress 20).1).1
  have pan := (bareText (identifierBare ready node.extPanId 20).1).1
  have agent := (bareText (identifierBare ready node.borderAgentId 40).1).1
  have rloc := (rlocPlain (threadRloc16 ready node)).1
  have fixed : Plain "\x7b\"State\":\"".toList ∧ Plain "\",\"NetworkName\":".toList ∧
      Plain ",\"ExtAddress\":\"".toList ∧ Plain "\",\"ExtPanId\":\"".toList ∧ Plain "\",\"Rloc16\":".toList ∧
      Plain ",\"BorderAgentId\":\"".toList ∧ Plain "\"\x7d".toList := by decide +kernel
  obtain ⟨state,name,address,panId,short,id,close⟩ := fixed
  exact ⟨plainAppend (plainAppend state role) name,
    plainAppend (plainAppend (plainAppend (plainAppend (plainAppend (plainAppend address ext) panId) pan)
      (plainAppend (plainAppend short rloc) id)) agent) close⟩

theorem nodeRoom : (nodeFront ready node).length + (nodeBack ready node).length ≤ 178 := by
  have role := (roleBare ready node).2
  have ext := (identifierBare ready node.extAddress 20).2.2
  have pan := (identifierBare ready node.extPanId 20).2.2
  have agent := (identifierBare ready node.borderAgentId 40).2.2
  have rloc := (rlocPlain (threadRloc16 ready node)).2
  unfold nodeFront nodeBack threadExtAddressHex threadExtPanidHex threadBorderAgentIdHex
  simp only [List.length_append, String.reduceToList, List.length_cons, List.length_nil, Nat.reduceAdd]
  omega

def datasetFront : List Char := "\x7b\"NetworkName\":".toList

def datasetBack : List Char :=
  ",\"ExtPanId\":\"".toList ++ byteChars ((threadExtPanidHex ready node 20).getD []) ++
    "\",\"ActiveTimestamp\":\x7b\"Seconds\":0\x7d\x7d".toList

theorem datasetSplit (quotedName : List UInt8) :
    datasetText quotedName ((threadExtPanidHex ready node 20).getD []) =
      encode datasetFront ++ quotedName ++ encode (datasetBack ready node) := by
  have pan := (identifierBare ready node.extPanId 20).2.1
  unfold datasetText datasetFront datasetBack threadExtPanidHex
  simp only [encodeAppend,pan,List.append_assoc]

theorem datasetShape (name : List Char) : Json.text (datasetDoc ready node name) =
    datasetFront ++ Json.text (.str name) ++ datasetBack ready node := by
  have pan := (bareText (identifierBare ready node.extPanId 20).1).2
  unfold datasetDoc datasetFront datasetBack hexValue threadExtPanidHex
  simp only [Json.objText,List.map_cons,List.map_nil,List.intercalate_cons_cons,
    List.intercalate_singleton,List.append_assoc,List.cons_append,List.nil_append,pan]
  rfl

theorem datasetPlain : Plain datasetFront ∧ Plain (datasetBack ready node) := by
  have pan := (bareText (identifierBare ready node.extPanId 20).1).1
  have fixed : Plain datasetFront ∧ Plain ",\"ExtPanId\":\"".toList ∧
      Plain "\",\"ActiveTimestamp\":\x7b\"Seconds\":0\x7d\x7d".toList := by decide +kernel
  obtain ⟨name,panId,close⟩ := fixed
  exact ⟨name,plainAppend (plainAppend panId pan) close⟩

theorem datasetRoom : datasetFront.length + (datasetBack ready node).length ≤ 78 := by
  have pan := (identifierBare ready node.extPanId 20).2.2
  unfold datasetFront datasetBack threadExtPanidHex
  simp only [List.length_append, String.reduceToList, List.length_cons, List.length_nil, Nat.reduceAdd]
  omega

variable {front back : List Char}

theorem nameQuoted (name : NetworkName) (behind : List UInt8) (buf : Vector UInt8 128) : ∃ after,
    otbrRestQuoteJsonString (name.bytes ++ 0 :: behind) buf.toList 128 = .ok (true,after) ∧
      stringIn after = literal name.bytes := by
  obtain ⟨after,done,_,whole⟩ := quoteRuns name.noNul behind buf.toList
  have short := literalLength name.bytes
  have size : name.bytes.length ≤ 16 := name.fits
  have long : (literal name.bytes).length = (name.bytes.flatMap escaped).length + 2 := by
    simp only [literal,List.length_append,List.length_cons,List.length_nil]
  have room : 3 + (name.bytes.flatMap escaped).length ≤ buf.toList.length := by
    rw [Vector.length_toList]
    omega
  rw [decide_eq_true room, Vector.length_toList] at done
  exact ⟨after,done,stringInFront (literalNoNul name.noNul) (whole room)⟩

/- A document with the name in it is printed whole where its buffer has room for the worst
name. -/
theorem documentPrinted {cap : Nat} (name : NetworkName) (buf : Vector UInt8 cap) (first : Plain front)
    (second : Plain back) (room : front.length + back.length + 98 < cap) : ∃ printed,
    snprintf buf.toList cap (encode front ++ literal name.bytes ++ encode back) =
      .ok (printed,(encode front ++ literal name.bytes ++ encode back).length) ∧
    stringIn printed = encode front ++ literal name.bytes ++ encode back := by
  have short := literalLength name.bytes
  have size : name.bytes.length ≤ 16 := name.fits
  refine snprintfWhole Vector.length_toList ?_ ?_
  · simp only [List.mem_append,not_or]
    exact ⟨⟨(plainBytes first).2,literalNoNul name.noNul⟩,(plainBytes second).2⟩
  · rw [List.length_append, List.length_append, plainLength first, plainLength second]
    omega

/- A response with a JSON body that carries the name where `doc` has it. -/
def Answers (handled : Handled) (noStore : Bool) (doc : List Char → Json.Value) (name : NetworkName) : Prop :=
  ∃ body, handled = .ok (.ok ⟨"200 OK","application/json",noStore,body⟩) ∧ Carries doc name.bytes body

theorem networkNameAnswers (buf : Vector UInt8 128) :
    Answers (hNetworkName ready node buf) false .str (threadNetworkName ready node) := by
  obtain ⟨after,quoted,held⟩ := nameQuoted (threadNetworkName ready node) [] buf
  refine ⟨literal (threadNetworkName ready node).bytes,?_,literalCarries _⟩
  rw [hNetworkName, sendQuoted, quoted, okBind]
  simp only [Bool.not_true,Bool.false_eq_true,if_false,sendJson,held]

theorem nodeAnswers (quotedName : Vector UInt8 128) (json : Vector UInt8 320) :
    Answers (hNode ready node quotedName json) false (nodeDoc ready node) (threadNetworkName ready node) := by
  obtain ⟨after,quoted,held⟩ := nameQuoted (threadNetworkName ready node) [] quotedName
  obtain ⟨first,second⟩ := nodePlain ready node
  have room := nodeRoom ready node
  obtain ⟨printed,done,body⟩ := documentPrinted (threadNetworkName ready node) json first second (by omega)
  refine ⟨_,?_,splicedCarries _ first second (nodeShape ready node)⟩
  rw [hNode, quoted, okBind]
  simp only [Bool.not_true,Bool.false_eq_true,if_false]
  rw [held, nodeSplit, done, okBind, sendJson, body]

theorem datasetAnswers {thread : Thread} {accept : Option (List UInt8)} {hex : List UInt8} (node : Node)
    (name : Vector UInt8 20) (quotedName : Vector UInt8 128) (json : Vector UInt8 220)
    (stored : threadDatasetHex 540 thread = some hex) (noText : ¬ plainText <:+: (accept.getD []).take 31) :
    Answers (hDatasetActiveGet node thread accept name quotedName json) true (datasetDoc thread.ready node)
      (threadNetworkName thread.ready node) := by
  have size : (threadNetworkName thread.ready node).bytes.length ≤ 16 := (threadNetworkName thread.ready node).fits
  obtain ⟨copy,copied,_,rest,whole⟩ := snprintfStores (by decide) (Vector.length_toList : name.toList.length = _)
    (threadNetworkName thread.ready node).bytes
  rw [List.take_of_length_le (by omega), List.append_assoc] at whole
  obtain ⟨after,quoted,held⟩ := nameQuoted (threadNetworkName thread.ready node) rest quotedName
  obtain ⟨first,second⟩ := datasetPlain thread.ready node
  have room := datasetRoom thread.ready node
  obtain ⟨printed,done,body⟩ := documentPrinted (threadNetworkName thread.ready node) json first second (by omega)
  refine ⟨_,?_,splicedCarries _ first second (datasetShape thread.ready node)⟩
  unfold hDatasetActiveGet
  simp only [stored,if_neg noText]
  rw [copied, okBind, ← whole]
  dsimp only [List.singleton_append]
  rw [quoted, okBind]
  simp only [Bool.not_true,Bool.false_eq_true,if_false]
  rw [held, datasetSplit, done, okBind, sendJson, body]

/- A string is quoted without a store outside the buffer, exactly where it has room, and
what stands there then reads as the string. So whatever the network is called, the three
responses come whole. -/
theorem quotedStringsWhole :
    (∀ value behind buf : List UInt8, 0 ∉ value → ∃ after,
      otbrRestQuoteJsonString (value ++ 0 :: behind) buf buf.length =
        .ok (decide (3 + (value.map escapedLength).sum ≤ buf.length),after) ∧
      after.length = buf.length ∧
      (3 + (value.map escapedLength).sum ≤ buf.length →
        stringIn after ++ [0] <+: after ∧ Carries .str value (stringIn after))) ∧
    ∀ node : Node,
      (∀ ready buf, Answers (hNetworkName ready node buf) false .str (threadNetworkName ready node)) ∧
      (∀ ready quotedName json,
        Answers (hNode ready node quotedName json) false (nodeDoc ready node) (threadNetworkName ready node)) ∧
      (∀ thread accept name quotedName json,
        match threadDatasetHex 540 thread with
        | none => hDatasetActiveGet node thread accept name quotedName json = err404 true "\"no active dataset\""
        | some hex =>
          if plainText <:+: (accept.getD []).take 31 then
            hDatasetActiveGet node thread accept name quotedName json = .ok (.ok ⟨"200 OK","text/plain",true,hex⟩)
          else
            Answers (hDatasetActiveGet node thread accept name quotedName json) true (datasetDoc thread.ready node)
              (threadNetworkName thread.ready node)) ∧
      ∀ ready name, (nodeDoc ready node name).get? "NetworkName" = some (.str name) ∧
        (datasetDoc ready node name).get? "NetworkName" = some (.str name) := by
  refine ⟨fun value behind buf noNul => ?_,fun node => ⟨?_,?_,?_,?_⟩⟩
  · obtain ⟨after,done,size,whole⟩ := quoteRuns noNul behind buf
    rw [escapedSum] at done whole
    refine ⟨after,done,size,fun room => ?_⟩
    have held := stringInFront (literalNoNul noNul) (whole room)
    rw [held]
    exact ⟨whole room,literalCarries value⟩
  · exact fun ready buf => networkNameAnswers ready node buf
  · exact fun ready quotedName json => nodeAnswers ready node quotedName json
  · intro thread accept name quotedName json
    cases stored : threadDatasetHex 540 thread with
    | none =>
      unfold hDatasetActiveGet
      rw [stored]
    | some hex =>
      dsimp only
      split
      · rename_i text
        unfold hDatasetActiveGet
        simp only [stored,if_pos text]
      · rename_i noText
        exact datasetAnswers node name quotedName json stored noText
  · exact fun ready name => ⟨rfl,rfl⟩

theorem quotedStringsWholeMark : ∃ after,
    otbrRestQuoteJsonString [0x22,0] [1,1,1,1,1] 5 = .ok (true,after) ∧ Carries .str [0x22] (stringIn after) := by
  obtain ⟨after,done,_,whole⟩ := quotedStringsWhole.1 [0x22] [] [1,1,1,1,1] (by decide)
  exact ⟨after,done,(whole (by decide)).2⟩

end EpskcCommissioner.RestNode
