import EpskcCommissioner.Hex
import EpskcCommissioner.ThreadJoin

/-! The dataset as hexadecimal text: `thread_dataset_hex` writes it, `PUT
/node/dataset/active` takes it back, and `thread_set_dataset_hex` reads it. What
`thread_join` does with the bytes is the parameter `join`, over states of any type, so
that a text which is turned away is one that `join` plays no part in. -/
namespace EpskcCommissioner.DatasetHex
open WifiDriver ThreadJoin Hex

variable {State : Type}

def threadDatasetHex (cap : Nat) (s : Thread) : Option (List UInt8) :=
  if !s.ready then none
  else
    match s.stored with
    | none => none
    | some ds =>
      if ds.tlvs.length = 0 ∨ cap < ds.tlvs.length * 2 + 1 then none else some (encode ds.tlvs)

def threadSetDatasetHex (join : List UInt8 → State → State × EspErr) (hex : List UInt8)
    (s : State) : State × EspErr :=
  if hex.length = 0 ∨ hex.length % 2 ≠ 0 ∨ otOperationalDatasetMaxLength < hex.length / 2 then
    (s,espErrInvalidArg)
  else
    match decode hex with
    | none => (s,espErrInvalidArg)
    | some tlvs => join tlvs s

/- The reads of `recv_body` behind the bytes it has. Each read of `httpd_req_recv` gives
the next bytes of the body that have arrived, and none is its error or the peer's end. -/
def recvLoop (expected : Nat) (buf : List UInt8) : List (List UInt8) → Option (List UInt8)
  | [] => if expected ≤ buf.length then some buf else none
  | arrived :: reads =>
    if expected ≤ buf.length then some buf
    else if arrived = [] then none
    else recvLoop expected (buf ++ arrived.take (expected - buf.length)) reads

/- `otbr_rest_terminate_body`: a NUL would end the string early. -/
def otbrRestTerminateBody (buf : List UInt8) (capacity : Nat) : Option (List UInt8) :=
  if capacity ≤ buf.length || buf.contains 0 then none else some buf

def recvBody (contentLen : Nat) (reads : List (List UInt8)) (cap : Nat) : Option (List UInt8) :=
  if cap = 0 || cap ≤ contentLen then none
  else (recvLoop contentLen [] reads).bind (fun buf => otbrRestTerminateBody buf cap)

/- `isspace` in the C locale. -/
def isSpace (c : UInt8) : Bool := c == 0x20 || (0x09 ≤ c && c ≤ 0x0d)

def Spaces (text : List UInt8) : Prop := ∀ c ∈ text, isSpace c = true

instance (text : List UInt8) : Decidable (Spaces text) :=
  List.decidableBAll _ text

def quote : UInt8 := 0x22
def backslash : UInt8 := 0x5c

/- `otbr_rest_parse_dataset_hex_body`. Without an opening quote the rest of the body is
the payload, white space behind it included. -/
def otbrRestParseDatasetHexBody (body : List UInt8) : Option (List UInt8) :=
  match body.dropWhile isSpace with
  | [] => some []
  | c :: rest =>
    if c ≠ quote then some (c :: rest)
    else
      let payload := rest.takeWhile (· != quote)
      match rest.drop payload.length with
      | [] => none
      | _ :: tail =>
        if (tail.dropWhile isSpace) ≠ [] || payload.contains backslash then none else some payload

structure Reply where
  status : String
  body : String
  deriving DecidableEq, Repr

def badRequest (body : String) : Reply := ⟨"400 Bad Request",body⟩
def applied : Reply := ⟨"200 OK","\"applied\""⟩
def expectedHex : Reply := badRequest "\"expected hex TLVs\""

/- `body` of the handler. -/
def bodySize : Nat := 540

/- The PUT half of `h_dataset_active`. `accepted` is what `ui_run_on_worker` returns: a
call that it does not accept never runs. -/
def hDatasetActivePut (join : List UInt8 → State → State × EspErr) (accepted : Bool)
    (contentLen : Nat) (reads : List (List UInt8)) (s : State) : State × Reply :=
  if bodySize ≤ contentLen then (s,⟨"413 Content Too Large","\"dataset body too long\""⟩)
  else
    match recvBody contentLen reads bodySize with
    | none | some [] => (s,badRequest "\"could not read dataset body\"")
    | some body =>
      match otbrRestParseDatasetHexBody body with
      | none | some [] => (s,badRequest "\"malformed dataset string\"")
      | some (c :: rest) =>
        if c = 0x7b then (s,badRequest "\"send dataset TLVs as hex, not JSON\"")
        else if !accepted then (s,expectedHex)
        else
          let (t,result) := threadSetDatasetHex join (c :: rest) s
          (t,if result = espOk then applied else expectedHex)

/- A string that `thread_set_dataset_hex` passes on. -/
def IsDatasetHex (hex : List UInt8) : Prop :=
  hex ≠ [] ∧ hex.length % 2 = 0 ∧ hex.length ≤ 508 ∧ ∀ c ∈ hex, isDigit c = true

instance (hex : List UInt8) : Decidable (IsDatasetHex hex) :=
  inferInstanceAs (Decidable (_ ∧ _ ∧ _ ∧ _))

/- The reads deliver the body, in pieces of any size. -/
def Delivers (reads : List (List UInt8)) (body : List UInt8) : Prop :=
  reads.flatten = body ∧ [] ∉ reads

def quoted (text : List UInt8) : List UInt8 := quote :: text ++ [quote]

theorem dropSpaces {text : List UInt8} (spaces : Spaces text) (rest : List UInt8) :
    (text ++ rest).dropWhile isSpace = rest.dropWhile isSpace :=
  List.dropWhile_append_of_pos spaces

theorem noSpaceLeft {text : List UInt8} (spaces : Spaces text) : text.dropWhile isSpace = [] := by
  have none := dropSpaces spaces []
  rwa [List.append_nil] at none

theorem recvDelivered {reads : List (List UInt8)} {body : List UInt8} (buf : List UInt8)
    (some : [] ∉ reads) (rest : buf ++ reads.flatten = body) : recvLoop body.length buf reads = .some body := by
  induction reads generalizing buf with
  | nil =>
    rw [List.flatten_nil, List.append_nil] at rest
    rw [rest]
    simp [recvLoop]
  | cons arrived reads ih =>
    have here : arrived ≠ [] := fun empty => some (empty ▸ List.mem_cons_self)
    have more : 0 < arrived.length := List.length_pos_iff.mpr here
    have size : body.length = buf.length + arrived.length + reads.flatten.length := by
      rw [← rest]
      simp only [List.length_append,List.flatten_cons,Nat.add_assoc]
    rw [recvLoop, if_neg (by omega), if_neg here, List.take_of_length_le (by omega)]
    refine ih _ (fun mem => some (List.mem_cons_of_mem _ mem)) ?_
    rw [← rest, List.flatten_cons, List.append_assoc]

theorem bodyReceived {reads : List (List UInt8)} {body : List UInt8} (delivered : Delivers reads body)
    (short : body.length < bodySize) (noNul : 0 ∉ body) :
    recvBody body.length reads bodySize = some body := by
  have received := recvDelivered [] delivered.2 (by simpa using delivered.1)
  simp [recvBody,otbrRestTerminateBody,received,noNul,Nat.not_le.mpr short,show bodySize ≠ 0 by decide]

theorem digitPlain {c : UInt8} (digit : isDigit c = true) :
    c ≠ 0 ∧ isSpace c = false ∧ c ≠ quote ∧ c ≠ backslash ∧ c ≠ 0x7b := by
  have all : ∀ n < 256, isDigit (UInt8.ofNat n) = true → UInt8.ofNat n ≠ 0 ∧
      isSpace (UInt8.ofNat n) = false ∧ UInt8.ofNat n ≠ quote ∧ UInt8.ofNat n ≠ backslash ∧
      UInt8.ofNat n ≠ 0x7b := by decide +kernel
  have here := all c.toNat c.toNat_lt
  rw [UInt8.ofNat_toNat] at here
  exact here digit

theorem bareParsed {c : UInt8} {rest : List UInt8} (digit : isDigit c = true) :
    otbrRestParseDatasetHexBody (c :: rest) = some (c :: rest) := by
  obtain ⟨_,plain,notQuote,_⟩ := digitPlain digit
  simp [otbrRestParseDatasetHexBody,plain,notQuote]

theorem quotedParsed {text : List UInt8} (digits : ∀ c ∈ text, isDigit c = true) :
    otbrRestParseDatasetHexBody (quoted text) = some text := by
  have noQuote : ∀ c ∈ text, (c != quote) = true := fun c mem =>
    bne_iff_ne.mpr (digitPlain (digits c mem)).2.2.1
  have noEscape : backslash ∉ text := fun mem => (digitPlain (digits _ mem)).2.2.2.1 rfl
  have payload : (text ++ [quote]).takeWhile (· != quote) = text := by
    rw [List.takeWhile_append_of_pos noQuote]
    simp
  have opened : (quoted text).dropWhile isSpace = quote :: (text ++ [quote]) := rfl
  simp [otbrRestParseDatasetHexBody,opened,payload,noEscape]

theorem setDatasetPasses (join : List UInt8 → State → State × EspErr) {hex tlvs : List UInt8}
    (s : State) (some : hex ≠ []) (short : hex.length ≤ 508) (read : decode hex = .some tlvs) :
    threadSetDatasetHex join hex s = join tlvs s := by
  have size := decodeLength read
  have long := List.length_pos_iff.mpr some
  unfold threadSetDatasetHex otOperationalDatasetMaxLength
  rw [if_neg (by omega), read]

theorem setDatasetRejects {join : List UInt8 → State → State × EspErr} {hex : List UInt8}
    (s : State) (bad : ¬IsDatasetHex hex) :
    threadSetDatasetHex join hex s = (s,espErrInvalidArg) := by
  unfold threadSetDatasetHex otOperationalDatasetMaxLength
  split
  · rfl
  · rename_i sized
    cases read : decode hex with
    | none => rfl
    | some tlvs =>
      have found : (decode hex).isSome := by rw [read]; rfl
      obtain ⟨even,digits⟩ := (decodeSome hex).mp found
      exact absurd ⟨List.length_pos_iff.mp (by omega),even,by omega,digits⟩ bad

theorem putReaches {join : List UInt8 → State → State × EspErr} {accepted : Bool}
    {reads : List (List UInt8)} {body hex tlvs : List UInt8} (s : State)
    (delivered : Delivers reads body) (short : body.length < bodySize) (noNul : 0 ∉ body)
    (some : body ≠ []) (parsed : otbrRestParseDatasetHexBody body = .some hex)
    (good : IsDatasetHex hex) (read : decode hex = .some tlvs) :
    hDatasetActivePut join accepted body.length reads s =
      if accepted then ((join tlvs s).1,if (join tlvs s).2 = espOk then applied else expectedHex)
      else (s,expectedHex) := by
  have received := bodyReceived delivered short noNul
  obtain ⟨nonempty,_,sized,digits⟩ := good
  have passes := setDatasetPasses join s nonempty sized read
  obtain ⟨b,bytes,rfl⟩ := List.exists_cons_of_ne_nil some
  obtain ⟨c,rest,rfl⟩ := List.exists_cons_of_ne_nil nonempty
  have plain := (digitPlain (digits c List.mem_cons_self)).2.2.2.2
  unfold hDatasetActivePut
  rw [if_neg (Nat.not_le.mpr short), received]
  simp only [parsed,plain,if_false,passes]
  cases accepted <;> rfl

theorem recasedGood {ds : Dataset} {sent : List UInt8} (same : Recased (encode ds.tlvs) sent) :
    IsDatasetHex sent ∧ decode sent = some ds.tlvs := by
  have read := decodeRecased same
  have found : (decode sent).isSome := by rw [read]; rfl
  obtain ⟨even,digits⟩ := (decodeSome sent).mp found
  have size := decodeLength read
  have fits : ds.tlvs.length ≤ 254 := ds.fits
  have long := List.length_pos_iff.mpr ds.some
  exact ⟨⟨List.length_pos_iff.mp (by omega),even,by omega,digits⟩,read⟩

theorem digitsNoNul {text : List UInt8} (digits : ∀ c ∈ text, isDigit c = true) : 0 ∉ text :=
  fun mem => (digitPlain (digits 0 mem)).1 rfl

theorem datasetShown {ds : Dataset} {s : Thread} {cap : Nat} (ready : s.ready = true)
    (stored : s.stored = some ds) (room : 508 < cap) :
    threadDatasetHex cap s = some (encode ds.tlvs) := by
  have fits : ds.tlvs.length ≤ 254 := ds.fits
  have long := List.length_pos_iff.mpr ds.some
  simp only [threadDatasetHex,ready,stored,Bool.not_true,Bool.false_eq_true,if_false]
  rw [if_neg (by omega)]

theorem shownReaches {ds : Dataset} {join : List UInt8 → State → State × EspErr} {accepted : Bool}
    {sent body : List UInt8} {reads : List (List UInt8)} {s : State}
    (same : Recased (encode ds.tlvs) sent) (form : body = sent ∨ body = quoted sent)
    (delivered : Delivers reads body) :
    hDatasetActivePut join accepted body.length reads s =
      if accepted then
        ((join ds.tlvs s).1,if (join ds.tlvs s).2 = espOk then applied else expectedHex)
      else (s,expectedHex) := by
  obtain ⟨good,read⟩ := recasedGood same
  obtain ⟨nonempty,_,sized,digits⟩ := id good
  have noNul := digitsNoNul digits
  rcases form with rfl | rfl
  · obtain ⟨c,rest,rfl⟩ := List.exists_cons_of_ne_nil nonempty
    exact putReaches s delivered (Nat.lt_of_le_of_lt sized (by decide)) noNul nonempty
      (bareParsed (digits c List.mem_cons_self)) good read
  · have short : (quoted sent).length < bodySize := by
      simp only [quoted,bodySize,List.length_append,List.length_cons,List.length_nil]
      omega
    have noNul : 0 ∉ quoted sent := by
      simp only [quoted,quote,List.cons_append,List.mem_cons,List.mem_append]
      simpa using noNul
    exact putReaches s delivered short noNul (List.cons_ne_nil _ _) (quotedParsed digits) good read

/- The text that is shown for a dataset, sent back bare or in quotes and in letters of
either case, is the dataset again; and no other string comes near `thread_join`. -/
theorem datasetHexRoundTrip :
    (∀ (ds : Dataset) (s : Thread), s.ready = true → s.stored = some ds →
      ∃ text, threadDatasetHex bodySize s = some text ∧
        ∀ sent, Recased text sent → ∀ body, body = sent ∨ body = quoted sent →
          ∀ reads, Delivers reads body →
          ∀ (State : Type) (join : List UInt8 → State → State × EspErr) (accepted : Bool) (t : State),
            hDatasetActivePut join accepted body.length reads t =
              if accepted then
                ((join ds.tlvs t).1,if (join ds.tlvs t).2 = espOk then applied else expectedHex)
              else (t,expectedHex)) ∧
    ∀ (hex : List UInt8) (State : Type) (join : List UInt8 → State → State × EspErr) (t : State),
      if IsDatasetHex hex then
        ∃ tlvs, Recased (encode tlvs) hex ∧ threadSetDatasetHex join hex t = join tlvs t
      else threadSetDatasetHex join hex t = (t,espErrInvalidArg) := by
  constructor
  · intro ds s ready stored
    refine ⟨encode ds.tlvs,datasetShown ready stored (by decide),?_⟩
    intro sent same body form reads delivered State join accepted t
    exact shownReaches same form delivered
  · intro hex State join t
    split
    · rename_i good
      obtain ⟨nonempty,even,sized,digits⟩ := id good
      obtain ⟨tlvs,read⟩ := Option.isSome_iff_exists.mp ((decodeSome hex).mpr ⟨even,digits⟩)
      exact ⟨tlvs,decodeWritten read,setDatasetPasses join t nonempty sized read⟩
    · rename_i bad
      exact setDatasetRejects t bad

theorem datasetHexRoundTripOne :
    hDatasetActivePut (fun tlvs calls => (tlvs :: calls,espOk)) true 4 [[0x22,0x30],[0x41,0x22]] [] =
      ([[0x0a]],applied) := by
  obtain ⟨text,shown,back⟩ := datasetHexRoundTrip.1 ⟨[0x0a],by decide,by decide⟩
    (attached ⟨[0x0a],by decide,by decide⟩) rfl rfl
  have text : text = [0x30,0x61] := (Option.some.inj shown).symm
  subst text
  exact back [0x30,0x41] (.cons (.inl rfl) (.cons (.inr rfl) .nil)) _ (.inr rfl)
    [[0x22,0x30],[0x41,0x22]] ⟨rfl,by decide⟩ _ _ true []

end EpskcCommissioner.DatasetHex
