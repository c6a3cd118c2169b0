import EpskcCommissioner.LogPage
import EpskcCommissioner.PowerHistory
import EpskcCommissioner.RestLogs

/-! The JSON page of `h_logs`: its chunks are one document, and `validate_page` takes it. -/
namespace EpskcCommissioner.RestLogsPage
open WifiDriver (EspErr espOk espFail)
open LogRing LogRingCurrent LogJson Decimal Paging RestLogs LogPage
open PowerLog (Micros hex16)
open BatteryPage (check require)
open Json (Value text natText objText)
open Utf8 (encode encodeAppend encodeNil)

def pageDoc (previous : Bool) (info : LogRingInfo) (reason : ResetReason) (now : Micros)
    (lines : List LineOut) : Value :=
  .obj [("schema".toList,.int 1),("boot".toList,.str (bootName previous).toList),
    ("boot_id".toList,.str (hex16 info.bootId)),("boot_count".toList,.int (.ofNat info.bootCount.toNat)),
    ("reset_reason".toList,.str (uiResetReasonStr reason).toList),
    ("device_uptime_ms".toList,.int (.ofNat (now.val / 1000))),("capacity".toList,.int (.ofNat 1024)),
    ("oldest_seq".toList,.int (.ofNat info.oldestSeq.toNat)),
    ("latest_seq".toList,.int (.ofNat info.latestSeq.toNat)),
    ("last_uptime_ms".toList,.int (.ofNat info.lastUptimeMs.toNat)),
    ("lines".toList,.arr (lines.map rowDoc))]

theorem plainText {s : List Char}
    (plain : s.all (fun c => c != '"' && c != '\\' && decide (0x20 ≤ c.toNat)) = true) :
    text (.str s) = '"' :: (s ++ ['"']) := by
  apply Json.quotedPlain
  intro c mem
  have here := List.all_eq_true.mp plain c mem
  simp only [Bool.and_eq_true,bne_iff_ne,decide_eq_true_eq] at here
  exact ⟨here.1.1,here.1.2,here.2⟩

theorem bootNameText (previous : Bool) :
    text (.str (bootName previous).toList) = '"' :: ((bootName previous).toList ++ ['"']) := by
  apply plainText
  cases previous <;> simp [bootName]

theorem reasonText (reason : ResetReason) :
    text (.str (uiResetReasonStr reason).toList) = '"' :: ((uiResetReasonStr reason).toList ++ ['"']) := by
  apply plainText
  cases reason <;> simp [uiResetReasonStr]

theorem linesText (lines : List LineOut) :
    text (.arr (lines.map rowDoc)) =
      '[' :: ([','].intercalate (lines.map (fun line => text (rowDoc line))) ++ [']']) := by
  rw [text, Json.textsMap, List.map_map]
  rfl

set_option maxRecDepth 8000 in
theorem pageDocText (previous : Bool) (info : LogRingInfo) (reason : ResetReason) (now : Micros)
    (lines : List LineOut) : text (pageDoc previous info reason now lines) =
      jsonPageHead previous info reason now ++
        [','].intercalate (lines.map (fun line => text (rowDoc line))) ++ "]\x7d".toList := by
  unfold pageDoc jsonPageHead
  simp only [objText,List.map_cons,List.map_nil,linesText,bootNameText,reasonText,PowerHistory.hex16Text,
    natText,List.intercalate_cons_cons,List.intercalate_singleton,List.append_assoc,List.cons_append,
    List.nil_append]
  rfl

theorem hexDigitAscii : ∀ n < 16, (Nat.digitChar n).toNat < 0x80 := by decide

theorem hex16Ascii {n : UInt64} : ∀ c ∈ hex16 n, c.toNat < 0x80 := by
  intro c mem
  obtain ⟨i,_,rfl⟩ := List.mem_map.mp mem
  exact hexDigitAscii _ (Nat.mod_lt _ (by decide))

theorem bootNameShort (previous : Bool) :
    (bootName previous).toList.length ≤ 8 ∧ ∀ c ∈ (bootName previous).toList, c.toNat < 0x80 := by
  cases previous <;> simp [bootName]

theorem reasonShort (reason : ResetReason) :
    (uiResetReasonStr reason).toList.length ≤ 18 ∧ ∀ c ∈ (uiResetReasonStr reason).toList, c.toNat < 0x80 := by
  cases reason <;> simp [uiResetReasonStr]

theorem headLength (previous : Bool) (info : LogRingInfo) (reason : ResetReason) (now : Micros) :
    0 < (encode (jsonPageHead previous info reason now)).length ∧
      (encode (jsonPageHead previous info reason now)).length < 400 := by
  obtain ⟨nameLength,nameAscii⟩ := bootNameShort previous
  obtain ⟨reasonLength,reasonAscii⟩ := reasonShort reason
  have word : ∀ n : UInt32, (digits n.toNat).length ≤ 10 :=
    fun n => digitsLength (by decide) (Nat.lt_trans n.toNat_lt (by decide))
  have count := word info.bootCount
  have oldest := word info.oldestSeq
  have latest := word info.latestSeq
  have last := word info.lastUptimeMs
  have capacity : (digits 1024).length ≤ 4 := digitsLength (by decide) (by decide)
  have time : (digits (now.val / 1000)).length ≤ 19 :=
    digitsLength (by decide) (Nat.lt_of_le_of_lt (Nat.div_le_self _ _) (Nat.lt_trans now.isLt (by decide)))
  have boot : (hex16 info.bootId).length = 16 := by rw [hex16, List.length_map, List.length_range]
  have ascii : ∀ c ∈ jsonPageHead previous info reason now, c.toNat < 0x80 := by
    unfold jsonPageHead
    simp only [List.forall_mem_append]
    exact ⟨⟨⟨⟨⟨⟨⟨⟨⟨⟨⟨⟨⟨⟨⟨⟨⟨⟨by simp,nameAscii⟩,by simp⟩,hex16Ascii⟩,by simp⟩,digitsAscii⟩,by simp⟩,reasonAscii⟩,
      by simp⟩,digitsAscii⟩,by simp⟩,digitsAscii⟩,by simp⟩,digitsAscii⟩,by simp⟩,digitsAscii⟩,by simp⟩,
      digitsAscii⟩,by simp⟩
  rw [Utf8.encodeLength ascii]
  unfold jsonPageHead
  simp only [List.length_append, String.reduceToList, List.length_cons, List.length_nil, Nat.reduceAdd]
  omega

/- What a scratch has sent and still holds has grown by the data, and no chunk is empty. -/
structure Sends (s : Scratch) (data : List UInt8) (t : Scratch) : Prop where
  joined : t.sent.flatten ++ t.batch = s.sent.flatten ++ s.batch ++ data
  whole : (∀ chunk ∈ s.sent, chunk ≠ []) → ∀ chunk ∈ t.sent, chunk ≠ []

theorem sendsNil (s : Scratch) : Sends s [] s := ⟨(List.append_nil _).symm,id⟩

theorem sendsTrans {s t u : Scratch} {data more : List UInt8} (first : Sends s data t)
    (second : Sends t more u) : Sends s (data ++ more) u := by
  refine ⟨?_,fun before => second.whole (first.whole before)⟩
  rw [second.joined, first.joined, List.append_assoc]

theorem flushSends (s : Scratch) :
    (if s.batch = [] then s.sent else s.sent ++ [s.batch]).flatten = s.sent.flatten ++ s.batch ∧
      ((∀ chunk ∈ s.sent, chunk ≠ []) →
        ∀ chunk ∈ if s.batch = [] then s.sent else s.sent ++ [s.batch], chunk ≠ []) := by
  split
  · rename_i none
    rw [none, List.append_nil]
    exact ⟨rfl,id⟩
  · rename_i some
    rw [List.flatten_append, List.flatten_singleton]
    exact ⟨rfl,fun before => List.forall_mem_append.mpr ⟨before,List.forall_mem_singleton.mpr some⟩⟩

theorem logsSendAll {data : List UInt8} (some : data ≠ []) (s : Scratch) :
    ∃ t, logsSend (fun _ => espOk) data s = (t,espOk) ∧ Sends s data t := by
  obtain ⟨joined,whole⟩ := flushSends s
  unfold logsSend
  simp only [ne_eq, not_true_eq_false, and_false, if_false]
  generalize (if s.batch = [] then s.sent else s.sent ++ [s.batch]) = sent at joined whole ⊢
  split
  · split
    · refine ⟨_,rfl,?_,fun before => List.forall_mem_append.mpr ⟨whole before,List.forall_mem_singleton.mpr some⟩⟩
      rw [List.append_nil, List.flatten_append, List.flatten_singleton, joined]
    · exact ⟨_,rfl,congrArg (· ++ data) joined,whole⟩
  · exact ⟨_,rfl,(List.append_assoc _ _ _).symm,id⟩

def rowBytes : (first : Bool) → List LineOut → List UInt8
  | _, [] => []
  | true, line :: lines => encode (text (rowDoc line)) ++ rowBytes false lines
  | false, line :: lines => [0x2c] ++ (encode (text (rowDoc line)) ++ rowBytes false lines)

theorem rowSome (line : LineOut) : encode (text (rowDoc line)) ≠ [] := by
  obtain ⟨c,cs,found⟩ := List.exists_cons_of_ne_nil (Json.textSome (rowDoc line))
  rw [found, Utf8.encodeCons]
  exact List.append_ne_nil_of_left_ne_nil String.utf8EncodeChar_ne_nil _

theorem sendLineAll (first : Bool) (line : LineOut) (s : Scratch) :
    ∃ t, sendLine (fun _ => espOk) false first line s = (t,espOk) ∧
      Sends s ((if first then [] else [0x2c]) ++ encode (text (rowDoc line))) t := by
  have some := rowSome line
  unfold sendLine
  simp only [logRingJsonDoc, Bool.false_eq_true, if_false, if_neg some]
  cases first with
  | true =>
    obtain ⟨t,sent,sends⟩ := logsSendAll some s
    exact ⟨t,sent,sends⟩
  | false =>
    obtain ⟨t,comma,sends⟩ := logsSendAll (List.cons_ne_nil 0x2c []) s
    obtain ⟨u,sent,more⟩ := logsSendAll some t
    refine ⟨u,?_,sendsTrans sends more⟩
    simp only [Bool.false_eq_true, if_false, comma, if_true, sent]

theorem sendLinesAll (first : Bool) (lines : List LineOut) (s : Scratch) :
    ∃ t, sendLines (fun _ => espOk) false first lines s = (t,espOk) ∧ Sends s (rowBytes first lines) t := by
  induction lines generalizing first s with
  | nil => cases first <;> exact ⟨s,rfl,sendsNil s⟩
  | cons line lines ih =>
    obtain ⟨t,here,sends⟩ := sendLineAll first line s
    obtain ⟨u,later,more⟩ := ih false t
    refine ⟨u,?_,?_⟩
    · simp only [sendLines, here, if_true, later]
    · have joined := sendsTrans sends more
      cases first with
      | true => exact joined
      | false =>
        rw [List.append_assoc] at joined
        exact joined

theorem rowBytesJoined (line : LineOut) (lines : List LineOut) :
    encode (text (rowDoc line)) ++ rowBytes false lines =
      encode ([','].intercalate ((line :: lines).map (fun line => text (rowDoc line)))) := by
  induction lines generalizing line with
  | nil => rw [rowBytes, List.append_nil, List.map_singleton, List.intercalate_singleton]
  | cons next lines ih =>
    have rest := ih next
    rw [List.map_cons] at rest
    rw [List.map_cons, List.map_cons, List.intercalate_cons_cons, encodeAppend, encodeAppend, ← rest,
      rowBytes, List.append_assoc]
    rfl

theorem rowBytesText (lines : List LineOut) : rowBytes true lines =
    encode ([','].intercalate (lines.map (fun line => text (rowDoc line)))) := by
  cases lines with
  | nil => rfl
  | cons line lines => exact rowBytesJoined line lines

theorem sendPageAll (previous : Bool) (info : LogRingInfo) (reason : ResetReason) (now : Micros)
    (lines : List LineOut) :
    ∃ chunks, sendPage (fun _ => espOk) false (jsonPageHead previous info reason now) lines =
        (chunks ++ [[]],espOk) ∧ (∀ chunk ∈ chunks, chunk ≠ []) ∧
      chunks.flatten = encode (text (pageDoc previous info reason now lines)) := by
  obtain ⟨pos,short⟩ := headLength previous info reason now
  obtain ⟨s,head,sends⟩ := logsSendAll (List.ne_nil_of_length_pos pos) ⟨[],[]⟩
  obtain ⟨t,rows,more⟩ := sendLinesAll true lines s
  obtain ⟨u,close,last⟩ := logsSendAll (List.cons_ne_nil 0x5d [0x7d]) t
  obtain ⟨joined,whole⟩ := sendsTrans (sendsTrans sends more) last
  obtain ⟨flushed,some⟩ := flushSends u
  refine ⟨if u.batch = [] then u.sent else u.sent ++ [u.batch],?_,some (whole nofun),?_⟩
  · simp only [sendPage, if_pos short, head, rows, close, Bool.not_false, and_self, if_true]
    by_cases none : u.batch = []
    · simp [none]
    · simp [none]
  · have ends : encode "]\x7d".toList = [0x5d,0x7d] := rfl
    rw [flushed, joined, pageDocText, encodeAppend, encodeAppend, rowBytesText, ends, List.flatten_nil,
      List.nil_append, List.nil_append]

def seenLine (line : LineOut) : LogPage.Line := ⟨line.seq.toNat,line.uptimeMs.toNat,rowChars line⟩

theorem wordDoc {lower : Nat} {n : UInt32} (inside : lower ≤ n.toNat) :
    BatteryPage.natural lower BatteryPage.u32Max (some (.int (.ofNat n.toNat))) = some n.toNat :=
  PowerHistory.naturalDoc ⟨inside,Nat.le_of_lt_succ n.toNat_lt⟩

theorem validateLineDoc {latest previous : Nat} {line : LineOut} (after : previous < line.seq.toNat)
    (last : line.seq.toNat ≤ latest) : validateLine latest previous (rowDoc line) = .ok (seenLine line) := by
  have seq : BatteryPage.natural 1 BatteryPage.u32Max ((rowDoc line).get? "seq") = some line.seq.toNat :=
    wordDoc (by omega)
  have time : BatteryPage.natural 0 BatteryPage.u32Max ((rowDoc line).get? "uptime_ms") =
      some line.uptimeMs.toNat := wordDoc (Nat.zero_le _)
  have chars : str ((rowDoc line).get? "text") = some (rowChars line) := rfl
  simp only [validateLine,seq,time,chars,check,require,decide_eq_true after,decide_eq_true last,Bool.and_self,
    if_true,bind,Except.bind]
  rfl

theorem validateLinesDoc {latest previous : Nat} {lines : List LineOut}
    (ordered : lines.Pairwise (fun a b => a.seq.toNat < b.seq.toNat))
    (inside : ∀ line ∈ lines, previous < line.seq.toNat ∧ line.seq.toNat ≤ latest) :
    validateLines latest previous (lines.map rowDoc) = .ok (lines.map seenLine) := by
  induction lines generalizing previous with
  | nil => rfl
  | cons line lines ih =>
    obtain ⟨here,later⟩ := List.forall_mem_cons.mp inside
    obtain ⟨behind,rest⟩ := List.pairwise_cons.mp ordered
    have first := validateLineDoc here.1 here.2
    have others : validateLines latest (seenLine line).seq (lines.map rowDoc) = .ok (lines.map seenLine) :=
      ih rest (fun next mem => ⟨behind next mem,(later next mem).2⟩)
    simp only [List.map_cons,validateLines,first,others,bind,Except.bind]

def seenPage (previous : Bool) (info : LogRingInfo) (reason : ResetReason) (lines : List LineOut) :
    LogPage.Page where
  boot := (bootName previous).toList
  bootId := hex16 info.bootId
  bootCount := info.bootCount.toNat
  oldestSeq := info.oldestSeq.toNat
  latestSeq := info.latestSeq.toNat
  capacity := 1024
  resetReason := (uiResetReasonStr reason).toList
  lines := lines.map seenLine

theorem validatePageDoc {previous : Bool} {info : LogRingInfo} {reason : ResetReason} {now : Micros}
    {lines : List LineOut} {after : Nat} (ordered : lines.Pairwise (fun a b => a.seq.toNat < b.seq.toNat))
    (inside : ∀ line ∈ lines, after < line.seq.toNat ∧ line.seq.toNat ≤ info.latestSeq.toNat) :
    LogPage.validatePage (pageDoc previous info reason now lines) after =
      .ok (seenPage previous info reason lines) := by
  have schema : BatteryPage.isOne ((pageDoc previous info reason now lines).get? "schema") = true := rfl
  have boot : pageBoot ((pageDoc previous info reason now lines).get? "boot") =
      some (bootName previous).toList := by
    cases previous <;> rfl
  have bootId : str ((pageDoc previous info reason now lines).get? "boot_id") = some (hex16 info.bootId) := rfl
  have word : ∀ n : UInt32, BatteryPage.natural 0 BatteryPage.u32Max (some (.int (.ofNat n.toNat))) =
      some n.toNat := fun _ => wordDoc (Nat.zero_le _)
  have count : BatteryPage.natural 0 BatteryPage.u32Max
      ((pageDoc previous info reason now lines).get? "boot_count") = some info.bootCount.toNat := word _
  have oldest : BatteryPage.natural 0 BatteryPage.u32Max
      ((pageDoc previous info reason now lines).get? "oldest_seq") = some info.oldestSeq.toNat := word _
  have latest : BatteryPage.natural 0 BatteryPage.u32Max
      ((pageDoc previous info reason now lines).get? "latest_seq") = some info.latestSeq.toNat := word _
  have capacity : BatteryPage.natural 0 BatteryPage.u32Max
      ((pageDoc previous info reason now lines).get? "capacity") = some 1024 := rfl
  have reasoned : str ((pageDoc previous info reason now lines).get? "reset_reason") =
      some (uiResetReasonStr reason).toList := rfl
  have listed : list ((pageDoc previous info reason now lines).get? "lines") = some (lines.map rowDoc) := rfl
  have checked : validateLines info.latestSeq.toNat after (lines.map rowDoc) = .ok (lines.map seenLine) :=
    validateLinesDoc ordered inside
  simp only [LogPage.validatePage,schema,boot,bootId,count,oldest,latest,capacity,reasoned,listed,checked,
    check,require,if_true,bind,Except.bind]
  rfl

end EpskcCommissioner.RestLogsPage
