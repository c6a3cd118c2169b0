import EpskcCommissioner.LogRingReads
import EpskcCommissioner.RestLogsPage

/-! `h_logs` over the log ring as tasks go on logging: every page is one document that the
tail takes, and its lines are lines of its boot, whole and under their own numbers. -/
namespace EpskcCommissioner.RestLogsServed
open WifiDriver (EspErr espOk)
open LogText LogRing LogRingDevice LogRingChains LogRingCurrent LogRingInit LogRingRecovery LogRingServing
open LogRingReads LogClean LogJson Paging RestLogs RestLogsPage
open PowerLog (Micros UrlQuery)

section
variable {get : UInt32 → Option LineOut} (own : ∀ seq out, get seq = some out → out.seq = seq)
include own

theorem pageLines (after oldest latest : UInt32) (limit : Nat) :
    (readPage get latest 4294967296 (firstSeq after oldest latest) limit).Pairwise
        (fun a b => a.seq.toNat < b.seq.toNat) ∧
      ∀ line ∈ readPage get latest 4294967296 (firstSeq after oldest latest) limit,
        after.toNat < line.seq.toNat ∧ line.seq.toNat ≤ latest.toNat ∧ get line.seq = some line := by
  have place : ∀ s ∈ (List.range' 1 latest.toNat).filter (fun s => max (after.toNat + 1) oldest.toNat ≤ s),
      ∀ line, get (UInt32.ofNat s) = some line → line.seq.toNat = s ∧ after.toNat < s ∧ s ≤ latest.toNat := by
    intro s mem line found
    obtain ⟨inside,behind⟩ := List.mem_filter.mp mem
    have range := List.mem_range'_1.mp inside
    have bound := of_decide_eq_true behind
    have small := latest.toNat_lt
    have same : line.seq.toNat = s := by
      rw [own _ line found]
      exact UInt32.toNat_ofNat_of_lt' (show s < 4294967296 by omega)
    exact ⟨same,by omega,by omega⟩
  rw [pageRows get limit latest.toNat_lt]
  constructor
  · apply List.Pairwise.take
    rw [List.pairwise_filterMap]
    have ordered : ((List.range' 1 latest.toNat).filter
        (fun s => max (after.toNat + 1) oldest.toNat ≤ s)).Pairwise (· < ·) :=
      List.Pairwise.filter _ List.pairwise_lt_range'
    refine ordered.imp_of_mem ?_
    intro s t first second before a foundA b foundB
    rw [(place s first a foundA).1, (place t second b foundB).1]
    exact before
  · intro line mem
    obtain ⟨s,inside,found⟩ := List.mem_filterMap.mp (List.mem_of_mem_take mem)
    obtain ⟨same,behind,last⟩ := place s inside line found
    rw [same]
    refine ⟨behind,last,?_⟩
    rw [own _ line found]
    exact found

theorem logsAccepted {q : UrlQuery} {p : Params} (info : Which → Option LogRingInfo) {i : LogRingInfo}
    (gets : Which → UInt32 → Option LineOut) (same : gets (which p.previous) = get) (reason : ResetReason)
    (now : Micros) (params : logsParams q = .ok p) (json : p.text = false)
    (found : info (which p.previous) = some i) :
    ∃ chunks chars doc, hLogs q info gets true reason now (fun _ => espOk) = .chunked (chunks ++ [[]]) espOk ∧
      (∀ chunk ∈ chunks, chunk ≠ []) ∧ Utf8.decode chunks.flatten = some chars ∧
      Json.parse chars = some doc ∧
      LogPage.validatePage doc p.after.toNat = .ok (seenPage p.previous i reason
        (readPage get i.latestSeq 4294967296 (firstSeq p.after i.oldestSeq i.latestSeq) p.limit.toNat)) := by
  obtain ⟨ordered,inside⟩ := pageLines own p.after i.oldestSeq i.latestSeq p.limit.toNat
  generalize listed :
    readPage get i.latestSeq 4294967296 (firstSeq p.after i.oldestSeq i.latestSeq) p.limit.toNat = lines
    at ordered inside ⊢
  obtain ⟨chunks,sent,some,body⟩ := sendPageAll p.previous i reason now lines
  refine ⟨chunks,Json.text (pageDoc p.previous i reason now lines),pageDoc p.previous i reason now lines,
    ?_,some,?_,Json.parseText _,?_⟩
  · simp [hLogs,params,found,json,same,listed,sent]
  · rw [body, Utf8.decodeEncode]
  · exact validatePageDoc ordered (fun line mem => ⟨(inside line mem).1,(inside line mem).2.1⟩)

end

theorem getOwn {boot : Which} {seq : UInt32} {cells : Cells} {ram : Ram} {out : LineOut}
    (got : logRingGet boot seq cells ram = some out) : out.seq = seq := by
  obtain ⟨_,_,_,_,_,_,_,rfl⟩ := getFound got
  rfl

theorem infoFound {boot : Which} {cells : Cells} {ram : Ram} {i : LogRingInfo}
    (found : logRingInfo boot cells ram = some i) :
    ∃ h, halfFor ram boot = some h ∧ i.bootId = cells (.bootId h) ∧
      i.latestSeq = (if some h = ram.cur then ram.latest else ram.prevLatest) ∧
      i.oldestSeq = if i.latestSeq = 0 then 0 else if i.latestSeq > 1024 then i.latestSeq - 1024 + 1 else 1 := by
  unfold logRingInfo at found
  split at found
  · exact absurd found.symm (Option.some_ne_none i)
  · rename_i h half
    cases Option.some.inj found
    exact ⟨h,half,rfl,rfl,rfl⟩

theorem oldestLow {latest seq : UInt32} (numbered : seq ≠ 0) (reached : seq ≤ latest)
    (near : (latest - seq).toNat < 1024) :
    (if latest = 0 then 0 else if latest > 1024 then latest - 1024 + 1 else 1 : UInt32).toNat ≤ seq.toNat := by
  have some : seq.toNat ≠ 0 := fun zero => numbered (UInt32.toNat_inj.mp zero)
  have low := UInt32.le_iff_toNat_le.mp reached
  have high := latest.toNat_lt
  rw [UInt32.toNat_sub_of_le _ _ reached] at near
  split
  · exact Nat.zero_le _
  · split
    · rename_i wrapped
      have beyond : 1024 < latest.toNat := UInt32.lt_iff_toNat_lt.mp wrapped
      have back : (latest - 1024).toNat = latest.toNat - 1024 :=
        UInt32.toNat_sub_of_le _ _ (UInt32.le_of_lt wrapped)
      rw [UInt32.toNat_add, back]
      change (latest.toNat - 1024 + 1) % 4294967296 ≤ _
      omega
    · exact Nat.pos_of_ne_zero some

theorem getInside {boot : Which} {seq : UInt32} {cells : Cells} {ram : Ram} {i : LogRingInfo}
    {out : LineOut} (found : logRingInfo boot cells ram = some i)
    (got : logRingGet boot seq cells ram = some out) :
    seq ≠ 0 ∧ seq ≤ i.latestSeq ∧ i.oldestSeq.toNat ≤ seq.toNat := by
  obtain ⟨h,half,numbered,reached,near,_⟩ := getFound got
  obtain ⟨g,also,_,latest,oldest⟩ := infoFound found
  cases Option.some.inj (half.symm.trans also)
  rw [← latest] at reached near
  rw [oldest]
  exact ⟨numbered,reached,oldestLow numbered reached near⟩

def readable (boot : Which) (s : Device) : List LineOut :=
  (List.range 4294967296).filterMap (fun n => logRingGet boot (UInt32.ofNat n) s.memory.view s.ram)

theorem filterMapWithin {A : Type} {f : Nat → Option A} {first count bound : Nat} (inside : first + count ≤ bound)
    (outside : ∀ n, n < bound → n < first ∨ first + count ≤ n → f n = none) :
    (List.range bound).filterMap f = (List.range' first count).filterMap f := by
  have whole : List.range bound = List.range' 0 first ++ List.range' first count ++
      List.range' (first + count) (bound - (first + count)) := by
    have front := List.range'_append_1 (s := 0) (m := first) (n := count)
    have back := List.range'_append_1 (s := 0) (m := first + count) (n := bound - (first + count))
    rw [Nat.zero_add] at front back
    rw [front, back, Nat.add_sub_cancel' inside, List.range_eq_range']
  have before : (List.range' 0 first).filterMap f = [] := by
    rw [List.filterMap_eq_nil_iff]
    intro n mem
    have range := List.mem_range'_1.mp mem
    exact outside n (by omega) (.inl (by omega))
  have behind : (List.range' (first + count) (bound - (first + count))).filterMap f = [] := by
    rw [List.filterMap_eq_nil_iff]
    intro n mem
    have range := List.mem_range'_1.mp mem
    exact outside n (by omega) (.inr range.1)
  rw [whole, List.filterMap_append, List.filterMap_append, before, behind, List.nil_append, List.append_nil]

/- While the ring does not change, a page has the first of them behind `after`. -/
theorem pageReadable {boot : Which} {s : Device} {i : LogRingInfo} (after : UInt32) (limit : Nat)
    (found : logRingInfo boot s.memory.view s.ram = some i) :
    readPage (fun seq => logRingGet boot seq s.memory.view s.ram) i.latestSeq 4294967296
        (firstSeq after i.oldestSeq i.latestSeq) limit =
      ((readable boot s).filter (fun out => after.toNat < out.seq.toNat)).take limit := by
  have inside : 1 + i.latestSeq.toNat ≤ 4294967296 := by
    have := i.latestSeq.toNat_lt
    omega
  have outside : ∀ n, n < 4294967296 → n < 1 ∨ 1 + i.latestSeq.toNat ≤ n →
      logRingGet boot (UInt32.ofNat n) s.memory.view s.ram = none := by
    intro n fits beyond
    cases got : logRingGet boot (UInt32.ofNat n) s.memory.view s.ram with
    | none => rfl
    | some out =>
      obtain ⟨numbered,reached,_⟩ := getInside found got
      have low := UInt32.le_iff_toNat_le.mp reached
      have same : (UInt32.ofNat n).toNat = n := UInt32.toNat_ofNat_of_lt' fits
      rcases beyond with zero | past
      · exact absurd (Nat.lt_one_iff.mp zero ▸ rfl) numbered
      · omega
  rw [pageRows _ limit i.latestSeq.toNat_lt, readable, List.filter_filterMap, List.filterMap_filter,
    filterMapWithin inside fun n fits beyond => by rw [outside n fits beyond]; rfl]
  apply congrArg (List.take limit)
  apply List.filterMap_congr
  intro n mem
  have range := List.mem_range'_1.mp mem
  have same : (UInt32.ofNat n).toNat = n := UInt32.toNat_ofNat_of_lt' (show n < 4294967296 by omega)
  cases got : logRingGet boot (UInt32.ofNat n) s.memory.view s.ram with
  | none => simp
  | some out =>
    have low := (getInside found got).2.2
    have number := congrArg UInt32.toNat (getOwn got)
    rw [same] at low number
    have bounds : max (after.toNat + 1) i.oldestSeq.toNat ≤ n ↔ after.toNat < out.seq.toNat := by omega
    simp only [Option.filter, bounds]

/- The answer of the handler, where `ringAt seq` is the ring when the loop asks for `seq`. -/
def logsOf (q : UrlQuery) (reason : ResetReason) (now : Micros) (s : Device)
    (ringAt : UInt32 → Device) : Response :=
  hLogs q (fun boot => logRingInfo boot s.memory.view s.ram)
    (fun boot seq => logRingGet boot seq (ringAt seq).memory.view (ringAt seq).ram) true reason now
    (fun _ => espOk)

/- Only the last chunk is empty, and the others are one document that the tail takes. -/
def Accepted (answer : Response) (after : Nat) (page : LogPage.Page) : Prop :=
  ∃ chunks chars doc, answer = .chunked (chunks ++ [[]]) espOk ∧ (∀ chunk ∈ chunks, chunk ≠ []) ∧
    Utf8.decode chunks.flatten = some chars ∧ Json.parse chars = some doc ∧
    LogPage.validatePage doc after = .ok page

def CommittedAs (s : Device) (bootId : UInt64) (line : LogPage.Line) : Prop :=
  ∃ c, (bootId,c) ∈ s.committed ∧ line.seq = c.seq.toNat ∧ line.uptimeMs = c.uptimeMs.toNat ∧
    Utf8.encode line.text = c.text.bytes

def tailed (line : LogPage.Line) : Nat × Nat × List UInt8 :=
  (line.seq,line.uptimeMs,Utf8.encode line.text)

def stored (out : LineOut) : Nat × Nat × List UInt8 := (out.seq.toNat,out.uptimeMs.toNat,cString out.text)

def Unchanged (boot : Which) (s t : Device) : Prop :=
  ∀ seq, logRingGet boot seq t.memory.view t.ram = logRingGet boot seq s.memory.view s.ram

structure Served (s : Device) (ringAt : UInt32 → Device) (p : Params) (bootId : UInt64)
    (answer : Response) (page : LogPage.Page) : Prop where
  accepted : Accepted answer p.after.toNat page
  tail : ∀ ordinal, LogTailGaps.validatePage
    ⟨page.bootId,page.latestSeq,String.ofList page.resetReason,page.lines.map LogPage.Line.seq,ordinal⟩ p.after.toNat = true
  committed : ∀ line ∈ page.lines, CommittedAs (ringAt (UInt32.ofNat line.seq)) bootId line
  first : (∀ seq, Unchanged (which p.previous) s (ringAt seq)) →
    page.lines.map tailed = (((readable (which p.previous) s).filter
      (fun out => p.after.toNat < out.seq.toNat)).take p.limit.toNat).map stored

theorem infoRuns {boot : Which} {s : Device} {i : LogRingInfo} (reached : device.Reachable s)
    (found : logRingInfo boot s.memory.view s.ram = some i) : s.ram.cur.isSome := by
  obtain ⟨h,half,_⟩ := infoFound found
  rcases reachedKnown reached with serving | asleep
  · rw [serving.cur]
    rfl
  · rw [asleep.ram] at half
    cases boot <;> exact absurd half.symm (Option.some_ne_none h)

theorem readCommitted {s : Device} {boot : Which} {i : LogRingInfo} {ringAt : UInt32 → Device}
    (reached : device.Reachable s) (checked : boot = .previous → device.Under Checked s)
    (found : logRingInfo boot s.memory.view s.ram = some i)
    (later : ∀ seq, Later s (ringAt seq) ∧ (ringAt seq).lock = none) {seq : UInt32} {out : LineOut}
    (got : logRingGet boot seq (ringAt seq).memory.view (ringAt seq).ram = some out) :
    ∃ c, (i.bootId,c) ∈ (ringAt seq).committed ∧ Reads out c ∧ Clean c.text.bytes := by
  obtain ⟨after,free⟩ := later seq
  obtain ⟨h,half,id,_⟩ := infoFound found
  have stays := laterStays after
  have same : halfFor (ringAt seq).ram boot = some h := by
    cases boot
    · exact stays.cur.trans half
    · exact stays.prev.trans half
  have runs : (ringAt seq).ram.cur.isSome := stays.cur ▸ infoRuns reached found
  have trusted : boot = .previous → device.Under Checked (ringAt seq) :=
    fun previous => laterReached (checked previous) lastingChecked after
  obtain ⟨c,committed,reads,clean⟩ := readsCommitted (laterReached reached (fun _ _ _ => trivial) after)
    runs free trusted same got
  rw [stays.bootIds h, ← id] at committed
  exact ⟨c,committed,reads,clean⟩

/- Every page of either boot: a document that the tail takes, whoever logs meanwhile, with
lines that were committed so; and if no one does, the first lines behind `after`. -/
theorem logsServed {q : UrlQuery} {p : Params} {s : Device} {ringAt : UInt32 → Device} {i : LogRingInfo}
    (reason : ResetReason) (now : Micros) (reached : device.Reachable s)
    (checked : p.previous = true → device.Under Checked s) (params : logsParams q = .ok p)
    (json : p.text = false) (found : logRingInfo (which p.previous) s.memory.view s.ram = some i)
    (later : ∀ seq, Later s (ringAt seq) ∧ (ringAt seq).lock = none) :
    ∃ page, Served s ringAt p i.bootId (logsOf q reason now s ringAt) page := by
  have own : ∀ seq out, logRingGet (which p.previous) seq (ringAt seq).memory.view (ringAt seq).ram =
      some out → out.seq = seq := fun _ _ => getOwn
  have trusted : which p.previous = .previous → device.Under Checked s := by
    intro previous
    apply checked
    cases flag : p.previous with
    | true => rfl
    | false =>
      rw [flag] at previous
      exact Which.noConfusion previous
  obtain ⟨chunks,chars,doc,sent,whole,decoded,parsed,valid⟩ := logsAccepted own
    (fun boot => logRingInfo boot s.memory.view s.ram)
    (fun boot seq => logRingGet boot seq (ringAt seq).memory.view (ringAt seq).ram) rfl reason now params json
    found
  have lines := (pageLines own p.after i.oldestSeq i.latestSeq p.limit.toNat).2
  have read : ∀ out ∈ readPage (fun seq => logRingGet (which p.previous) seq (ringAt seq).memory.view
      (ringAt seq).ram) i.latestSeq 4294967296 (firstSeq p.after i.oldestSeq i.latestSeq) p.limit.toNat,
      ∃ c, (i.bootId,c) ∈ (ringAt out.seq).committed ∧ Reads out c ∧ Clean c.text.bytes :=
    fun out mem => readCommitted reached trusted found later (lines out mem).2.2
  refine ⟨_,⟨chunks,chars,doc,sent,whole,decoded,parsed,valid⟩,fun ordinal => LogPage.validatePageNumbers ordinal valid,?_,?_⟩
  · intro line mem
    obtain ⟨out,inside,rfl⟩ := List.mem_map.mp mem
    obtain ⟨c,committed,reads,clean⟩ := read out inside
    refine ⟨c,?_,congrArg UInt32.toNat reads.seq,congrArg UInt32.toNat reads.uptimeMs,?_⟩
    · rw [show (seenLine out).seq = out.seq.toNat from rfl, UInt32.ofNat_toNat]
      exact committed
    · exact (rowCharsClean (reads.text.symm ▸ clean)).trans reads.text
  · intro still
    have same : (fun seq => logRingGet (which p.previous) seq (ringAt seq).memory.view (ringAt seq).ram) =
        fun seq => logRingGet (which p.previous) seq s.memory.view s.ram := by
      funext seq
      exact still seq seq
    rw [← pageReadable p.after p.limit.toNat found, ← same]
    refine (List.map_map ..).trans (List.map_congr_left ?_)
    intro out mem
    obtain ⟨c,_,reads,clean⟩ := read out mem
    exact congrArg (fun text => (out.seq.toNat,out.uptimeMs.toNat,text))
      (rowCharsClean (reads.text.symm ▸ clean))

def twoCalls : List Label :=
  [.init 7,.call 0 (.ingest 5 [0x61,0x0a]) 9,.enter 0] ++ List.replicate 9 .proceed ++
    [.call 1 (.ingest 6 [0x22,0x62,0x0a]) 12,.enter 1] ++ List.replicate 10 .proceed

/- `after=1&limit=5` -/
def afterOne : UrlQuery :=
  ⟨15,true,fun key => if key = "after" then .found [0x31] else if key = "limit" then .found [0x35] else .notFound⟩

theorem logsServedTwo : ∃ s page, s.boot.lines = [⟨1,9,none,[0x61]⟩,⟨2,12,none,[0x22,0x62]⟩] ∧
    Served s (fun _ => s) ⟨1,5,false,false⟩ 7 (logsOf afterOne .sw 0 s (fun _ => s)) page ∧
    page.lines.map tailed = [(2,12,[0x22,0x62])] := by
  have first : device.start (powerOn blank) := ⟨blank,rfl⟩
  have ran : (device.run (powerOn blank) twoCalls).any (fun s => s.lock.isNone &&
      (logRingInfo .current s.memory.view s.ram).any (fun i => i.bootId == 7 && i.oldestSeq == 1 && i.latestSeq == 2) &&
      s.boot.lines == [⟨1,9,none,[0x61]⟩,⟨2,12,none,[0x22,0x62]⟩] &&
      (logRingGet .current 2 s.memory.view s.ram).any (fun out => stored out == (2,12,[0x22,0x62]))) = true := by
    decide +kernel
  obtain ⟨s,reached,ends⟩ := runEnds first ran
  simp only [Bool.and_eq_true,beq_iff_eq,Option.isNone_iff_eq_none,Option.any_eq_true] at ends
  obtain ⟨⟨⟨free,i,found,⟨id,oldest⟩,latest⟩,lines⟩,out,got,row⟩ := ends
  obtain ⟨page,served⟩ := @logsServed afterOne ⟨1,5,false,false⟩ s (fun _ => s) i .sw 0
    reached nofun rfl rfl found (fun _ => ⟨.start rfl,free⟩)
  refine ⟨s,page,lines,id ▸ served,(served.first fun _ _ => rfl).trans ?_⟩
  have two : readPage (fun seq => logRingGet .current seq s.memory.view s.ram) 2 4294967296 2 5 = [out] := by
    have number : (2 : UInt32).toNat = 2 := rfl
    rw [readPageSeqs _ 5 (by decide) (by rw [number]; decide), number, List.range'_one,
      List.filterMap_cons_some (f := fun s' => logRingGet .current (UInt32.ofNat s') s.memory.view s.ram) got]
    rfl
  have start : firstSeq 1 1 2 = 2 := by decide
  have page := pageReadable 1 5 found
  rw [oldest, latest, start, two] at page
  exact (congrArg (List.map stored) page.symm).trans (congrArg (· :: []) row)

/- A memory with a header that is trusted, and a line that no boot has committed. -/
def forged : Cells
  | .magic => ringMagic
  | .layout => ringLayout
  | .bootCount => 1
  | .active => 0
  | .halfMagic _ => halfMagic
  | .halfBootCount _ => 1
  | .bootId _ => 0
  | .seq _ i => if i.val = 0 then 1 else 0
  | .uptimeMs _ _ => 0
  | .check _ _ => checkOf 1 0 0 (List.replicate 100 1)
  | .text _ _ j => if j < 100 then 1 else 0

def forgedLine : LineOut := ⟨1,0,fun j => if j < 100 then 1 else 0⟩

theorem forgedAccepted (h : Half) : accepted h forged (slotIndex 1) := by
  change slotValid ⟨1,0,checkOf 1 0 0 (List.replicate 100 1),fun j => if j < 100 then 1 else 0⟩ 0 = true
  decide +kernel

theorem forgedScan (h : Half) : (scan h forged).1 = 1 := by
  obtain ⟨bounds,source⟩ := scanAll h forged
  have most : 1 ≤ (scan h forged).1 := bounds _ (forgedAccepted h)
  rcases source with none | ⟨i,_,own⟩
  · rw [none] at most
    exact absurd most (by decide)
  · change _ = if i.val = 0 then 1 else 0 at own
    split at own
    · exact own
    · rw [own] at most
      exact absurd most (by decide)

/- What `log_ring_init` makes of it. -/
def recovered : Device := init 7 (powerOn forged)

theorem recoveredGives :
    (∃ i, logRingInfo .previous recovered.memory.view recovered.ram = some i ∧ i.oldestSeq = 1 ∧
      i.latestSeq = 1) ∧
    logRingGet .previous 1 recovered.memory.view recovered.ram = some forgedLine := by
  have trust : trusted forged = true := by decide +kernel
  obtain ⟨prev,latest⟩ : recovered.ram.prev = some (halfOf (forged .active)) ∧
      recovered.ram.prevLatest = (scan (halfOf (forged .active)) forged).1 :=
    @initRamTrusted (powerOn forged).memory .cleared trust
  obtain ⟨slots,id⟩ : (∀ i, slotAt recovered.memory.view (halfOf (forged .active)) i =
        slotAt forged (halfOf (forged .active)) i) ∧
      recovered.memory.view (.bootId (halfOf (forged .active))) =
        forged (.bootId (halfOf (forged .active))) :=
    @initSame (powerOn forged) _ 7 rfl prev
  have apart : some (halfOf (forged .active)) ≠ recovered.ram.cur := by
    rw [show recovered.ram.cur = _ from (initRamCur _ _).1]
    exact fun same => @initApart (powerOn forged).memory trust (Option.some.inj same)
  rw [forgedScan] at latest
  generalize halfOf (forged .active) = h at prev slots id apart
  constructor
  · unfold logRingInfo halfFor
    rw [prev]
    dsimp only
    rw [if_neg apart, latest]
    exact ⟨_,rfl,rfl,rfl⟩
  · have valid : accepted h recovered.memory.view (slotIndex 1) := by
      unfold accepted
      rw [slots, id]
      exact forgedAccepted h
    have reached : 1 ≤ recovered.ram.prevLatest := by
      rw [latest]
      decide
    have near : (recovered.ram.prevLatest - 1).toNat < 1024 := by
      rw [latest]
      decide
    have own : (slotAt recovered.memory.view h (slotIndex 1)).seq = 1 := by
      rw [slots]
      rfl
    rw [getGives prev apart (by decide) valid own reached near, slots]
    rfl

theorem acceptedSame {answer : Response} {after : Nat} {page other : LogPage.Page}
    (first : Accepted answer after page) (second : Accepted answer after other) : page = other := by
  obtain ⟨chunks,chars,doc,sent,_,decoded,parsed,valid⟩ := first
  obtain ⟨chunks',chars',doc',sent',_,decoded',parsed',valid'⟩ := second
  cases List.append_cancel_right (Response.chunked.inj (sent.symm.trans sent')).1
  cases Option.some.inj (decoded.symm.trans decoded')
  cases Option.some.inj (parsed.symm.trans parsed')
  exact Except.ok.inj (valid.symm.trans valid')

def previousQuery : UrlQuery :=
  ⟨13,true,fun key => if key = "boot" then .found (Utf8.encode "previous".toList) else .notFound⟩

theorem readPageOnly {get : UInt32 → Option LineOut} {row : LineOut} (found : get 1 = some row) :
    readPage get 1 4294967296 1 200 = [row] := by
  have one : (1 : UInt32).toNat = 1 := rfl
  rw [readPageSeqs get 200 (by decide) (by rw [one]; decide), one, List.range'_one,
    List.filterMap_cons_some (f := fun s => get (UInt32.ofNat s)) found]
  rfl

/- Where the check accepts what no boot has committed, its text is cut on the page of the
previous boot. -/
theorem forgedCut : ∃ s i p, device.Reachable s ∧ s.lock = none ∧ logsParams previousQuery = .ok p ∧
    p.text = false ∧ logRingInfo (which p.previous) s.memory.view s.ram = some i ∧
    ∀ reason now page,
      Accepted (logsOf previousQuery reason now s (fun _ => s)) p.after.toNat page →
      (¬∀ line ∈ page.lines, CommittedAs s i.bootId line) ∧
        page.lines.map tailed ≠ (((readable (which p.previous) s).filter
          (fun out => p.after.toNat < out.seq.toNat)).take p.limit.toNat).map stored := by
  obtain ⟨⟨i,found,oldest,latest⟩,got⟩ := recoveredGives
  have ran : device.run (powerOn forged) [.init 7] = some recovered := rfl
  have reached : device.Reachable recovered := reachableRun (.start ⟨forged,rfl⟩) ran
  obtain ⟨p,record⟩ : ∃ p : Params, p = ⟨0,200,true,false⟩ := ⟨_,rfl⟩
  have params : logsParams previousQuery = .ok p := record ▸ rfl
  have boot : which p.previous = .previous := record ▸ rfl
  have json : p.text = false := record ▸ rfl
  rw [← boot] at found got
  refine ⟨recovered,i,p,reached,rfl,params,json,found,?_⟩
  intro reason now page accepted
  obtain ⟨chunks,chars,doc,sent,whole,decoded,parsed,valid⟩ := logsAccepted (fun _ _ => getOwn)
    (fun boot => logRingInfo boot recovered.memory.view recovered.ram)
    (fun boot seq => logRingGet boot seq recovered.memory.view recovered.ram) rfl reason now params json found
  have lines : readPage (fun seq => logRingGet (which p.previous) seq recovered.memory.view recovered.ram)
      i.latestSeq 4294967296 (firstSeq p.after i.oldestSeq i.latestSeq) p.limit.toNat = [forgedLine] := by
    have start : firstSeq p.after 1 1 = 1 := record ▸ rfl
    have limit : p.limit.toNat = 200 := record ▸ rfl
    rw [oldest, latest, start, limit]
    exact readPageOnly got
  have page := acceptedSame accepted ⟨chunks,chars,doc,sent,whole,decoded,parsed,valid⟩
  rw [← pageReadable p.after p.limit.toNat found]
  rw [lines] at page ⊢
  subst page
  constructor
  · intro all
    obtain ⟨c,committed,_⟩ := all (seenLine forgedLine) List.mem_cons_self
    exact List.not_mem_nil committed
  · intro same
    have lengths : (Utf8.encode (rowChars forgedLine)).length = (cString forgedLine.text).length :=
      congrArg (fun row : Nat × Nat × List UInt8 => row.2.2.length) (List.cons.inj same).1
    revert lengths
    decide +kernel

end EpskcCommissioner.RestLogsServed
