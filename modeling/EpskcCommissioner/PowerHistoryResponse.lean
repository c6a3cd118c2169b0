import EpskcCommissioner.PowerHistory

/-! The response of `h_power_history` over a log of samples: its chunks, and what the recorder
makes of them. -/
namespace EpskcCommissioner.PowerHistoryResponse
open WifiDriver (EspErr espOk espFail)
open Decimal Paging PowerRead PowerLog PowerHistory BatteryPage

section
variable {bootId : UInt64} {notes : List Note} (few : notes.length < 4294967296)
include few

theorem infoNoted : ∃ info, powerLogInfo (some (noted bootId notes)) = some info ∧
    info.latestSeq.toNat = notes.length ∧
    info.oldestSeq.toNat = if notes = [] then 0 else notes.length - powerLogCapacity + 1 := by
  have holds := notedHolds bootId few
  have capacity : powerLogCapacity = 8640 := rfl
  refine ⟨_,rfl,holds.latest,?_⟩
  have countLe : (noted bootId notes).count ≤ (noted bootId notes).latest := by
    rw [UInt32.le_iff_toNat_le, holds.count, holds.latest]
    omega
  by_cases none : notes = []
  · have zero : (noted bootId notes).count = 0 := by
      apply UInt32.toNat_inj.mp
      rw [holds.count, none]
      rfl
    rw [if_pos none, if_neg (not_not.mpr zero)]
    rfl
  · have some : 0 < notes.length := List.length_pos_iff.mpr none
    have nonzero : (noted bootId notes).count ≠ 0 := by
      intro zero
      have count := holds.count
      rw [zero, UInt32.toNat_zero] at count
      omega
    rw [if_neg none, if_pos nonzero, UInt32.toNat_add, UInt32.toNat_sub_of_le _ _ countLe, holds.latest,
      holds.count, UInt32.toNat_one, Nat.mod_eq_of_lt (by omega)]
    omega

theorem pageNoted {info : Info} (found : powerLogInfo (some (noted bootId notes)) = some info)
    (after : UInt32) (limit : Nat) :
    readPage (fun seq => powerLogGet seq (some (noted bootId notes))) info.latestSeq 4294967296
        (firstSeq after info.oldestSeq info.latestSeq) limit =
      ((wanted notes after.toNat).map (fun s => rowAt (notes.getD (s - 1) default) s)).take limit := by
  obtain ⟨_,same,latest,oldest⟩ := @infoNoted bootId notes few
  cases Option.some.inj (found.symm.trans same)
  have numbers : (List.range' 1 notes.length).filter
      (fun s => max (after.toNat + 1) info.oldestSeq.toNat ≤ s) = wanted notes after.toNat := by
    rw [oldest]
    split
    · rename_i none
      rw [none]
      rfl
    · rfl
  rw [pageRows _ _ (by omega), latest, numbers, ← List.filterMap_eq_map]
  congr 1
  apply List.filterMap_congr
  intro s mem
  obtain ⟨inside,behind⟩ := List.mem_filter.mp mem
  have range := List.mem_range'_1.mp inside
  have recent := of_decide_eq_true behind
  obtain ⟨i,rfl⟩ : ∃ i, s = i + 1 := ⟨s - 1,by omega⟩
  have here : notes[i]? = some (notes.getD i default) := by
    rw [List.getD_eq_getElem?_getD, List.getElem?_eq_getElem (by omega)]
    rfl
  rw [getNoted few here, if_pos (by omega)]
  rfl

theorem foundNoted {seq : UInt32} {row : PowerLog.Sample}
    (found : powerLogGet seq (some (noted bootId notes)) = some row) :
    ∃ n ∈ notes, row = rowAt n seq.toNat := by
  have latest := (notedHolds bootId few).latest
  have numbered : seq ≠ 0 ∧ seq ≤ (noted bootId notes).latest := by
    unfold powerLogGet at found
    dsimp only at found
    split at found
    · rename_i inside
      exact ⟨inside.1,inside.2.1⟩
    · exact absurd found.symm (Option.some_ne_none row)
  have nonzero : seq.toNat ≠ 0 := fun zero => numbered.1 (UInt32.toNat_inj.mp zero)
  have inside := UInt32.le_iff_toNat_le.mp numbered.2
  obtain ⟨i,number⟩ : ∃ i, seq.toNat = i + 1 := ⟨seq.toNat - 1,by omega⟩
  have short : i < notes.length := by omega
  have get := @getNoted bootId notes few i _ (List.getElem?_eq_getElem short)
  rw [← number, UInt32.ofNat_toNat, found] at get
  split at get
  · exact ⟨notes[i],List.getElem_mem short,Option.some.inj get⟩
  · exact absurd get (Option.some_ne_none row)

end

theorem boolLength (b : Bool) : (bool b).length ≤ 5 := by
  cases b <;> decide

theorem numberLength (v : Int16) (invalid : Int) : (number v.toInt invalid).length ≤ 6 := by
  have low := v.le_toInt
  have high := v.toInt_lt
  unfold number
  split
  · decide
  · exact signedLength (k := 5) (by decide) (by omega)

theorem byteLength (b : UInt8) : (digits b.toNat).length ≤ 3 :=
  digitsLength (by decide) (Nat.lt_trans b.toNat_lt (by decide))

theorem wordLength (n : UInt32) : (digits n.toNat).length ≤ 10 :=
  digitsLength (by decide) (Nat.lt_trans n.toNat_lt (by decide))

theorem timeLength (t : Micros) : (digits (t.val / 1000)).length ≤ 19 :=
  digitsLength (by decide) (Nat.lt_of_le_of_lt (Nat.div_le_self _ _) (Nat.lt_trans t.isLt (by decide)))

theorem rowTextLength (n : Note) (seq : Nat) : (rowText (rowAt n seq)).length < 512 := by
  have numbers := fun v => numberLength v (-1)
  have time : (digits (rowAt n seq).uptimeMs).length ≤ 19 := timeLength n.micros
  unfold rowText
  generalize rowAt n seq = s at time ⊢
  have seq := wordLength s.seq
  have percent := numbers s.percent
  have batt := numbers s.battMv
  have vbus := numbers s.vbusMv
  have vsys := numbers s.vsysMv
  have temp := numberLength s.pmicTempC (-32768)
  have screen := byteLength s.screenPercent
  have st1 := byteLength s.rawSt1
  have st2 := byteLength s.rawSt2
  have valid := boolLength s.valid
  have present := boolLength s.present
  have usb := boolLength s.usb
  have charging := boolLength s.charging
  have full := boolLength s.full
  have estimated := boolLength s.estimated
  simp only [List.length_append, String.reduceToList, List.length_cons, List.length_nil, Nat.reduceAdd]
  omega

theorem rowWhole (n : Note) (seq : Nat) : powerLogJson (rowAt n seq) 512 = rowText (rowAt n seq) :=
  if_pos (rowTextLength n seq)

theorem rowSome (s : PowerLog.Sample) : rowText s ≠ [] := by
  rw [← rowDocText]
  exact Json.textSome _

theorem headLength (info : Info) (now : Micros) :
    0 < (historyHead info now).length ∧ (historyHead info now).length < 512 := by
  have time := timeLength now
  have capacity : (digits powerLogCapacity).length ≤ 10 := digitsLength (by decide) (by decide)
  have oldest := wordLength info.oldestSeq
  have latest := wordLength info.latestSeq
  have boot : (hex16 info.bootId).length = 16 := by rw [hex16, List.length_map, List.length_range]
  unfold historyHead
  simp only [List.length_append, String.reduceToList, List.length_cons, List.length_nil, Nat.reduceAdd]
  omega

/- The chunks of the rows, each behind one with its comma but the first. -/
def rowChunks : (first : Bool) → List PowerLog.Sample → List (List Char)
  | _, [] => []
  | true, row :: rows => rowText row :: rowChunks false rows
  | false, row :: rows => [','] :: rowText row :: rowChunks false rows

theorem sendRowsAll {chunks : List (List Char)} {first : Bool} {rows : List PowerLog.Sample}
    (whole : ∀ row ∈ rows, powerLogJson row 512 = rowText row) :
    sendRows (fun _ => espOk) chunks first rows = (chunks ++ rowChunks first rows,espOk) := by
  induction rows generalizing chunks first with
  | nil => simp [sendRows,rowChunks]
  | cons row rows ih =>
    obtain ⟨here,rest⟩ := List.forall_mem_cons.mp whole
    cases first with
    | true => simp [sendRows,rowChunks,here,rowSome,ih rest]
    | false => simp [sendRows,rowChunks,here,rowSome,ih rest]

theorem rowChunksJoined (row : PowerLog.Sample) (rows : List PowerLog.Sample) :
    rowText row ++ (rowChunks false rows).flatten = [','].intercalate ((row :: rows).map rowText) := by
  induction rows generalizing row with
  | nil => simp [rowChunks]
  | cons next rows ih =>
    rw [List.map_cons, List.map_cons, List.intercalate_cons_cons, ← List.map_cons, ← ih next]
    simp [rowChunks]

theorem rowChunksFlatten (rows : List PowerLog.Sample) :
    (rowChunks true rows).flatten = [','].intercalate (rows.map rowText) := by
  cases rows with
  | nil => rfl
  | cons row rows => exact rowChunksJoined row rows

theorem rowChunksSome {first : Bool} {rows : List PowerLog.Sample} :
    ∀ chunk ∈ rowChunks first rows, chunk ≠ [] := by
  induction rows generalizing first with
  | nil => simp [rowChunks]
  | cons row rows ih => cases first <;> simpa [rowChunks,rowSome] using ih

theorem sendHistoryAll {info : Info} {now : Micros} {rows : List PowerLog.Sample}
    (whole : ∀ row ∈ rows, powerLogJson row 512 = rowText row) :
    ∃ chunks, sendHistory (fun _ => espOk) (historyHead info now) rows = (chunks ++ [[]],espOk) ∧
      (∀ chunk ∈ chunks, chunk ≠ []) ∧ chunks.flatten = Json.text (pageDoc info now rows) := by
  refine ⟨historyHead info now :: (rowChunks true rows ++ ["]\x7d".toList]),?_,?_,?_⟩
  · simp [sendHistory,sendRowsAll whole]
  · refine List.forall_mem_cons.mpr ⟨?_,List.forall_mem_append.mpr ⟨rowChunksSome,?_⟩⟩
    · exact List.ne_nil_of_length_pos (headLength info now).1
    · exact List.forall_mem_singleton.mpr (by decide)
  · simp only [pageDocText, List.flatten_cons, List.flatten_append, rowChunksFlatten, List.append_assoc,
      List.flatten_nil, List.append_nil]

/- The log after these calls, from `power_log_init` on. -/
def logAfter (bootId : UInt64) (notes : List Note) : Option Log :=
  notes.foldl (fun log n => log.map (powerLogNote n)) (powerLogInit true bootId none)

theorem logAfterNoted (bootId : UInt64) (notes : List Note) :
    logAfter bootId notes = some (noted bootId notes) := by
  induction notes using List.reverseRecOn with
  | nil => rfl
  | append_singleton notes n ih =>
    rw [notedAppend, logAfter, List.foldl_append, ← logAfter, ih]
    rfl

section
variable {notes : List Note} {now : Micros} (few : notes.length < 4294967296)
include few

theorem wantedSeen (ranges : ∀ n ∈ notes, n.status.InRange) (after limit : Nat) :
    (((wanted notes after).map (fun s => rowAt (notes.getD (s - 1) default) s)).take limit).map seen =
      ((retained notes).filter (fun s => after < s.seq)).take limit := by
  rw [retainedAfter, List.map_take, List.map_map]
  congr 1
  apply List.map_congr_left
  intro s mem
  have range := List.mem_range'_1.mp (List.mem_filter.mp mem).1
  obtain ⟨i,rfl⟩ : ∃ i, s = i + 1 := ⟨s - 1,by omega⟩
  have here : notes.getD i default ∈ notes := by
    rw [List.getD_eq_getElem?_getD, List.getElem?_eq_getElem (by omega)]
    exact List.getElem_mem _
  exact seenRow (ranges _ here) (by omega)

theorem wantedValid (ranges : ∀ n ∈ notes, n.status.InRange) (clock : ∀ n ∈ notes, n.micros ≤ now)
    (after limit : Nat) {rows : List PowerLog.Sample}
    (page : rows = ((wanted notes after).map (fun s => rowAt (notes.getD (s - 1) default) s)).take limit) :
    rows.Pairwise (fun s t => s.seq.toNat < t.seq.toNat) ∧
      ∀ s ∈ rows, RowInRange s ∧ 0 < s.seq.toNat ∧
        (if notes = [] then 0 else notes.length - powerLogCapacity + 1) ≤ s.seq.toNat ∧
        s.seq.toNat ≤ notes.length ∧ s.uptimeMs ≤ now.val / 1000 := by
  have number : ∀ s ∈ wanted notes after, s < 4294967296 := by
    intro s mem
    have range := List.mem_range'_1.mp (List.mem_filter.mp mem).1
    omega
  rw [page]
  constructor
  · have ordered : (wanted notes after).Pairwise (· < ·) :=
      List.Pairwise.filter _ List.pairwise_lt_range'
    refine List.Pairwise.take (List.pairwise_map.mpr (ordered.imp_of_mem ?_))
    intro s t first second before
    change (UInt32.ofNat s).toNat < (UInt32.ofNat t).toNat
    rw [UInt32.toNat_ofNat_of_lt' (number s first), UInt32.toNat_ofNat_of_lt' (number t second)]
    exact before
  · intro row mem
    obtain ⟨s,inside,rfl⟩ := List.mem_map.mp (List.mem_of_mem_take mem)
    obtain ⟨listed,behind⟩ := List.mem_filter.mp inside
    have range := List.mem_range'_1.mp listed
    have recent := of_decide_eq_true behind
    have seq : (rowAt (notes.getD (s - 1) default) s).seq.toNat = s :=
      UInt32.toNat_ofNat_of_lt' (number s inside)
    have here : notes.getD (s - 1) default ∈ notes := by
      rw [List.getD_eq_getElem?_getD, List.getElem?_eq_getElem (by omega)]
      exact List.getElem_mem _
    rw [seq]
    refine ⟨rowInRange (ranges _ here) s,by omega,?_,by omega,Nat.div_le_div_right (clock _ here)⟩
    split <;> omega

end

/- What is sent for any page is one document that the recorder takes, with the first samples of
those that are retained behind `after`, and every row is sent whole. -/
theorem historyAccepted {bootId : UInt64} {notes : List Note} {now : Micros} {q : UrlQuery}
    {after limit : UInt32} (few : notes.length < 4294967296)
    (clock : (notes.map (·.micros) ++ [now]).Pairwise (· ≤ ·))
    (ranges : ∀ n ∈ notes, n.status.InRange) (params : historyParams q = .ok (after,limit)) :
    ∃ chunks doc page,
      hPowerHistory q (logAfter bootId notes) (fun _ => logAfter bootId notes) now (fun _ => espOk) =
        .chunked (chunks ++ [[]]) espOk ∧
      (∀ chunk ∈ chunks, chunk ≠ []) ∧
      Json.parse chunks.flatten = some doc ∧ validatePage doc = .ok page ∧
      page.samples = ((retained notes).filter (fun s => after.toNat < s.seq)).take limit.toNat ∧
      ∀ seq row, powerLogGet seq (logAfter bootId notes) = some row →
        powerLogJson row 512 = rowText row := by
  have before : ∀ n ∈ notes, n.micros ≤ now := by
    intro n mem
    exact (List.pairwise_append.mp clock).2.2 _ (List.mem_map_of_mem mem) now (List.mem_singleton.mpr rfl)
  obtain ⟨info,found,latest,oldest⟩ := @infoNoted bootId notes few
  rw [logAfterNoted]
  have page := pageNoted few found after limit.toNat
  generalize listed : readPage (fun seq => powerLogGet seq (some (noted bootId notes))) info.latestSeq
    4294967296 (firstSeq after info.oldestSeq info.latestSeq) limit.toNat = rows at page
  obtain ⟨ordered,valid⟩ := wantedValid few ranges before after.toNat limit.toNat page
  have rowsWhole : ∀ seq row, powerLogGet seq (some (noted bootId notes)) = some row →
      powerLogJson row 512 = rowText row := by
    intro seq row get
    obtain ⟨n,_,rfl⟩ := foundNoted few get
    exact rowWhole n seq.toNat
  have sendWhole : ∀ row ∈ rows, powerLogJson row 512 = rowText row := by
    intro row mem
    rw [page] at mem
    obtain ⟨s,_,rfl⟩ := List.mem_map.mp (List.mem_of_mem_take mem)
    exact rowWhole _ s
  obtain ⟨chunks,sent,some,body⟩ := @sendHistoryAll info now rows sendWhole
  have count : rows.length ≤ 120 := by
    rw [page]
    exact Nat.le_trans (List.length_take_le _ _) (historyParamsMost params)
  refine ⟨chunks,pageDoc info now rows,seenPage info now rows,?_,some,?_,?_,?_,rowsWhole⟩
  · simp only [hPowerHistory,params,found,listed,sent]
  · rw [body, Json.parseText]
  · apply validatePageDoc _ count ordered
    · rw [oldest, latest]
      exact valid
    · rw [oldest, latest]
      have capacity : powerLogCapacity = 8640 := rfl
      split
      · exact Nat.zero_le _
      · rename_i some
        have := List.length_pos_iff.mpr some
        omega
  · rw [seenPage, page]
    exact wantedSeen few ranges _ _

/- A sample on battery, and one that the AXP2101 did not answer for. -/
def onBattery : Note where
  status := {unread with percent := 74, battMv := 3942, vsysMv := 3930, present := true}
  result := espOk
  screenPercent := 20
  micros := ⟨61000000,by decide⟩

def unanswered : Note := ⟨unread,espFail,200,⟨71000000,by decide⟩⟩

def laterQuery : UrlQuery where
  length := 15
  copied := true
  key := fun key => .found (if key = "after" then digitBytes 1 else digitBytes 5)

theorem historyAcceptedLater : ∃ chunks doc page,
    hPowerHistory laterQuery (logAfter 7 [onBattery,unanswered]) (fun _ => logAfter 7 [onBattery,unanswered])
      ⟨90000000,by decide⟩ (fun _ => espOk) = .chunked (chunks ++ [[]]) espOk ∧
    Json.parse chunks.flatten = some doc ∧ validatePage doc = .ok page ∧
    page.samples = [expected unanswered 2] := by
  have pair : pageParams 120 "limit must be 1..120" laterQuery = .ok (1,5) :=
    pageParamsDigits (by decide) (by decide) rfl rfl
  have params : historyParams laterQuery = .ok (1,5) := pair
  have ranges : ∀ n ∈ [onBattery,unanswered], n.status.InRange := by
    intro n mem
    rcases List.mem_pair.mp mem with rfl | rfl
    · exact ⟨.inr (by decide),.inr (by decide),.inl rfl,.inr (by decide),.inl rfl⟩
    · exact unreadInRange
  obtain ⟨chunks,doc,page,sent,_,parsed,checked,samples,_⟩ :=
    @historyAccepted 7 _ ⟨90000000,by decide⟩ _ _ _ (by decide) (by decide) ranges params
  exact ⟨chunks,doc,page,sent,parsed,checked,samples⟩

end EpskcCommissioner.PowerHistoryResponse
