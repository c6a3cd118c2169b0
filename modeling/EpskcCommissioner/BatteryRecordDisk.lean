import EpskcCommissioner.BatteryRecord

/-! What the recorder finds in its CSV: the complete rows, with a partial one behind them that
the truncation takes away, are read back to the values that were written. -/
namespace EpskcCommissioner.BatteryRecord
open Decimal Json BatteryPage UtcTime

def Row.battery (row : Row) : Bool := onBattery row.sample.valid row.sample.present row.sample.usb

def summary (rows : List Row) : Recorder where
  bootId := rows.getLast?.map (fun row => .text row.bootId)
  lastSeq := (rows.getLast?.map (fun row => (row.sample.seq : Int))).getD 0
  count := rows.length
  batteryCount := rows.countP Row.battery

def complete (csv : List Char) : List Char := (csv.reverse.dropWhile (· != '\n')).reverse

/- The complete rows of a CSV: nothing where its first line is not complete. -/
def OnDisk (csv : List Char) (rows : List Row) : Prop :=
  (complete csv = [] ∧ rows = []) ∨ Csv.records (complete csv) = fields :: rows.map Row.cells

/- Cells that are on one line and short enough for the tail that the truncation looks at. -/
def Row.Fits (row : Row) : Prop := ∀ cell ∈ row.cells, cell.length ≤ 40 ∧ '\n' ∉ cell

def wholeText (rows : List Row) : List Char := headerLine ++ rows.flatMap Row.line

theorem parseBoolCell (b : Bool) : parseBool (boolCell b) = .ok b := by
  cases b <;> rfl

theorem parseIntSigned (n : Int) : parseInt (signed n) = .ok (some n) := by
  obtain ⟨c,cs,found,_⟩ := signedHead n
  rw [parseInt, if_neg (by rw [found]; exact List.cons_ne_nil c cs), readIntegerSigned]

theorem parseIntDigits (n : Nat) : parseInt (digits n) = .ok (some (n : Int)) := parseIntSigned n

theorem parseIntOption (m : Option Int) : parseInt (optionCell m) = .ok m := by
  cases m with
  | none => rfl
  | some n => exact parseIntSigned n

theorem readRowCells (r : Recorder) (row : Row) :
    readRow r row.cells = .ok ⟨some (.text row.bootId),row.sample.seq,r.count + 1,
      r.batteryCount + row.battery.toNat⟩ := by
  simp only [Row.cells,sampleCells,readRow,parseIntDigits,parseIntOption,parseBoolCell,bind,Except.bind]
  rfl

theorem readRows (rows : List Row) (before : List Row) :
    (rows.map Row.cells).foldlM readRow (summary before) = .ok (summary (before ++ rows)) := by
  induction rows generalizing before with
  | nil => rw [List.append_nil]; rfl
  | cons row rows ih =>
    have step : readRow (summary before) row.cells = .ok (summary (before ++ [row])) := by
      rw [readRowCells]
      cases found : row.battery <;>
        simp [summary,List.countP_append,found]
    rw [List.map_cons, List.foldlM_cons, step]
    have rest := ih (before ++ [row])
    rw [List.append_assoc] at rest
    exact rest

def CellFits (cell : List Char) : Prop := cell.length ≤ 40 ∧ '\n' ∉ cell

theorem digitsFit {n : Nat} (small : n < 10 ^ 40) : CellFits (digits n) :=
  ⟨digitsLength (by decide) small,newlineNoDigit (fun _ mem => .inr (digitsAll mem))⟩

theorem boolFits (b : Bool) : CellFits (boolCell b) := by
  cases b <;> exact ⟨by decide,by decide⟩

theorem optionFits {m : Option Int} (small : ∀ n ∈ m, -32767 ≤ n ∧ n ≤ 32767) :
    CellFits (optionCell m) := by
  cases m with
  | none => exact ⟨Nat.zero_le _,List.not_mem_nil⟩
  | some n =>
    obtain ⟨low,high⟩ := small n rfl
    have bound : n.natAbs < 10 ^ 39 := by omega
    exact ⟨signedLength (by decide) bound,newlineNoDigit (fun _ mem => signedAll mem)⟩

theorem bootFits {boot : List Char} (isBoot : isBootId boot = true) : CellFits boot := by
  obtain ⟨long,hex⟩ := Bool.and_eq_true_iff.mp isBoot
  refine ⟨by rw [beq_iff_eq.mp long]; decide,fun mem => ?_⟩
  exact absurd (List.all_eq_true.mp hex '\n' mem) (by decide)

theorem rowFits {page : Page} (valid : page.Valid) {s : Sample} (sample : s.Valid page)
    (estimate received : Time) : Row.Fits ⟨page.bootId.shown,estimate,received,s⟩ := by
  have seq : s.seq < 10 ^ 40 :=
    Nat.lt_of_le_of_lt (Nat.le_trans sample.latest valid.latest) (by decide)
  have uptime : s.uptimeMs < 10 ^ 40 :=
    Nat.lt_trans (Nat.lt_of_le_of_lt sample.uptime valid.uptime) (by decide)
  have register : ∀ r ∈ [s.screenPercent,s.rawSt1,s.rawSt2], r < 10 ^ 40 :=
    fun r mem => Nat.lt_of_le_of_lt (sample.registers r mem) (by decide)
  have measured := sample.measurements
  simp only [List.forall_mem_cons] at measured register
  obtain ⟨percent,batt,vbus,vsys,temp,_⟩ := measured
  obtain ⟨screen,st1,st2,_⟩ := register
  simp only [Row.Fits,Row.cells,sampleCells,List.forall_mem_cons]
  exact ⟨bootFits valid.boot,isoformatFits _,isoformatFits _,digitsFit seq,digitsFit uptime,boolFits _,
    optionFits percent,optionFits batt,optionFits vbus,optionFits vsys,optionFits temp,boolFits _,
    boolFits _,boolFits _,boolFits _,boolFits _,digitsFit screen,digitsFit st1,digitsFit st2,
    List.forall_mem_nil _⟩

theorem cellsSome (row : Row) : row.cells ≠ [] := List.cons_ne_nil _ _

theorem recordsWhole (rows : List Row) :
    Csv.records (wholeText rows) = fields :: rows.map Row.cells := by
  have lines : rows.flatMap Row.line = (rows.map Row.cells).flatMap Csv.recordText := by
    rw [List.flatMap_map]
    rfl
  rw [wholeText, headerLine, Csv.recordsCons (by decide), lines]
  congr 1
  apply Csv.recordsText
  intro record mem
  obtain ⟨row,_,rfl⟩ := List.mem_map.mp mem
  exact cellsSome row

theorem rfindBefore {torn : List Char} (oneLine : '\n' ∉ torn) (front : List Char) :
    rfindNewline (front ++ '\n' :: torn) = some front.length := by
  have found : (torn.reverse ++ '\n' :: front.reverse).findIdx? (· == '\n') = some torn.length := by
    rw [List.findIdx?_append]
    have none : torn.reverse.findIdx? (· == '\n') = none := by
      rw [List.findIdx?_eq_none_iff]
      intro c mem
      exact beq_eq_false_iff_ne.mpr (fun same => oneLine (same ▸ List.mem_reverse.mp mem))
    rw [none, List.findIdx?_cons, if_pos (beq_self_eq_true _), List.length_reverse]
    simp
  rw [rfindNewline, List.reverse_append, List.reverse_cons, List.append_assoc, List.singleton_append,
    found]
  simp only [Option.map_some,List.length_append,List.length_cons]
  congr 1
  omega

theorem truncatedTorn {torn : List Char} (front : List Char) (oneLine : '\n' ∉ torn)
    (short : torn.length < 4096) : truncated (front ++ '\n' :: torn) = .ok (front ++ ['\n']) := by
  let k := (front ++ '\n' :: torn).length - 4096
  have inFront : k ≤ front.length := by
    simp only [k,List.length_append,List.length_cons]
    omega
  have tail : (front ++ '\n' :: torn).drop k = front.drop k ++ '\n' :: torn :=
    List.drop_append_of_le_length inFront
  unfold truncated
  dsimp only
  rw [tail]
  cases torn with
  | nil => rw [if_pos (by simp)]
  | cons c torn =>
    have last : (front.drop k ++ '\n' :: c :: torn).getLast? ≠ some '\n' := by
      rw [List.getLast?_append_of_ne_nil _ (List.cons_ne_nil _ _), List.getLast?_cons_cons]
      exact fun same => oneLine (List.mem_of_getLast? same)
    rw [if_neg last, rfindBefore oneLine]
    dsimp only
    have position : (front ++ '\n' :: c :: torn).length -
        (front.drop k ++ '\n' :: c :: torn).length + (front.drop k).length + 1 = front.length + 1 := by
      simp only [List.length_append,List.length_cons,List.length_drop]
      omega
    have halves : front ++ '\n' :: c :: torn = front ++ ['\n'] ++ c :: torn := by simp
    rw [position, halves, List.take_left' (by simp)]

theorem completeTorn {torn : List Char} (front : List Char) (oneLine : '\n' ∉ torn) :
    complete (front ++ '\n' :: torn) = front ++ ['\n'] := by
  have dropped : (torn.reverse ++ '\n' :: front.reverse).dropWhile (· != '\n') = '\n' :: front.reverse := by
    rw [List.dropWhile_append_of_pos]
    · rfl
    · intro c mem
      exact bne_iff_ne.mpr (fun same => oneLine (same ▸ List.mem_reverse.mp mem))
  rw [complete, List.reverse_append, List.reverse_cons, List.append_assoc, List.singleton_append,
    dropped]
  simp

theorem wholeEnds {rows : List Row} (fits : ∀ row ∈ rows, row.Fits) :
    ∃ front, wholeText rows = front ++ ['\n'] := by
  rcases List.eq_nil_or_concat rows with rfl | ⟨before,row,rfl⟩
  · obtain ⟨body,line,_⟩ := Csv.recordLine (show ∀ field ∈ fields, '\n' ∉ field by decide +kernel)
    exact ⟨body,(List.append_nil _).trans line⟩
  · obtain ⟨body,line,_⟩ := Csv.recordLine
      (fun cell mem => (fits row (by simp) cell mem).2)
    refine ⟨headerLine ++ before.flatMap Row.line ++ body,?_⟩
    rw [wholeText, List.concat_eq_append, List.flatMap_append, List.flatMap_singleton, Row.line, line]
    simp

theorem lineShort {row : Row} (fits : row.Fits) : row.line.length < 4096 := by
  have short := Csv.recordLength (fun cell mem => (fits cell mem).1)
  have count : row.cells.length = 19 := rfl
  rw [count] at short
  exact Nat.lt_of_le_of_lt short (by decide)

/- A recorder that starts on complete rows and a partial one takes the partial one away and
knows what the complete ones say. -/
theorem initTorn {rows : List Row} {torn : List Char} (fits : ∀ row ∈ rows, row.Fits)
    (oneLine : '\n' ∉ torn) (short : torn.length < 4096) :
    init (wholeText rows ++ torn) = .ok (wholeText rows,summary rows) := by
  obtain ⟨front,ends⟩ := wholeEnds fits
  have text : wholeText rows ++ torn = front ++ '\n' :: torn := by rw [ends]; simp
  have some : wholeText rows ++ torn ≠ [] := by rw [text]; simp
  have rest : (rows.map Row.cells).filter (· ≠ []) = rows.map Row.cells := by
    rw [List.filter_eq_self]
    intro cells mem
    obtain ⟨row,_,rfl⟩ := List.mem_map.mp mem
    exact decide_eq_true (cellsSome row)
  have read := readRows rows []
  have records := recordsWhole rows
  rw [List.nil_append] at read
  rw [ends] at records
  rw [init, if_neg some, text, truncatedTorn front oneLine short]
  simp only [bind,Except.bind,records,ne_eq,not_true_eq_false,if_false,rest]
  rw [show newRecorder = summary [] from rfl, read, ends]

theorem onDiskTorn {rows : List Row} {torn : List Char} (fits : ∀ row ∈ rows, row.Fits)
    (oneLine : '\n' ∉ torn) : OnDisk (wholeText rows ++ torn) rows := by
  obtain ⟨front,ends⟩ := wholeEnds fits
  have text : wholeText rows ++ torn = front ++ '\n' :: torn := by rw [ends]; simp
  right
  rw [text, completeTorn front oneLine, ← ends]
  exact recordsWhole rows

end EpskcCommissioner.BatteryRecord
