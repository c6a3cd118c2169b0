import EpskcCommissioner.BatteryRecordDisk

/-! Runs of the recorder: pages are fed to it, its process is killed in the middle of what it
writes, and it is started again on what is on disk. What is stored after any such run. -/
namespace EpskcCommissioner.BatteryRecord
open Decimal Json BatteryPage UtcTime

/- No recorder: the process is not running. -/
structure System where
  disk : Disk
  recorder : Option Recorder
  deriving DecidableEq, Repr

/- The disk when the process is killed after `whole` writes, with `cut` characters of the next
one there if it goes to the CSV. -/
def killedAt (d : Disk) : List Write → (whole cut : Nat) → Disk
  | [], _, _ => d
  | w :: ws, whole + 1, cut => killedAt (perform d w) ws whole cut
  | .event _ :: _, 0, _ => d
  | .csv text :: _, 0, cut => {d with csv := d.csv ++ text.take cut}

inductive Op where
  | start
  | ingest (page : Value) (received : Time)
  | kill (page : Value) (received : Time) (whole cut : Nat)

def step (s : System) : Op → System
  | .start =>
    match init s.disk.csv with
    | .ok (csv,r) => ⟨{s.disk with csv},some r⟩
    | .error _ => {s with recorder := none}
  | .ingest page received =>
    match s.recorder with
    | none => s
    | some r =>
      let out := ingest s.disk.csv r page received
      ⟨out.writes.foldl perform s.disk,some out.recorder⟩
  | .kill page received whole cut =>
    match s.recorder with
    | none => s
    | some r => ⟨killedAt s.disk (ingest s.disk.csv r page received).writes whole cut,none⟩

def run : System → List Op → System
  | s, [] => s
  | s, op :: ops => run (step s op) ops

def empty : System := ⟨⟨[],[]⟩,none⟩

def bootOf (page : Value) : List BootId :=
  match validatePage page with
  | .error _ => []
  | .ok page => [page.bootId]

def fed (s : System) : Op → List BootId
  | .start => []
  | .ingest page _ | .kill page _ _ _ => if s.recorder.isSome then bootOf page else []

def allFed : System → List Op → List BootId
  | _, [] => []
  | s, op :: ops => fed s op ++ allFed (step s op) ops

/- A boot ID that was followed by another one does not come again. -/
def NeverReturns (boots : List BootId) : Prop :=
  ∀ early b c later, boots = early ++ b :: c :: later → b ≠ c → b ∉ c :: later

def HeaderWhole (csv : List Char) : Prop := csv = [] ∨ headerLine <+: csv

/- A kill leaves the header line whole, or no text at all. -/
def HeaderLeft (s : System) : Op → Prop
  | .kill page received whole cut => HeaderWhole (step s (.kill page received whole cut)).disk.csv
  | _ => True

def HeaderKept : System → List Op → Prop
  | _, [] => True
  | s, op :: ops => HeaderLeft s op ∧ HeaderKept (step s op) ops

/- A missing_samples event names a gap of this boot that has `seq` in it. -/
def Covered (events : List Event) (boot : List Char) (seq : Nat) : Prop :=
  ∃ b expected available, Event.missingSamples b expected available ∈ events ∧ b.shown = boot ∧
    expected ≤ (seq : Int) ∧ seq < available

def Stored (rows : List Row) (boot : List Char) (seq : Nat) : Prop :=
  ∃ row ∈ rows, row.bootId = boot ∧ row.sample.seq = seq

structure Sound (s : System) (rows : List Row) : Prop where
  stored : OnDisk s.disk.csv rows
  distinct : (rows.map (fun row => (row.bootId,row.sample.seq))).Nodup
  rising : rows.Pairwise (fun a b => a.bootId = b.bootId → a.sample.seq < b.sample.seq)
  gaps : ∀ row ∈ rows, ∀ seq, 0 < seq → seq < row.sample.seq →
    Stored rows row.bootId seq ∨ Covered s.disk.events row.bootId seq
  rebuilt : ∃ csv, init s.disk.csv = .ok (csv,summary rows) ∧ OnDisk csv rows

/- What the proof keeps of the disk: its rows, a partial one behind them, and the boot IDs fed
so far, the newest of which has its rows last. -/
structure Held (seen : List BootId) (d : Disk) (rows : List Row) (torn : List Char) : Prop where
  text : (d.csv = [] ∧ rows = [] ∧ torn = []) ∨ d.csv = wholeText rows ++ torn
  oneLine : '\n' ∉ torn
  short : torn.length < 4096
  fits : ∀ row ∈ rows, row.Fits
  rising : rows.Pairwise (fun a b => a.bootId = b.bootId → a.sample.seq < b.sample.seq)
  gaps : ∀ row ∈ rows, ∀ seq, 0 < seq → seq < row.sample.seq →
    Stored rows row.bootId seq ∨ Covered d.events row.bootId seq
  boots : ∀ row ∈ rows, ∃ b ∈ seen, b.shown = row.bootId
  newest : ∀ c ∈ seen.getLast?, ∀ row ∈ rows, row.bootId = c.shown →
    ∀ last ∈ rows.getLast?, last.bootId = c.shown

def Kept (seen : List BootId) (d : Disk) : Prop := ∃ rows torn, Held seen d rows torn

/- A recorder that is at the boot `b` and has these rows. -/
structure At (b : BootId) (r : Recorder) (rows : List Row) : Prop where
  bootId : r.bootId = some b
  nonneg : 0 ≤ r.lastSeq
  last : ∀ row ∈ rows, row.bootId = b.shown → row.sample.seq ≤ r.lastSeq
  stored : r.lastSeq = 0 ∨ ∃ row ∈ rows, row.bootId = b.shown ∧ (row.sample.seq : Int) = r.lastSeq
  count : r.count = rows.length
  battery : r.batteryCount = rows.countP Row.battery

theorem coveredMore {events : List Event} {boot : List Char} {seq : Nat} (e : Event)
    (covered : Covered events boot seq) : Covered (events ++ [e]) boot seq := by
  obtain ⟨b,expected,available,mem,rest⟩ := covered
  exact ⟨b,expected,available,List.mem_append_left _ mem,rest⟩

theorem heldEvent {seen : List BootId} {d : Disk} {rows : List Row} {torn : List Char} (e : Event)
    (held : Held seen d rows torn) : Held seen (perform d (.event e)) rows torn :=
  {held with gaps := fun row mem seq pos below =>
    (held.gaps row mem seq pos below).imp id (coveredMore e)}

def Ready (d : Disk) (header : List Char) (rows : List Row) : Prop := d.csv ++ header = wholeText rows

theorem heldReady {seen : List BootId} {d : Disk} {rows : List Row} {header : List Char}
    (held : Held seen d rows []) (ready : Ready d header rows) :
    Held seen {d with csv := d.csv ++ header} rows [] :=
  {held with text := .inr (ready.trans (List.append_nil _).symm)}

structure Addable (seen : List BootId) (d : Disk) (rows : List Row) (row : Row) : Prop where
  fits : row.Fits
  boot : ∃ b ∈ seen.getLast?, b.shown = row.bootId
  after : ∀ other ∈ rows, other.bootId = row.bootId → other.sample.seq < row.sample.seq
  gaps : ∀ seq, 0 < seq → seq < row.sample.seq →
    Stored rows row.bootId seq ∨ Covered d.events row.bootId seq

theorem storedMore {rows : List Row} {boot : List Char} {seq : Nat} (row : Row)
    (stored : Stored rows boot seq) : Stored (rows ++ [row]) boot seq := by
  obtain ⟨other,mem,same⟩ := stored
  exact ⟨other,List.mem_append_left _ mem,same⟩

theorem wholeTextMore (rows : List Row) (row : Row) :
    wholeText (rows ++ [row]) = wholeText rows ++ row.line := by
  rw [wholeText, wholeText, List.flatMap_append, List.flatMap_singleton, List.append_assoc]

theorem readyRow {d : Disk} {rows : List Row} {header : List Char} (ready : Ready d header rows)
    (row : Row) : Ready (perform d (.csv (header ++ row.line))) [] (rows ++ [row]) := by
  have text : d.csv ++ (header ++ row.line) = wholeText (rows ++ [row]) := by
    rw [← List.append_assoc, ready, wholeTextMore]
  exact (List.append_nil _).trans text

theorem heldRow {seen : List BootId} {d : Disk} {rows : List Row} {header : List Char} {row : Row}
    (held : Held seen d rows []) (ready : Ready d header rows) (addable : Addable seen d rows row) :
    Held seen (perform d (.csv (header ++ row.line))) (rows ++ [row]) [] := by
  obtain ⟨b,newest,shown⟩ := addable.boot
  constructor
  · have text := readyRow ready row
    rw [Ready, List.append_nil] at text
    exact .inr (text.trans (List.append_nil _).symm)
  · exact List.not_mem_nil
  · exact held.short
  · intro other mem
    rcases List.mem_append.mp mem with old | new
    · exact held.fits other old
    · exact List.mem_singleton.mp new ▸ addable.fits
  · rw [List.pairwise_append]
    refine ⟨held.rising,List.pairwise_singleton _ _,fun other mem new isNew same => ?_⟩
    cases List.mem_singleton.mp isNew
    exact addable.after other mem same
  · intro other mem seq pos below
    rcases List.mem_append.mp mem with old | new
    · exact (held.gaps other old seq pos below).imp (storedMore row) id
    · cases List.mem_singleton.mp new
      exact (addable.gaps seq pos below).imp (storedMore row) id
  · intro other mem
    rcases List.mem_append.mp mem with old | new
    · exact held.boots other old
    · cases List.mem_singleton.mp new
      exact ⟨b,List.mem_of_getLast? newest,shown⟩
  · intro c mem _ _ _ last isLast
    rw [List.getLast?_append_of_ne_nil _ (List.cons_ne_nil _ _)] at isLast
    cases isLast
    cases newest.symm.trans mem
    exact shown.symm

theorem heldHeaderTorn {seen : List BootId} {d : Disk} {rows : List Row} {header : List Char}
    (held : Held seen d rows []) (ready : Ready d header rows) (cut : Nat)
    (started : HeaderWhole (d.csv ++ header.take cut)) :
    Held seen {d with csv := d.csv ++ header.take cut} rows [] := by
  rcases held.text with ⟨noText,noRows,_⟩ | text
  · subst noRows
    have same : header = headerLine := by
      rw [Ready, noText, List.nil_append] at ready
      exact ready.trans (List.append_nil _)
    rw [noText, List.nil_append] at started
    rcases started with none | front
    · exact {held with text := .inl ⟨by rw [noText, none]; rfl,rfl,rfl⟩}
    · have whole : header.take cut = header := by
        have long := front.length_le
        rw [same, List.length_take] at long
        exact List.take_of_length_le (by rw [same]; omega)
      rw [whole]
      exact heldReady held ready
  · rw [List.append_nil] at text
    have none : header = [] := by
      rw [Ready, text] at ready
      exact List.append_right_eq_self.mp ready
    rw [none, List.take_nil, List.append_nil]
    exact held

theorem heldTorn {seen : List BootId} {d : Disk} {rows : List Row} {header : List Char} {row : Row}
    (held : Held seen d rows []) (ready : Ready d header rows) (addable : Addable seen d rows row)
    (cut : Nat) (started : HeaderWhole (d.csv ++ (header ++ row.line).take cut)) :
    Kept seen {d with csv := d.csv ++ (header ++ row.line).take cut} := by
  rcases Nat.le_total cut header.length with inHeader | past
  · rw [List.take_append_of_le_length inHeader] at started ⊢
    exact ⟨rows,[],heldHeaderTorn held ready cut started⟩
  · have split : (header ++ row.line).take cut = header ++ row.line.take (cut - header.length) := by
      rw [List.take_append, List.take_of_length_le past]
    rcases Nat.lt_or_ge (cut - header.length) row.line.length with short | whole
    · obtain ⟨body,line,oneLine⟩ := Csv.recordLine (fun cell mem => (addable.fits cell mem).2)
      have part : row.line.take (cut - header.length) = body.take (cut - header.length) := by
        rw [Row.line, line, List.length_append, List.length_singleton] at short
        rw [Row.line, line, List.take_append_of_le_length (Nat.le_of_lt_succ short)]
      refine ⟨rows,row.line.take (cut - header.length),{held with text := .inr ?_,oneLine := ?_,short := ?_}⟩
      · dsimp only
        rw [split, ← List.append_assoc, ready]
      · rw [part]
        exact fun mem => oneLine (List.mem_of_mem_take mem)
      · exact Nat.lt_of_le_of_lt (List.length_take_le _ _)
          (Nat.lt_trans short (lineShort addable.fits))
    · rw [split, List.take_of_length_le whole]
      exact ⟨rows ++ [row],[],heldRow held ready addable⟩

def Safe (seen : List BootId) (d : Disk) (ws : List Write) : Prop :=
  ∀ whole cut, HeaderWhole (killedAt d ws whole cut).csv → Kept seen (killedAt d ws whole cut)

theorem safeNil {seen : List BootId} {d : Disk} (kept : Kept seen d) : Safe seen d [] :=
  fun _ _ _ => kept

theorem safeEvent {seen : List BootId} {d : Disk} {e : Event} {ws : List Write} (kept : Kept seen d)
    (later : Safe seen (perform d (.event e)) ws) : Safe seen d (.event e :: ws) := by
  intro whole cut started
  cases whole with
  | zero => exact kept
  | succ whole => exact later whole cut started

theorem safeCsv {seen : List BootId} {d : Disk} {text : List Char} {ws : List Write}
    (kept : ∀ cut, HeaderWhole (d.csv ++ text.take cut) → Kept seen {d with csv := d.csv ++ text.take cut})
    (later : Safe seen (perform d (.csv text)) ws) : Safe seen d (.csv text :: ws) := by
  intro whole cut started
  cases whole with
  | zero => exact kept cut started
  | succ whole => exact later whole cut started

/- What a piece of `ingest` leaves: a safe disk at any kill, and the recorder at its boot. -/
def Leaves (seen : List BootId) (d : Disk) (b : BootId) (out : Outcome) : Prop :=
  Safe seen d out.writes ∧
    ∃ rows, Held seen (out.writes.foldl perform d) rows [] ∧ At b out.recorder rows

theorem leavesHeader {seen : List BootId} {d : Disk} {b : BootId} {r : Recorder} {rows : List Row}
    {header : List Char} (held : Held seen d rows []) (ready : Ready d header rows) (at_ : At b r rows)
    (result : Except PyError Bool) :
    Leaves seen d b ⟨if header = [] then [] else [.csv header],r,result⟩ := by
  dsimp only [Leaves]
  split
  · exact ⟨safeNil ⟨rows,[],held⟩,rows,held,at_⟩
  · have done := heldReady held ready
    refine ⟨safeCsv (fun cut started => ?_) (safeNil ⟨rows,[],done⟩),rows,done,at_⟩
    exact ⟨rows,[],heldHeaderTorn held ready cut started⟩

/- The next row of the recorder's boot: what lies between it and the last one is a gap with an
event. -/
theorem nextAddable {seen : List BootId} {d : Disk} {b : BootId} {r : Recorder} {rows : List Row}
    {row : Row} (held : Held seen d rows []) (current : At b r rows) (newest : seen.getLast? = some b)
    (fits : row.Fits) (boot : row.bootId = b.shown) (after : r.lastSeq < row.sample.seq)
    (gap : row.sample.seq = r.lastSeq + 1 ∨
      .missingSamples b (r.lastSeq + 1) row.sample.seq ∈ d.events) : Addable seen d rows row := by
  refine ⟨fits,⟨b,newest,boot.symm⟩,fun other mem same => ?_,fun seq pos below => ?_⟩
  · have := current.last other mem (same.trans boot)
    omega
  · rcases Int.lt_or_le r.lastSeq seq with past | within
    · rcases gap with next | event
      · omega
      · exact .inr ⟨b,_,_,event,boot.symm,by omega,below⟩
    · rcases current.stored with zero | ⟨last,mem,same,value⟩
      · omega
      · rw [boot, ← same]
        rcases Nat.lt_or_ge seq last.sample.seq with earlier | here
        · exact held.gaps last mem seq pos earlier
        · exact .inl ⟨last,mem,rfl,by omega⟩

theorem atRow {b : BootId} {r : Recorder} {rows : List Row} {row : Row} (current : At b r rows)
    (boot : row.bootId = b.shown) (after : r.lastSeq < row.sample.seq) :
    At b ⟨r.bootId,row.sample.seq,r.count + 1,r.batteryCount + row.battery.toNat⟩ (rows ++ [row]) := by
  constructor
  · exact current.bootId
  · exact Int.natCast_nonneg _
  · intro other mem same
    rcases List.mem_append.mp mem with old | new
    · exact Int.le_trans (current.last other old same) (Int.le_of_lt after)
    · cases List.mem_singleton.mp new
      exact Int.le_refl _
  · exact .inr ⟨row,List.mem_append_right _ List.mem_cons_self,boot,rfl⟩
  · rw [List.length_append, ← current.count]
    rfl
  · rw [List.countP_append, ← current.battery, List.countP_singleton]
    cases row.battery <;> rfl

theorem leavesGap {seen : List BootId} {d : Disk} {b : BootId} {lastSeq : Int} {seq : Nat}
    {ws : List Write} {r : Recorder} {result : Except PyError Bool} (kept : Kept seen d)
    (later : Leaves seen ((gapEvent b lastSeq seq).foldl perform d) b ⟨ws,r,result⟩) :
    Leaves seen d b ⟨gapEvent b lastSeq seq ++ ws,r,result⟩ := by
  unfold gapEvent at later ⊢
  split at later
  · rename_i skipped
    rw [if_pos skipped]
    exact ⟨safeEvent kept later.1,later.2⟩
  · rename_i next
    rw [if_neg next]
    exact later

theorem saveRowsLeaves {seen : List BootId} {page : Page} {received : Time} {todo : List Sample}
    {d : Disk} {r : Recorder} {rows : List Row} {header : List Char} (valid : page.Valid)
    (newest : seen.getLast? = some page.bootId) (held : Held seen d rows []) (ready : Ready d header rows)
    (current : At page.bootId r rows) (samples : ∀ s ∈ todo, s.Valid page ∧ r.lastSeq < s.seq)
    (ordered : todo.Pairwise (fun s t => s.seq < t.seq)) :
    Leaves seen d page.bootId (saveRows page received header todo r) := by
  induction todo generalizing d r rows header with
  | nil => exact leavesHeader held ready current _
  | cons s todo ih =>
    obtain ⟨⟨sample,after⟩,later⟩ := List.forall_mem_cons.mp samples
    obtain ⟨first,rest⟩ := List.pairwise_cons.mp ordered
    have gapHeld : Held seen ((gapEvent page.bootId r.lastSeq s.seq).foldl perform d) rows [] := by
      unfold gapEvent
      split
      · exact heldEvent _ held
      · exact held
    have gapReady : Ready ((gapEvent page.bootId r.lastSeq s.seq).foldl perform d) header rows := by
      unfold gapEvent
      split <;> exact ready
    have gapCovers : s.seq = r.lastSeq + 1 ∨ .missingSamples page.bootId (r.lastSeq + 1) s.seq ∈
        ((gapEvent page.bootId r.lastSeq s.seq).foldl perform d).events := by
      unfold gapEvent
      split
      · exact .inr (List.mem_append_right _ List.mem_cons_self)
      · rename_i next
        exact .inl (not_not.mp next)
    unfold saveRows
    dsimp only
    split
    · exact leavesGap ⟨rows,[],held⟩ (leavesHeader gapHeld gapReady current _)
    · rename_i estimate _
      have fits := rowFits valid sample estimate received
      have addable := nextAddable gapHeld current newest fits rfl after gapCovers
      have added := heldRow gapHeld gapReady addable
      have done := ih added (readyRow gapReady _)
        (atRow current rfl after) (fun t mem => ⟨(later t mem).1,Int.ofNat_lt.mpr (first t mem)⟩) rest
      refine leavesGap ⟨rows,[],held⟩ ⟨safeCsv (fun cut started => ?_) done.1,done.2⟩
      exact heldTorn gapHeld gapReady addable cut started

theorem ingestRowsLeaves {seen : List BootId} {page : Page} (received : Time) {d : Disk} {r : Recorder}
    {rows : List Row} (valid : page.Valid) (newest : seen.getLast? = some page.bootId)
    (held : Held seen d rows []) (current : At page.bootId r rows) :
    Leaves seen d page.bootId (ingestRows d.csv page received r) := by
  have stays : ∀ result, Leaves seen d page.bootId ⟨[],r,result⟩ :=
    fun result => ⟨safeNil ⟨rows,[],held⟩,rows,held,current⟩
  have ready : Ready d (if d.csv = [] then headerLine else []) rows := by
    unfold Ready
    rcases held.text with ⟨none,noRows,_⟩ | text
    · rw [if_pos none, none, noRows]
      exact (List.append_nil _).symm
    · have some : d.csv ≠ [] := by
        rw [text]
        exact List.append_ne_nil_of_left_ne_nil (List.append_ne_nil_of_left_ne_nil (by decide +kernel) _) _
      rw [if_neg some, text, List.append_nil, List.append_nil]
  unfold ingestRows
  dsimp only
  split
  · exact stays _
  · split
    · exact stays _
    · apply saveRowsLeaves valid newest held ready current
      · intro s mem
        obtain ⟨inside,after⟩ := List.mem_filter.mp mem
        exact ⟨valid.samples s inside,of_decide_eq_true after⟩
      · exact valid.ordered.filter _

structure Live (seen : List BootId) (r : Recorder) (rows : List Row) : Prop where
  count : r.count = rows.length
  battery : r.batteryCount = rows.countP Row.battery
  fresh : r.bootId = none → r.lastSeq = 0 ∧ rows = []
  known : ∀ b, r.bootId = some b → b ∈ seen ∧ At b r rows
  newest : ∀ c ∈ seen.getLast?, ∀ row ∈ rows, row.bootId = c.shown → r.bootId = some c

def Texts (boots : List BootId) : Prop := ∀ b ∈ boots, ∃ s, b = .text s

theorem shownInjective {boots : List BootId} (texts : Texts boots) {b c : BootId} (memB : b ∈ boots)
    (memC : c ∈ boots) (same : b.shown = c.shown) : b = c := by
  obtain ⟨s,rfl⟩ := texts b memB
  obtain ⟨t,rfl⟩ := texts c memC
  exact congrArg BootId.text same

theorem returnsLast {seen : List BootId} {b : BootId} (lasting : NeverReturns (seen ++ [b]))
    (mem : b ∈ seen) : seen.getLast? = some b := by
  obtain ⟨early,later,rfl⟩ := List.append_of_mem mem
  induction later generalizing early with
  | nil => rw [List.getLast?_append_of_ne_nil _ (List.cons_ne_nil _ _)]; rfl
  | cons c later ih =>
    have whole : early ++ b :: c :: later ++ [b] = early ++ b :: c :: (later ++ [b]) := by simp
    have same : b = c := by
      by_contra differ
      exact lasting early b c (later ++ [b]) whole differ (by simp)
    subst same
    have shift : early ++ b :: b :: later = early ++ [b] ++ b :: later := by simp
    rw [shift] at lasting ⊢
    exact ih (early ++ [b]) lasting (by simp)

section
variable {seen : List BootId} {d : Disk} {rows : List Row} {torn : List Char} {b : BootId}

theorem rowCurrent (held : Held seen d rows torn) (texts : Texts (seen ++ [b]))
    (lasting : NeverReturns (seen ++ [b])) {row : Row} (mem : row ∈ rows) (same : row.bootId = b.shown) :
    seen.getLast? = some b := by
  obtain ⟨c,inside,shown⟩ := held.boots row mem
  have one := shownInjective texts (List.mem_append_left _ inside)
    (List.mem_append_right _ List.mem_cons_self) (shown.trans same)
  exact returnsLast lasting (one ▸ inside)

theorem heldFed (held : Held seen d rows torn) (texts : Texts (seen ++ [b]))
    (lasting : NeverReturns (seen ++ [b])) : Held (seen ++ [b]) d rows torn := by
  refine {held with boots := fun row mem => ?_,newest := ?_}
  · obtain ⟨c,inside,shown⟩ := held.boots row mem
    exact ⟨c,List.mem_append_left _ inside,shown⟩
  · intro c isLast row mem same
    rw [List.getLast?_append_of_ne_nil _ (List.cons_ne_nil _ _)] at isLast
    cases isLast
    exact held.newest b (rowCurrent held texts lasting mem same) row mem same

theorem liveAt {r : Recorder} (current : At b r rows) : Live (seen ++ [b]) r rows := by
  refine ⟨current.count,current.battery,fun none => ?_,fun c same => ?_,fun c isLast _ _ _ => ?_⟩
  · exact nomatch none.symm.trans current.bootId
  · cases current.bootId.symm.trans same
    exact ⟨List.mem_append_right _ List.mem_cons_self,current⟩
  · rw [List.getLast?_append_of_ne_nil _ (List.cons_ne_nil _ _)] at isLast
    cases isLast
    exact current.bootId

theorem liveSummary (held : Held seen d rows torn) (texts : Texts seen) :
    Live seen (summary rows) rows := by
  rcases List.eq_nil_or_concat rows with rfl | ⟨before,last,rfl⟩
  · exact ⟨rfl,rfl,fun _ => ⟨rfl,rfl⟩,fun c same => (Option.some_ne_none c same.symm).elim,
      fun _ _ row mem => absurd mem List.not_mem_nil⟩
  · rw [List.concat_eq_append] at held ⊢
    have newest : (before ++ [last]).getLast? = some last :=
      List.getLast?_append_of_ne_nil _ (List.cons_ne_nil _ _)
    have boot : (summary (before ++ [last])).bootId = some (.text last.bootId) := by
      rw [summary, newest]
      rfl
    have seq : (summary (before ++ [last])).lastSeq = last.sample.seq := by
      rw [summary, newest]
      rfl
    have inside : last ∈ before ++ [last] := List.mem_append_right _ List.mem_cons_self
    have shown : ∀ c ∈ seen, c.shown = last.bootId → c = .text last.bootId := by
      intro c mem same
      obtain ⟨s,rfl⟩ := texts c mem
      exact congrArg BootId.text same
    refine ⟨rfl,rfl,fun unset => (Option.some_ne_none _ (boot.symm.trans unset)).elim,fun c same => ?_,fun c isLast row mem same => ?_⟩
    · cases boot.symm.trans same
      obtain ⟨c,fed,same⟩ := held.boots last inside
      refine ⟨shown c fed same ▸ fed,boot,by rw [seq]; exact Int.natCast_nonneg _,?_,
        .inr ⟨last,inside,rfl,seq.symm⟩,rfl,rfl⟩
      intro row mem rowBoot
      rw [seq]
      rcases List.mem_append.mp mem with early | isLast
      · have := (List.pairwise_append.mp held.rising).2.2 row early last List.mem_cons_self rowBoot
        omega
      · cases List.mem_singleton.mp isLast
        exact Int.le_refl _
    · have lastBoot := held.newest c isLast row mem same last newest
      rw [boot, shown c (List.mem_of_getLast? isLast) lastBoot.symm]

theorem ingestPageLeaves {r : Recorder} {page : Page} (received : Time) (valid : page.Valid)
    (held : Held seen d rows []) (live : Live seen r rows) (texts : Texts (seen ++ [page.bootId]))
    (lasting : NeverReturns (seen ++ [page.bootId])) :
    Leaves (seen ++ [page.bootId]) d page.bootId (ingestPage d.csv r page received) := by
  have newest : (seen ++ [page.bootId]).getLast? = some page.bootId :=
    List.getLast?_append_of_ne_nil _ (List.cons_ne_nil _ _)
  have fedHeld := heldFed held texts lasting
  unfold ingestPage
  split
  · rename_i same
    exact ingestRowsLeaves received valid newest fedHeld (live.known _ same).2
  · rename_i other
    have unseen : ∀ row ∈ rows, row.bootId ≠ page.bootId.shown := fun row mem same =>
      other (live.newest _ (rowCurrent held texts lasting mem same) row mem same)
    have fresh : At page.bootId {r with bootId := some page.bootId, lastSeq := 0} rows :=
      ⟨rfl,Int.le_refl 0,fun row mem same => absurd same (unseen row mem),.inl rfl,live.count,live.battery⟩
    have noted : ∀ e, Held (seen ++ [page.bootId]) (perform d (.event e)) rows [] :=
      fun e => heldEvent e fedHeld
    dsimp only
    split
    · exact ⟨safeEvent ⟨rows,[],fedHeld⟩ (safeNil ⟨rows,[],noted _⟩),rows,noted _,fresh⟩
    · have rest := fun e => ingestRowsLeaves received valid newest (noted e) fresh
      exact ⟨safeEvent ⟨rows,[],fedHeld⟩ (rest _).1,(rest _).2⟩

end

def Inv (seen : List BootId) (s : System) : Prop :=
  ∃ rows torn, Held seen s.disk rows torn ∧
    ∀ r, s.recorder = some r → torn = [] ∧ Live seen r rows

theorem neverReturnsFront {boots more : List BootId} (lasting : NeverReturns (boots ++ more)) :
    NeverReturns boots := by
  intro early b c later same differ mem
  refine lasting early b c (later ++ more) (by rw [same]; simp) differ ?_
  rw [← List.cons_append]
  exact List.mem_append_left _ mem

theorem ingestLeaves {seen : List BootId} {d : Disk} {rows : List Row} {r : Recorder}
    (held : Held seen d rows []) (live : Live seen r rows) (page : Value) (received : Time)
    (texts : Texts (seen ++ bootOf page)) (lasting : NeverReturns (seen ++ bootOf page)) :
    Safe (seen ++ bootOf page) d (ingest d.csv r page received).writes ∧
    Inv (seen ++ bootOf page) ⟨(ingest d.csv r page received).writes.foldl perform d,
      some (ingest d.csv r page received).recorder⟩ := by
  cases found : validatePage page with
  | error message =>
    have boot : bootOf page = [] := by rw [bootOf, found]
    have out : ingest d.csv r page received = ⟨[],r,.error (.valueError message)⟩ := by
      rw [ingest, found]
    rw [boot, out, List.append_nil]
    refine ⟨safeNil ⟨rows,[],held⟩,rows,[],held,fun r' same => ?_⟩
    cases Option.some.inj same
    exact ⟨rfl,live⟩
  | ok passed =>
    have boot : bootOf page = [passed.bootId] := by rw [bootOf, found]
    have out : ingest d.csv r page received = ingestPage d.csv r passed received := by
      rw [ingest, found]
    rw [boot] at texts lasting ⊢
    rw [out]
    have valid := validatePageValid found
    obtain ⟨safe,rows',done,current⟩ := ingestPageLeaves received valid held live texts lasting
    refine ⟨safe,rows',[],done,fun r' same => ?_⟩
    cases Option.some.inj same
    exact ⟨rfl,liveAt current⟩

theorem stepInv {seen : List BootId} {s : System} {op : Op} (inv : Inv seen s)
    (texts : Texts (seen ++ fed s op)) (lasting : NeverReturns (seen ++ fed s op))
    (header : HeaderLeft s op) : Inv (seen ++ fed s op) (step s op) := by
  obtain ⟨d,recorder⟩ := s
  obtain ⟨rows,torn,held,live⟩ := inv
  cases op with
  | start =>
    rw [fed, List.append_nil] at *
    have rebuilt : Live seen (summary rows) rows := liveSummary held texts
    rcases held.text with ⟨noText,noRows,noTorn⟩ | text
    · subst noRows noTorn
      dsimp only at noText
      refine ⟨[],[],?_,fun r same => ?_⟩
      · rw [step, noText]
        exact {held with text := .inl ⟨rfl,rfl,rfl⟩}
      · rw [step, noText] at same
        cases Option.some.inj same
        exact ⟨rfl,rebuilt⟩
    · dsimp only at text
      have read := initTorn held.fits held.oneLine held.short
      refine ⟨rows,[],?_,fun r same => ?_⟩
      · rw [step, text, read]
        exact {held with
          text := .inr (List.append_nil _).symm
          oneLine := List.not_mem_nil
          short := by decide}
      · rw [step, text, read] at same
        cases Option.some.inj same
        exact ⟨rfl,rebuilt⟩
  | ingest page received =>
    cases recorder with
    | none =>
      rw [show fed ⟨d,none⟩ (.ingest page received) = [] from rfl, List.append_nil]
      exact ⟨rows,torn,held,live⟩
    | some r =>
      obtain ⟨rfl,alive⟩ := live r rfl
      exact (ingestLeaves held alive page received texts lasting).2
  | kill page received whole cut =>
    cases recorder with
    | none =>
      rw [show fed ⟨d,none⟩ (.kill page received whole cut) = [] from rfl, List.append_nil]
      exact ⟨rows,torn,held,live⟩
    | some r =>
      obtain ⟨rfl,alive⟩ := live r rfl
      obtain ⟨rows',torn',done⟩ := (ingestLeaves held alive page received texts lasting).1 whole cut header
      exact ⟨rows',torn',done,fun r' same => nomatch same⟩

theorem runInv {seen : List BootId} {s : System} {ops : List Op} (inv : Inv seen s)
    (texts : Texts (seen ++ allFed s ops)) (lasting : NeverReturns (seen ++ allFed s ops))
    (kept : HeaderKept s ops) : Inv (seen ++ allFed s ops) (run s ops) := by
  induction ops generalizing seen s with
  | nil =>
    rw [allFed, List.append_nil]
    exact inv
  | cons op ops ih =>
    rw [allFed, ← List.append_assoc] at texts lasting ⊢
    have next := stepInv inv (fun b mem => texts b (List.mem_append_left _ mem))
      (neverReturnsFront lasting) kept.1
    exact ih next texts lasting kept.2

theorem emptyInv : Inv [] empty := by
  refine ⟨[],[],?_,fun r same => nomatch same⟩
  exact ⟨.inl ⟨rfl,rfl,rfl⟩,List.not_mem_nil,by decide,List.forall_mem_nil _,List.Pairwise.nil,
    List.forall_mem_nil _,List.forall_mem_nil _,fun c last => nomatch last⟩

theorem invSound {seen : List BootId} {s : System} (inv : Inv seen s) : ∃ rows, Sound s rows := by
  obtain ⟨rows,torn,held,_⟩ := inv
  have stored : OnDisk s.disk.csv rows := by
    rcases held.text with ⟨noText,noRows,_⟩ | text
    · exact .inl ⟨by rw [noText]; rfl,noRows⟩
    · rw [text]
      exact onDiskTorn held.fits held.oneLine
  refine ⟨rows,stored,?_,held.rising,held.gaps,?_⟩
  · rw [List.Nodup, List.pairwise_map]
    refine held.rising.imp (fun {a b} below same => ?_)
    obtain ⟨boot,seq⟩ := Prod.mk.inj same
    exact absurd (below boot) (by rw [seq]; exact Nat.lt_irrefl _)
  · rcases held.text with ⟨noText,noRows,_⟩ | text
    · exact ⟨[],by rw [noText, noRows]; rfl,.inl ⟨rfl,noRows⟩⟩
    · refine ⟨wholeText rows,by rw [text]; exact initTorn held.fits held.oneLine held.short,?_⟩
      have whole := onDiskTorn held.fits (List.not_mem_nil (a := '\n'))
      rwa [List.append_nil] at whole

/- In every run whose pages have their boot IDs as strings, what is stored is sound. -/
theorem recordsSound (ops : List Op) (kept : HeaderKept empty ops)
    (lasting : NeverReturns (allFed empty ops)) (texts : Texts (allFed empty ops)) :
    ∃ rows, Sound (run empty ops) rows :=
  invSound (runInv emptyInv texts lasting kept)

def someRow (seq : Nat) : Value :=
  .obj [("seq".toList,.int seq),("uptime_ms".toList,.int 10000),("valid".toList,.bool true),
    ("percent".toList,.int 90),("batt_mv".toList,.int 4000),("vbus_mv".toList,.int 0),
    ("vsys_mv".toList,.int 3980),("pmic_temp_c".toList,.null),("present".toList,.bool true),
    ("usb".toList,.bool false),("charging".toList,.bool false),("full".toList,.bool false),
    ("estimated".toList,.bool false),("screen_percent".toList,.int 20),("raw_st1".toList,.int 8),
    ("raw_st2".toList,.int 0)]

def somePage (boot : Value) (seqs : List Nat) : Value :=
  .obj [("schema".toList,.int 1),("boot_id".toList,boot),("device_uptime_ms".toList,.int 20000),
    ("capacity".toList,.int 8640),("oldest_seq".toList,.int 1),("latest_seq".toList,.int 3),
    ("samples".toList,.arr (seqs.map someRow))]

def noon : Time := ⟨63902779200000000,by decide⟩

def tornRun : List Op :=
  let page := somePage (.str "00000000deadbeef".toList)
  [.start,.ingest (page [1]) noon,.kill (page [2]) noon 0 25,.start,.ingest (page [3]) noon]

theorem sameNeverReturns (b : BootId) (n : Nat) : NeverReturns (List.replicate n b) := by
  intro early c d later same differ
  have all : ∀ e ∈ early ++ c :: d :: later, e = b := fun e mem =>
    List.eq_of_mem_replicate (same ▸ mem)
  exact absurd ((all c (by simp)).trans (all d (by simp)).symm) differ

theorem tornRunSound : ∃ rows, Sound (run empty tornRun) rows := by
  have boots : allFed empty tornRun = List.replicate 3 (.text "00000000deadbeef".toList) := by
    decide +kernel
  have header : headerLine <+: (step (run empty (tornRun.take 2)) tornRun[2]).disk.csv := by
    decide +kernel
  apply recordsSound tornRun ⟨trivial,trivial,.inr header,trivial,trivial,trivial⟩
  · rw [boots]
    exact sameNeverReturns _ 3
  · rw [boots]
    exact fun b mem => ⟨_,List.eq_of_mem_replicate mem⟩

/- The boot ID is a number of sixteen digits: the check takes it as it looks like an ID, but
after a restart it is not the text that the CSV has. -/
def fedTwice : List Op :=
  let page := somePage (.int 1234567890123456) [1]
  [.start,.ingest page noon,.start,.ingest page noon,.ingest page noon]

def storedRow : Row :=
  ⟨"1234567890123456".toList,⟨63902779190000000,by decide⟩,noon,
    ⟨1,10000,true,some 90,some 4000,some 0,some 3980,none,true,false,false,false,false,20,8,0⟩⟩

theorem numberedBootTwice : HeaderKept empty fedTwice ∧ NeverReturns (allFed empty fedTwice) ∧
    ¬ ∃ rows, Sound (run empty fedTwice) rows := by
  have boots : allFed empty fedTwice = List.replicate 3 (.number 1234567890123456) := by
    decide +kernel
  have records : Csv.records (complete (run empty fedTwice).disk.csv) =
      [fields,storedRow.cells,storedRow.cells] := by decide +kernel
  refine ⟨⟨trivial,trivial,trivial,trivial,trivial,trivial⟩,boots ▸ sameNeverReturns _ 3,?_⟩
  rintro ⟨rows,sound⟩
  rcases sound.stored with ⟨empty,_⟩ | stored
  · rw [empty] at records
    exact nomatch records
  · have cells := (List.cons.inj (stored.symm.trans records)).2
    have two : rows.length = 2 := (List.length_map (f := Row.cells)).symm.trans (congrArg List.length cells)
    obtain ⟨a,b,rfl⟩ := List.length_eq_two.mp two
    obtain ⟨first,rest⟩ := List.cons.inj cells
    have same := first.trans (List.cons.inj rest).1.symm
    have boot : a.bootId = b.bootId := (List.cons.inj same).1
    have seq : digits a.sample.seq = digits b.sample.seq :=
      (List.cons.inj (List.cons.inj (List.cons.inj (List.cons.inj same).2).2).2).1
    have key : (a.bootId,a.sample.seq) = (b.bootId,b.sample.seq) := by
      rw [boot, digitsInjective seq]
    exact (List.nodup_cons.mp sound.distinct).1 (List.mem_singleton.mpr key)

end EpskcCommissioner.BatteryRecord
