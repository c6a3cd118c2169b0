import EpskcCommissioner.RestLogsServed

/-! `cmd_logs`: the console prints the last lines of a boot, one call of `log_ring_get` a line,
while the other tasks go on logging. -/
namespace EpskcCommissioner.ConsoleLogs
open LogRing LogRingDevice LogRingNumbers LogRingRunning LogRingRecovery LogRingCurrent
open LogRingChains LogRingReads RestLogsServed PowerLog
open RestLogs (which)

def curWord : List UInt8 := [0x63,0x75,0x72]
def prevWord : List UInt8 := [0x70,0x72,0x65,0x76]

inductive Args where
  | usage
  | badLines
  | summary
  | lines (previous : Bool) (count : UInt32)
  deriving DecidableEq, Repr

/- `argv` has the command's own name in front. -/
def logsArgs (argv : List (List UInt8)) : Args :=
  let previous := decide (argv[1]? = some prevWord)
  if (2 ≤ argv.length ∧ previous = false ∧ argv[1]? ≠ some curWord) ∨ 3 < argv.length then .usage
  else
    match argv[2]? with
    | some text =>
      match powerLogParseUint text 1024 with
      | some count => if count = 0 then .badLines else .lines previous count
      | none => .badLines
    | none => if argv.length = 1 then .summary else .lines previous 20

/- The loop of the command: the numbers from `next` to `latest` are still to come. `there` is
history, the lines of the running boot as the command looked; nothing reads it. -/
structure Printing where
  previous : Bool
  count : UInt32
  first : UInt32
  next : UInt32
  latest : UInt32
  printed : List LineOut
  there : List Commit

inductive Reader where
  | idle
  | asking (previous : Bool) (count : UInt32)
  | printing (p : Printing)
  | returned (p : Printing)
  | noLines (previous : Bool)

def firstLine (info : LogRingInfo) (count : UInt32) : UInt32 :=
  let first := if count ≤ info.latestSeq then info.latestSeq - count + 1 else 1
  if first < info.oldestSeq then info.oldestSeq else first

/- `log_ring_info` at the start of the command. -/
def look (previous : Bool) (count : UInt32) (s : Device) : Reader :=
  match logRingInfo (which previous) s.memory.view s.ram with
  | none => .noLines previous
  | some info =>
    if info.latestSeq = 0 then .noLines previous
    else
      let first := firstLine info count
      .printing ⟨previous,count,first,first,info.latestSeq,[],s.boot.lines⟩

def printLine (p : Printing) (s : Device) : Reader :=
  if p.next ≤ p.latest then
    .printing {p with next := p.next + 1
                      printed := p.printed ++
                        (logRingGet (which p.previous) p.next s.memory.view s.ram).toList}
  else .returned p

def Printing.output (p : Printing) : List UInt8 :=
  p.printed.flatMap (fun line => cString line.text ++ [0x0a])

structure Console where
  device : Device
  reader : Reader

inductive Label where
  | device (l : LogRingDevice.Label)
  | logs (argv : List (List UInt8))
  | read

def busy : Reader → Bool
  | .asking _ _ | .printing _ => true
  | .idle | .returned _ | .noLines _ => false

/- The calls of `log_ring_info` and `log_ring_get` take the ring's lock. The console task goes
down with everything else. -/
def step (s : Console) : Label → Option Console
  | .device l =>
    (LogRingDevice.step s.device l).map (fun device =>
      match l with
      | .crash => ⟨device,.idle⟩
      | _ => ⟨device,s.reader⟩)
  | .logs argv =>
    if busy s.reader ∨ s.device.ram.cur.isNone then none
    else
      match logsArgs argv with
      | .lines previous count => some {s with reader := .asking previous count}
      | .usage | .badLines | .summary => some {s with reader := .idle}
  | .read =>
    if s.device.lock.isSome then none
    else
      match s.reader with
      | .asking previous count => some {s with reader := look previous count s.device}
      | .printing p => some {s with reader := printLine p s.device}
      | .idle | .returned _ | .noLines _ => none

def console : Machine Console Label :=
  ⟨fun s => device.start s.device ∧ s.reader = .idle,step⟩

/- No boot has the 2^32-1 lines with which the counter of the loop wraps. -/
def Low (s : Device) : Prop := ∀ boot info, logRingInfo boot s.memory.view s.ram = some info →
  info.latestSeq.toNat + 1 < UInt32.size

def Trusts (s : Console) : Label → Prop
  | .device l => Trusted s.device l
  | .logs _ => True
  | .read => Low s.device

/- The lines from the place `a` up to the place `b`. -/
def part (a b : Nat) (lines : List Commit) : List Commit := (lines.take b).drop a

variable {a b k : Nat} {lines more : List Commit} {c : Commit}

theorem partMore (inside : b ≤ lines.length) (grown : lines <+: more) : part a b more = part a b lines := by
  obtain ⟨rest,rfl⟩ := grown
  unfold part
  rw [List.take_append_of_le_length inside]

theorem partSnoc (found : lines[b]? = some c) (low : a ≤ b) : part a (b + 1) lines = part a b lines ++ [c] := by
  have inside : b < lines.length := (List.getElem?_eq_some_iff.mp found).1
  have long : (lines.take b).length = b := List.length_take_of_le (Nat.le_of_lt inside)
  unfold part
  rw [List.take_add_one, found, List.drop_append_of_le_length (by omega)]
  rfl

theorem partSuffix {a' : Nat} (later : a ≤ a') : part a' b lines <:+ part a b lines := by
  unfold part
  rw [show a' = a + (a' - a) by omega, ← List.drop_drop]
  exact List.drop_suffix ..

theorem partEmpty (past : b ≤ a) : part a b lines = [] := by
  unfold part
  rw [List.drop_eq_nil_iff, List.length_take]
  omega

theorem partLonger : (part a b lines).Sublist (part a (b + 1) lines) := by
  unfold part
  exact List.Sublist.drop (List.take_sublist_take_left (Nat.le_succ b)) a

/- Where the loop is: `count` lines were asked for, or as many as there were. -/
structure Placed (p : Printing) : Prop where
  some : 1 ≤ p.count.toNat
  first : p.first.toNat + min p.count.toNat p.latest.toNat = p.latest.toNat + 1
  begun : p.first.toNat ≤ p.next.toNat
  inside : p.next.toNat ≤ p.latest.toNat + 1
  small : p.latest.toNat + 1 < UInt32.size

/- What is printed of the running boot: of the lines up to `next` every one that still has its
slot, those before it as far as they were read in time, and nothing else. -/
structure PrintsCurrent (boot : BootLog) (p : Printing) : Prop where
  latest : p.latest.toNat = p.there.length
  there : p.there <+: boot.lines
  kept : ∃ kept, List.Forall₂ Reads p.printed kept ∧
    kept.Sublist (part (p.first.toNat - 1) (p.next.toNat - 1) boot.lines) ∧
    part (max (p.first.toNat - 1) (boot.begun - 1024)) (p.next.toNat - 1) boot.lines <:+ kept

theorem PrintsCurrent.enough {boot : BootLog} {p : Printing} (prints : PrintsCurrent boot p) :
    p.latest.toNat ≤ boot.lines.length :=
  prints.latest ▸ prints.there.length_le

/- And of the boot before: what `log_ring_init` found of it. -/
structure PrintsPrevious (ram : Ram) (recovered : UInt32 → Option LineOut) (p : Printing) : Prop where
  half : ram.prev.isSome
  latest : ram.prevLatest = p.latest
  only : ∀ seq out, recovered seq = some out → out.seq = seq ∧ seq ≠ 0 ∧ seq.toNat ≤ p.latest.toNat
  printed : p.printed = (List.range' p.first.toNat (p.next.toNat - p.first.toNat)).filterMap
    (fun n => recovered (UInt32.ofNat n))

structure Prints (s : Device) (p : Printing) : Prop where
  runs : s.ram.cur.isSome
  placed : Placed p
  current : p.previous = false → PrintsCurrent s.boot p
  previous : p.previous = true → PrintsPrevious s.ram s.recovered p

def Inv (s : Device) : Reader → Prop
  | .idle | .noLines _ => True
  | .asking _ count => 1 ≤ count.toNat ∧ count.toNat ≤ 1024
  | .printing p => Prints s p
  | .returned p => Prints s p ∧ p.next.toNat = p.latest.toNat + 1

/- What a step of the ring leaves to a reader while its boot lasts. -/
structure Grown (s t : Device) : Prop where
  lines : s.boot.lines <+: t.boot.lines
  begun : s.boot.begun ≤ t.boot.begun
  recovered : t.recovered = s.recovered
  prev : t.ram.prev = s.ram.prev
  prevLatest : t.ram.prevLatest = s.ram.prevLatest

theorem grown {s t : Device} {l : LogRingDevice.Label} (runs : s.ram.cur.isSome) (lives : l ≠ .crash)
    (taken : LogRingDevice.step s l = some t) : Grown s t := by
  cases stepped taken with
  | evict k => exact ⟨List.prefix_rfl,Nat.le_refl _,rfl,rfl,rfl⟩
  | call id call nowMs _ => exact ⟨List.prefix_rfl,Nat.le_refl _,rfl,rfl,rfl⟩
  | enter id call nowMs _ _ =>
    obtain ⟨_,_,_,prev,prevLatest⟩ := @executeCounts s.ram.latest.toNat s.ram call nowMs UInt32.ofNat_toNat.symm
    exact ⟨List.prefix_append ..,Nat.le_refl _,rfl,prev,prevLatest⟩
  | proceed h k _ _ =>
    unfold sectionStep
    split
    · dsimp only
      split <;> exact ⟨List.prefix_rfl,Nat.le_refl _,rfl,rfl,rfl⟩
    · exact ⟨List.prefix_rfl,Nat.le_refl _,rfl,rfl,rfl⟩
    · split
      · exact ⟨List.prefix_rfl,Nat.le_succ _,rfl,rfl,rfl⟩
      · exact ⟨List.prefix_rfl,Nat.le_refl _,rfl,rfl,rfl⟩
  | writeBack id work own _ => cases work <;> exact ⟨List.prefix_rfl,Nat.le_refl _,rfl,rfl,rfl⟩
  | crash => exact absurd rfl lives
  | init bootId off =>
    rw [Option.isNone_iff_eq_none] at off
    rw [off] at runs
    exact absurd runs Bool.false_ne_true

theorem currentGrown {s t : Device} {p : Printing} (prints : PrintsCurrent s.boot p) (placed : Placed p)
    (grown : Grown s t) : PrintsCurrent t.boot p := by
  obtain ⟨kept,reads,inside,whole⟩ := prints.kept
  have last : p.next.toNat - 1 ≤ s.boot.lines.length := by
    have := placed.inside
    have := prints.enough
    omega
  refine ⟨prints.latest,prints.there.trans grown.lines,kept,reads,?_,?_⟩
  · rw [partMore last grown.lines]
    exact inside
  · rw [partMore last grown.lines]
    have further := grown.begun
    exact (partSuffix (by omega)).trans whole

theorem previousGrown {s t : Device} {p : Printing} (prints : PrintsPrevious s.ram s.recovered p)
    (grown : Grown s t) : PrintsPrevious t.ram t.recovered p := by
  obtain ⟨half,latest,only,printed⟩ := prints
  refine ⟨grown.prev ▸ half,grown.prevLatest.trans latest,?_,?_⟩
  · rw [grown.recovered]
    exact only
  · rw [grown.recovered]
    exact printed

theorem printsGrown {s t : Device} {p : Printing} (prints : Prints s p) (grown : Grown s t)
    (runs : t.ram.cur.isSome) : Prints t p :=
  ⟨runs,prints.placed,fun current => currentGrown (prints.current current) prints.placed grown,
    fun previous => previousGrown (prints.previous previous) grown⟩

theorem firstLineNumber {info : LogRingInfo} {count : UInt32} (asked : 1 ≤ count.toNat ∧ count.toNat ≤ 1024)
    (oldest : info.oldestSeq = if info.latestSeq = 0 then 0
      else if info.latestSeq > 1024 then info.latestSeq - 1024 + 1 else 1) (some : info.latestSeq ≠ 0) :
    (firstLine info count).toNat + min count.toNat info.latestSeq.toNat = info.latestSeq.toNat + 1 := by
  have last := info.latestSeq.toNat_lt
  have numbered : info.latestSeq.toNat ≠ 0 := fun zero => some (UInt32.toNat_inj.mp zero)
  -- The subtraction of a smaller number and the addition of one do not wrap.
  have back : ∀ n : UInt32, 1 ≤ n.toNat → n ≤ info.latestSeq →
      (info.latestSeq - n + 1).toNat = info.latestSeq.toNat - n.toNat + 1 := by
    intro n positive low
    rw [UInt32.toNat_add, UInt32.toNat_sub_of_le _ _ low]
    change (info.latestSeq.toNat - n.toNat + 1) % 4294967296 = _
    omega
  have start : (if count ≤ info.latestSeq then info.latestSeq - count + 1 else 1).toNat +
      min count.toNat info.latestSeq.toNat = info.latestSeq.toNat + 1 := by
    split
    · rename_i low
      have low' := UInt32.le_iff_toNat_le.mp low
      rw [back count asked.1 low]
      omega
    · rename_i high
      have high' : info.latestSeq.toNat < count.toNat := Nat.not_le.mp fun le => high (UInt32.le_iff_toNat_le.mpr le)
      change 1 + min count.toNat info.latestSeq.toNat = _
      omega
  have early : info.oldestSeq.toNat ≤ info.latestSeq.toNat - 1023 ∨ info.oldestSeq.toNat ≤ 1 := by
    rw [oldest, if_neg some]
    split
    · rename_i wrapped
      have low : (1024 : UInt32) ≤ info.latestSeq := UInt32.le_of_lt wrapped
      have low' : 1024 ≤ info.latestSeq.toNat := UInt32.le_iff_toNat_le.mp low
      rw [back 1024 (by decide) low]
      change info.latestSeq.toNat - 1024 + 1 ≤ _ ∨ _
      omega
    · exact .inr (Nat.le_refl 1)
  unfold firstLine
  dsimp only
  rw [if_neg]
  · exact start
  · intro behind
    have behind' := UInt32.lt_iff_toNat_lt.mp behind
    omega

theorem lookPlaced {previous : Bool} {count : UInt32} {s : Device} {p : Printing}
    (asked : 1 ≤ count.toNat ∧ count.toNat ≤ 1024) (looked : look previous count s = .printing p)
    (small : ∀ info, logRingInfo (which previous) s.memory.view s.ram = some info →
      info.latestSeq.toNat + 1 < UInt32.size) :
    Placed p ∧ p.previous = previous ∧ p.printed = [] ∧ p.next = p.first ∧ p.there = s.boot.lines ∧
      ∃ info, logRingInfo (which previous) s.memory.view s.ram = some info ∧ info.latestSeq = p.latest := by
  unfold look at looked
  split at looked
  · contradiction
  · rename_i info found
    split at looked
    · contradiction
    · rename_i some
      cases looked
      obtain ⟨_,_,_,latest,oldest⟩ := infoFound found
      have first := firstLineNumber asked oldest some
      have low : min count.toNat info.latestSeq.toNat ≠ 0 := by
        have numbered : info.latestSeq.toNat ≠ 0 := fun zero => some (UInt32.toNat_inj.mp zero)
        omega
      refine ⟨⟨asked.1,first,Nat.le_refl _,?_,small info found⟩,rfl,rfl,rfl,rfl,info,found,rfl⟩
      change (firstLine info count).toNat ≤ info.latestSeq.toNat + 1
      omega

theorem previousInfo {s : Device} {info : LogRingInfo} (running : Running s) (remembers : Remembers s)
    (found : logRingInfo .previous s.memory.view s.ram = some info) :
    s.ram.prev.isSome ∧ info.latestSeq = s.ram.prevLatest := by
  obtain ⟨h,half,_,latest,_⟩ := infoFound found
  have half : s.ram.prev = some h := half
  have other : some h ≠ s.ram.cur := by
    rw [running.cur]
    exact fun same => remembers.apart h half (Option.some.inj same)
  rw [if_neg other] at latest
  exact ⟨half ▸ rfl,latest⟩

theorem lookPrints {previous : Bool} {count : UInt32} {s : Device} {p : Printing}
    (asked : 1 ≤ count.toNat ∧ count.toNat ≤ 1024) (running : Running s) (remembers : Remembers s)
    (small : ∀ info, logRingInfo (which previous) s.memory.view s.ram = some info →
      info.latestSeq.toNat + 1 < UInt32.size)
    (looked : look previous count s = .printing p) : Prints s p := by
  obtain ⟨placed,same,nothing,here,there,info,found,latest⟩ := lookPlaced asked looked small
  have runs : s.ram.cur.isSome := by
    rw [running.cur]
    rfl
  refine ⟨runs,placed,fun current => ?_,fun earlier => ?_⟩
  · rw [current] at same
    subst same
    obtain ⟨info',found',_,count',_⟩ := currentInfo running
    cases Option.some.inj (found'.symm.trans found)
    rw [latest] at count'
    have none : ∀ a, max (p.first.toNat - 1) a ≥ p.next.toNat - 1 := by
      intro a
      rw [here]
      omega
    refine ⟨count'.trans (congrArg List.length there.symm),there ▸ List.prefix_rfl,[],nothing ▸ .nil,
      List.nil_sublist _,?_⟩
    rw [partEmpty (none _)]
  · rw [earlier] at same
    subst same
    obtain ⟨half,last⟩ := previousInfo running remembers found
    refine ⟨half,last.symm.trans latest,fun seq out known => ?_,?_⟩
    · have got := (remembers.stable seq).trans known
      obtain ⟨numbered,reached,_⟩ := getInside found got
      rw [latest] at reached
      exact ⟨getOwn got,numbered,UInt32.le_iff_toNat_le.mp reached⟩
    · rw [nothing, here, Nat.sub_self]
      rfl

theorem nextNumber {p : Printing} (placed : Placed p) (more : p.next ≤ p.latest) :
    (p.next + 1).toNat = p.next.toNat + 1 := by
  have last := UInt32.le_iff_toNat_le.mp more
  have small := placed.small
  have size : UInt32.size = 4294967296 := rfl
  rw [UInt32.toNat_add]
  change (p.next.toNat + 1) % 4294967296 = _
  omega

theorem printCurrent {s : Device} {p : Printing} (running : Running s) (free : s.lock = none)
    (prints : PrintsCurrent s.boot p) (placed : Placed p) (more : p.next ≤ p.latest) :
    PrintsCurrent s.boot {p with next := p.next + 1
                                 printed := p.printed ++
                                  (logRingGet .current p.next s.memory.view s.ram).toList} := by
  obtain ⟨kept,reads,inside,whole⟩ := prints.kept
  have begun := running.unlocked free
  have count := placed.first
  have low := placed.begun
  have last := UInt32.le_iff_toNat_le.mp more
  have next : (p.next + 1).toNat - 1 = p.next.toNat - 1 + 1 := by
    rw [nextNumber placed more]
    omega
  refine ⟨prints.latest,prints.there,?_⟩
  dsimp only
  rw [next]
  have held := prints.enough
  cases got : logRingGet .current p.next s.memory.view s.ram with
  | none =>
    have gone : p.next.toNat ≤ s.boot.begun - 1024 := by
      apply Nat.le_of_not_lt
      intro retained
      have retained' : Retained s.boot.lines.length p.next := by
        unfold Retained
        omega
      obtain ⟨_,out,_,found,_⟩ := currentGives running free retained'
      exact nomatch got.symm.trans found
    refine ⟨kept,?_,inside.trans partLonger,?_⟩
    · rw [Option.toList_none, List.append_nil]
      exact reads
    · rw [partEmpty (by omega)]
      exact List.nil_suffix
  | some out =>
    have retained := currentOnly running got
    obtain ⟨c,out',line,found,read⟩ := currentGives running free retained
    cases Option.some.inj (got.symm.trans found)
    unfold Retained at retained
    refine ⟨kept ++ [c],List.rel_append reads (.cons read .nil),?_,?_⟩
    · rw [partSnoc line (by omega)]
      exact inside.append (List.Sublist.refl [c])
    · rw [partSnoc line (by omega)]
      obtain ⟨front,whole⟩ := whole
      exact ⟨front,by rw [← whole, List.append_assoc]⟩

theorem printPrevious {ram : Ram} {recovered : UInt32 → Option LineOut} {p : Printing} {found : Option LineOut}
    (prints : PrintsPrevious ram recovered p) (placed : Placed p) (more : p.next ≤ p.latest)
    (got : found = recovered p.next) :
    PrintsPrevious ram recovered {p with next := p.next + 1, printed := p.printed ++ found.toList} := by
  have low := placed.begun
  have next : (p.next + 1).toNat - p.first.toNat = p.next.toNat - p.first.toNat + 1 := by
    rw [nextNumber placed more]
    omega
  refine ⟨prints.half,prints.latest,prints.only,?_⟩
  dsimp only
  rw [next, List.range'_concat, List.filterMap_append, ← prints.printed, Nat.one_mul,
    Nat.add_sub_cancel' low, List.filterMap_cons, UInt32.ofNat_toNat, got]
  cases recovered p.next <;> rfl

theorem printPlaced {p : Printing} {printed : List LineOut} (placed : Placed p) (more : p.next ≤ p.latest) :
    Placed {p with next := p.next + 1, printed := printed} := by
  have last := UInt32.le_iff_toNat_le.mp more
  have next := nextNumber placed more
  refine ⟨placed.some,placed.first,?_,?_,placed.small⟩
  · dsimp only
    rw [next]
    exact Nat.le_succ_of_le placed.begun
  · dsimp only
    rw [next]
    omega

theorem printPrints {s : Device} {p : Printing} (running : Running s) (remembers : Remembers s)
    (free : s.lock = none) (prints : Prints s p) (more : p.next ≤ p.latest) :
    Prints s {p with next := p.next + 1
                     printed := p.printed ++
                      (logRingGet (which p.previous) p.next s.memory.view s.ram).toList} := by
  refine ⟨prints.runs,printPlaced prints.placed more,fun current => ?_,fun earlier => ?_⟩
  · have named : which p.previous = .current := congrArg which current
    rw [named]
    exact printCurrent running free (prints.current current) prints.placed more
  · have named : which p.previous = .previous := congrArg which earlier
    rw [named]
    exact printPrevious (prints.previous earlier) prints.placed more (remembers.stable p.next)

theorem askedRange {argv : List (List UInt8)} {previous : Bool} {count : UInt32}
    (taken : logsArgs argv = .lines previous count) : 1 ≤ count.toNat ∧ count.toNat ≤ 1024 := by
  unfold logsArgs at taken
  dsimp only at taken
  split at taken
  · contradiction
  · split at taken
    · split at taken
      · rename_i parsed
        split at taken
        · contradiction
        · rename_i some
          cases taken
          have most := UInt32.le_iff_toNat_le.mp (parseUintMost parsed)
          have numbered : count.toNat ≠ 0 := fun zero => some (UInt32.toNat_inj.mp zero)
          exact ⟨Nat.pos_of_ne_zero numbered,most⟩
      · contradiction
    · split at taken
      · contradiction
      · cases taken
        decide

theorem deviceUnder {s : Console} (reached : console.Under Trusts s) : device.Under Trusted s.device := by
  induction reached with
  | start initial => exact .start initial.1
  | @next s l t _ trusts stepped ih =>
    cases l with
    | device l =>
      obtain ⟨d,taken,same⟩ := Option.map_eq_some_iff.mp stepped
      have after : t.device = d := by
        cases l <;> exact (congrArg Console.device same).symm
      rw [after]
      exact .next ih trusts taken
    | logs argv =>
      obtain ⟨_,same⟩ := Option.ite_none_left_eq_some.mp stepped
      have after : t.device = s.device := by
        split at same <;> exact (congrArg Console.device (Option.some.inj same)).symm
      rw [after]
      exact ih
    | read =>
      obtain ⟨_,same⟩ := Option.ite_none_left_eq_some.mp stepped
      have after : t.device = s.device := by
        split at same <;> cases same <;> rfl
      rw [after]
      exact ih

theorem knownRunning {s : Device} (sound : Sound s) (runs : s.ram.cur.isSome) :
    Running s ∧ Remembers s := by
  rcases sound with both | off
  · exact both
  · rw [off.ram] at runs
    exact absurd runs Bool.false_ne_true

theorem invGrown {s t : Device} {reader : Reader} (inv : Inv s reader)
    (going : s.ram.cur.isSome → Grown s t ∧ t.ram.cur.isSome) : Inv t reader := by
  cases reader with
  | idle | noLines => trivial
  | asking previous count => exact inv
  | printing p =>
    have prints : Prints s p := inv
    obtain ⟨grows,runs⟩ := going prints.runs
    exact printsGrown prints grows runs
  | returned p =>
    obtain ⟨prints,last⟩ := inv
    obtain ⟨grows,runs⟩ := going prints.runs
    exact ⟨printsGrown prints grows runs,last⟩

theorem lookKept {previous : Bool} {count : UInt32} {s : Device} (sound : Sound s) (low : Low s)
    (asked : 1 ≤ count.toNat ∧ count.toNat ≤ 1024) : Inv s (look previous count s) := by
  cases looked : look previous count s with
  | idle | noLines => trivial
  | asking | returned =>
    unfold look at looked
    split at looked
    · contradiction
    · split at looked <;> contradiction
  | printing p =>
    have runs : s.ram.cur.isSome := by
      rcases sound with ⟨running,_⟩ | off
      · exact running.cur ▸ rfl
      · have nowhere : logRingInfo (which previous) s.memory.view s.ram = none := by
          rw [off.ram]
          cases previous <;> rfl
        unfold look at looked
        rw [nowhere] at looked
        contradiction
    obtain ⟨running,remembers⟩ := knownRunning sound runs
    exact lookPrints asked running remembers (low _) looked

theorem printKept {s : Device} {p : Printing} (sound : Sound s) (free : s.lock = none) (prints : Prints s p) :
    Inv s (printLine p s) := by
  obtain ⟨running,remembers⟩ := knownRunning sound prints.runs
  unfold printLine
  split
  · rename_i more
    exact printPrints running remembers free prints more
  · rename_i ended
    have last : p.latest.toNat < p.next.toNat :=
      Nat.not_le.mp fun le => ended (UInt32.le_iff_toNat_le.mpr le)
    exact ⟨prints,Nat.le_antisymm prints.placed.inside last⟩

theorem stepKept {s t : Console} {l : Label} (sound : Sound s.device) (inv : Inv s.device s.reader)
    (trusts : Trusts s l) (stepped : step s l = some t) : Inv t.device t.reader := by
  cases l with
  | device l =>
    have trusted : Trusted s.device l := trusts
    obtain ⟨d,taken,rfl⟩ := Option.map_eq_some_iff.mp stepped
    have going : l ≠ .crash → s.device.ram.cur.isSome → Grown s.device d ∧ d.ram.cur.isSome := by
      intro lives runs
      have after := runningStep (knownRunning sound runs).1 trusted.2.2 lives taken
      exact ⟨grown runs lives taken,after.cur ▸ rfl⟩
    cases l with
    | crash => trivial
    | evict _ | call _ _ _ | enter _ | proceed | writeBack _ | init _ => exact invGrown inv (going nofun)
  | logs argv =>
    obtain ⟨_,same⟩ := Option.ite_none_left_eq_some.mp stepped
    split at same
    · rename_i asked
      cases same
      exact askedRange asked
    all_goals
      cases same
      trivial
  | read =>
    obtain ⟨unlocked,same⟩ := Option.ite_none_left_eq_some.mp stepped
    have free : s.device.lock = none := Option.not_isSome_iff_eq_none.mp unlocked
    split at same
    · rename_i asking
      cases same
      rw [asking] at inv
      exact lookKept sound trusts inv
    · rename_i printing
      cases same
      rw [printing] at inv
      exact printKept sound free inv
    all_goals contradiction

theorem reachedInv {s : Console} (reached : console.Under Trusts s) : Inv s.device s.reader := by
  refine underInvariantWith (fun s => Sound s.device) (fun s => Inv s.device s.reader)
    (fun s under => sound (deviceUnder under)) ?_ ?_ reached
  · rintro s ⟨_,idle⟩
    rw [idle]
    trivial
  · exact fun s l t sound inv trusts stepped => stepKept sound inv trusts stepped

end EpskcCommissioner.ConsoleLogs
