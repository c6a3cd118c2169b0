import Mathlib
import EpskcCommissioner.LogTailOrder

/-! What the tail says about the lines of one boot that it never got: every number up to
its cursor is a line it has written, one it has reported as overwritten, or one that
it has passed over in silence. -/
namespace EpskcCommissioner.LogTailGaps
open LogTail

variable {Id : Type}

/- The lines of `validate_page`: numbered upwards from `previous`, up to the latest. -/
def validLines (latest : Nat) : (previous : Nat) → List Nat → Bool
  | _, [] => true
  | previous, seq :: rest =>
    1 ≤ seq && seq ≤ 0xFFFFFFFF && previous < seq && seq ≤ latest && validLines latest seq rest

def validatePage (page : Page Id) (after : Nat) : Bool :=
  page.latestSeq ≤ 0xFFFFFFFF && validLines page.latestSeq after page.lines

/- A tail between two fetches, and whether it stands in the loop of `drain`. -/
structure Reading (Id : Type) where
  tail : Tail Id
  draining : Bool
  deriving DecidableEq, Repr

inductive Fetch (Id : Type) where
  | poll (page : Page Id)
  | drain (page : Page Id)
  | failed
  deriving DecidableEq, Repr

def adopt (page : Page Id) (t : Tail Id) : Tail Id :=
  if t.bootId.isNone then {t with bootId := some page.bootId} else t

variable [DecidableEq Id]

/- Pages are validated as they are fetched, and all are of the one boot `id`. A drain
starts where a poll asks for more or by itself. -/
def step (id : Id) (s : Reading Id) : Fetch Id → Option (Reading Id)
  | .poll page =>
    let after := if s.tail.bootId.isSome then s.tail.cursor else 0
    if s.draining || page.bootId ≠ id || !validatePage page after then none
    else
      let (tail,more) := consume page (adopt page s.tail)
      some ⟨tail,more⟩
  | .drain page =>
    if page.bootId ≠ id || !validatePage page s.tail.cursor then none
    else
      let (tail,more) := drainPage page s.tail
      some ⟨tail,more⟩
  | .failed => some {s with draining := false}

def newTail : Reading Id := ⟨⟨none,0,[],[]⟩,false⟩

def reading (id : Id) : Machine (Reading Id) (Fetch Id) := ⟨fun s => s = newTail,step id⟩

def Note.count : Note → Nat
  | .overwritten count => count
  | _ => 0

def reported (notes : List Note) : Nat := (notes.map Note.count).sum

def missing (t : Tail Id) : Nat :=
  ((List.range' 1 t.cursor).filter (fun seq => seq ∉ t.written.map Line.seq)).length

/- The numbers that `lines` leave out behind `previous`. -/
def skipped : (previous : Nat) → List Nat → Nat
  | _, [] => 0
  | previous, seq :: rest => (seq - previous - 1) + skipped seq rest

def inner : List Nat → Nat
  | [] => 0
  | seq :: rest => skipped seq rest

/- No two lines of a page have a gap between them, and no drain gives up a tail that
it cannot read. -/
def Plain (s : Reading Id) : Fetch Id → Prop
  | .poll page => page.lines.IsChain (fun a b => b = a + 1)
  | .drain page =>
    page.lines.IsChain (fun a b => b = a + 1) ∧ (page.lines = [] → page.latestSeq ≤ s.tail.cursor)
  | .failed => True

instance (s : Reading Id) : (l : Fetch Id) → Decidable (Plain s l)
  | .poll page => inferInstanceAs (Decidable (page.lines.IsChain _))
  | .drain page => inferInstanceAs (Decidable (page.lines.IsChain _ ∧ _))
  | .failed => inferInstanceAs (Decidable True)

/- The books of a tail that has passed over `silent` lines without a word. -/
structure Accounts (t : Tail Id) (silent : Nat) : Prop where
  rising : (t.written.map Line.seq).Pairwise (· < ·)
  inside : ∀ seq ∈ t.written.map Line.seq, 1 ≤ seq ∧ seq ≤ t.cursor
  sum : t.cursor = t.written.length + reported t.notes + silent
  started : t.bootId = none → t.cursor = 0

omit [DecidableEq Id] in
theorem missingCount {t : Tail Id} {silent : Nat} (accounts : Accounts t silent) :
    missing t + t.written.length = t.cursor := by
  have nodup : (t.written.map Line.seq).Nodup := accounts.rising.imp Nat.ne_of_lt
  have same : ((List.range' 1 t.cursor).filter (fun seq => seq ∈ t.written.map Line.seq)).Perm
      (t.written.map Line.seq) := by
    refine (List.perm_ext_iff_of_nodup ((List.nodup_range' ..).filter _) nodup).mpr fun seq => ?_
    rw [List.mem_filter, List.mem_range'_1]
    constructor
    · exact fun mem => of_decide_eq_true mem.2
    · intro mem
      have := accounts.inside seq mem
      exact ⟨by omega,decide_eq_true mem⟩
  have parts := List.length_eq_length_filter_add (l := List.range' 1 t.cursor)
    (fun seq => decide (seq ∈ t.written.map Line.seq))
  rw [same.length_eq, List.length_range', List.length_map] at parts
  simp only [missing,decide_not]
  omega

theorem validLinesBeyond {latest previous : Nat} {lines : List Nat}
    (valid : validLines latest previous lines = true) :
    lines.Pairwise (· < ·) ∧ ∀ seq ∈ lines, previous < seq := by
  induction lines generalizing previous with
  | nil => exact ⟨.nil,nofun⟩
  | cons seq rest ih =>
    simp only [validLines,Bool.and_eq_true,decide_eq_true_eq] at valid
    obtain ⟨⟨⟨_,above⟩,_⟩,valid⟩ := valid
    obtain ⟨rising,beyond⟩ := ih valid
    refine ⟨.cons beyond rising,fun later mem => ?_⟩
    rcases List.mem_cons.mp mem with rfl | mem
    · exact above
    · exact Nat.lt_trans above (beyond later mem)

theorem skippedLast {latest previous : Nat} {lines : List Nat}
    (valid : validLines latest previous lines = true) :
    lines.getLast?.getD previous = previous + lines.length + skipped previous lines := by
  induction lines generalizing previous with
  | nil => rfl
  | cons seq rest ih =>
    simp only [validLines,Bool.and_eq_true,decide_eq_true_eq] at valid
    obtain ⟨⟨⟨_,above⟩,_⟩,valid⟩ := valid
    rw [List.getLast?_cons, Option.getD_some, ih valid, List.length_cons, skipped]
    omega

theorem skippedNone {latest seq : Nat} {rest : List Nat} (valid : validLines latest seq rest = true) :
    skipped seq rest = 0 ↔ (seq :: rest).IsChain (fun a b => b = a + 1) := by
  induction rest generalizing seq with
  | nil => simp [skipped]
  | cons next rest ih =>
    simp only [validLines,Bool.and_eq_true,decide_eq_true_eq] at valid
    obtain ⟨⟨⟨_,above⟩,_⟩,valid⟩ := valid
    rw [List.isChain_cons_cons, ← ih valid, skipped]
    omega

theorem innerNone {latest after : Nat} {lines : List Nat} (valid : validLines latest after lines = true) :
    inner lines = 0 ↔ lines.IsChain (fun a b => b = a + 1) := by
  cases lines with
  | nil => simp [inner]
  | cons seq rest =>
    simp only [validLines,Bool.and_eq_true] at valid
    exact skippedNone valid.2

@[simp] theorem reportedAppend (old new : List Note) : reported (old ++ new) = reported old + reported new := by
  simp [reported]

omit [DecidableEq Id] in
theorem consumeReported (page : Page Id) (t : Tail Id) :
    skipped t.cursor page.lines + reported t.notes =
      reported (consume page t).1.notes + inner page.lines := by
  simp only [consume,reportedAppend]
  cases page.lines with
  | nil => simp [skipped,inner,reported]
  | cons seq rest =>
    simp only [List.head?_cons,skipped,inner]
    split
    · simp only [reported,List.map_cons,List.map_nil,Note.count,List.sum_cons,List.sum_nil]
      omega
    · simp only [reported,List.map_nil,List.sum_nil]
      omega

omit [DecidableEq Id] in
/- A page adds its lines, what it reports and the gaps inside it. -/
theorem consumeAccounts {page : Page Id} {t : Tail Id} {silent : Nat} (accounts : Accounts t silent)
    (named : t.bootId ≠ none) (valid : validLines page.latestSeq t.cursor page.lines = true) :
    Accounts (consume page t).1 (silent + inner page.lines) := by
  obtain ⟨rising,beyond⟩ := validLinesBeyond valid
  have last := skippedLast valid
  have written : (consume page t).1.written.map Line.seq = t.written.map Line.seq ++ page.lines := by
    simp only [consume,List.map_append,List.map_map]
    congr 1
    exact List.map_id' _
  have cursor : (consume page t).1.cursor = page.lines.getLast?.getD t.cursor := rfl
  constructor
  · rw [written, List.pairwise_append]
    refine ⟨accounts.rising,rising,fun old oldMem new newMem => ?_⟩
    exact Nat.lt_of_le_of_lt (accounts.inside old oldMem).2 (beyond new newMem)
  · rw [written, cursor]
    intro seq mem
    rcases List.mem_append.mp mem with old | new
    · have := accounts.inside seq old
      omega
    · have above := beyond seq new
      refine ⟨by omega,?_⟩
      cases found : page.lines.getLast? with
      | none => exact absurd new (by rw [List.getLast?_eq_none_iff.mp found]; exact List.not_mem_nil)
      | some last => exact LogTailOrder.risingLast rising new found
  · have sizes := congrArg List.length written
    have report := consumeReported page t
    have sum := accounts.sum
    rw [List.length_map, List.length_append, List.length_map] at sizes
    rw [cursor]
    omega
  · exact fun none => absurd none named

omit [DecidableEq Id] in
theorem adoptAccounts (page : Page Id) {t : Tail Id} {silent : Nat} (accounts : Accounts t silent) :
    Accounts (adopt page t) silent ∧ (adopt page t).cursor = t.cursor ∧ (adopt page t).bootId ≠ none := by
  unfold adopt
  cases named : t.bootId with
  | none => exact ⟨⟨accounts.rising,accounts.inside,accounts.sum,nofun⟩,rfl,nofun⟩
  | some id => exact ⟨accounts,rfl,by simp [named]⟩

omit [DecidableEq Id] in
theorem skipAccounts {page : Page Id} {t : Tail Id} {silent : Nat} (accounts : Accounts t silent)
    (named : t.bootId ≠ none) (beyond : t.cursor < page.latestSeq) :
    Accounts {t with cursor := page.latestSeq} (silent + (page.latestSeq - t.cursor)) := by
  refine ⟨accounts.rising,fun seq mem => ?_,?_,fun none => absurd none named⟩
  · have := accounts.inside seq mem
    exact ⟨this.1,Nat.le_trans this.2 (Nat.le_of_lt beyond)⟩
  · have sum := accounts.sum
    dsimp only
    omega

omit [DecidableEq Id] in
theorem drainAccounts {page : Page Id} {t : Tail Id} {silent : Nat} (accounts : Accounts t silent)
    (valid : validLines page.latestSeq t.cursor page.lines = true) :
    ∃ more, Accounts (drainPage page t).1 (silent + more) ∧
      (more = 0 ↔ page.lines.IsChain (fun a b => b = a + 1) ∧
        (page.lines = [] → page.latestSeq ≤ t.cursor)) := by
  obtain ⟨adopted,same,named⟩ := adoptAccounts page accounts
  have consumed := consumeAccounts adopted named (same.symm ▸ valid)
  have plain := innerNone valid
  have stays : (consume page (adopt page t)).1.bootId = (adopt page t).bootId := rfl
  have whole : drainPage page t = if (consume page (adopt page t)).2 then
      ((consume page (adopt page t)).1,true) else
      if page.latestSeq > (consume page (adopt page t)).1.cursor && page.lines.isEmpty then
        ({(consume page (adopt page t)).1 with cursor := page.latestSeq},false)
      else ((consume page (adopt page t)).1,false) := rfl
  rw [whole]
  split
  · rename_i more
    refine ⟨_,consumed,plain.trans (and_iff_left fun none => ?_).symm⟩
    simp [consume,none] at more
  · split
    · rename_i jumps
      simp only [Bool.and_eq_true,decide_eq_true_eq,List.isEmpty_iff] at jumps
      obtain ⟨beyond,none⟩ := jumps
      have skip := skipAccounts consumed (stays ▸ named) beyond
      have cursor : (consume page (adopt page t)).1.cursor = t.cursor := by
        rw [← same]
        simp [consume,none]
      rw [none] at skip plain ⊢
      refine ⟨_,by simpa [inner] using skip,?_⟩
      rw [cursor] at beyond ⊢
      simp only [List.isChain_nil,true_and,forall_const]
      omega
    · rename_i stops
      refine ⟨_,consumed,plain.trans (and_iff_left fun none => ?_).symm⟩
      have cursor : (consume page (adopt page t)).1.cursor = t.cursor := by
        rw [← same]
        simp [consume,none]
      simpa [none,cursor] using stops

theorem stepAccounts {id : Id} {s t : Reading Id} {l : Fetch Id} {silent : Nat}
    (accounts : Accounts s.tail silent) (stepped : step id s l = some t) :
    ∃ more, Accounts t.tail (silent + more) ∧ (more = 0 ↔ Plain s l) := by
  cases l with
  | poll page =>
    have after : (if s.tail.bootId.isSome then s.tail.cursor else 0) = s.tail.cursor := by
      cases named : s.tail.bootId with
      | none => exact (accounts.started named).symm
      | some id => rfl
    simp only [step,after] at stepped
    split at stepped <;> try contradiction
    rename_i good
    simp only [validatePage,Bool.or_eq_true,Bool.not_eq_true',not_or,Bool.not_eq_false,
      Bool.and_eq_true] at good
    cases Option.some.inj stepped
    obtain ⟨adopted,same,named⟩ := adoptAccounts page accounts
    have valid := good.2.2
    exact ⟨_,consumeAccounts adopted named (same ▸ valid),innerNone valid⟩
  | drain page =>
    simp only [step] at stepped
    split at stepped <;> try contradiction
    rename_i good
    simp only [validatePage,Bool.or_eq_true,Bool.not_eq_true',not_or,Bool.not_eq_false,
      Bool.and_eq_true] at good
    cases Option.some.inj stepped
    exact drainAccounts accounts good.2.2
  | failed =>
    cases Option.some.inj stepped
    exact ⟨0,accounts,iff_of_true rfl trivial⟩

theorem runAccounts {id : Id} {s t : Reading Id} {fetches : List (Fetch Id)} {silent : Nat}
    (accounts : Accounts s.tail silent) (ran : (reading id).run s fetches = some t) :
    ∃ more, Accounts t.tail (silent + more) ∧ (more = 0 ↔ (reading id).Meets Plain s fetches) := by
  induction fetches generalizing s silent with
  | nil =>
    cases Option.some.inj ran
    exact ⟨0,accounts,iff_of_true rfl trivial⟩
  | cons l rest ih =>
    simp only [Machine.run,Option.bind_eq_some_iff] at ran
    obtain ⟨u,stepped,ran⟩ := ran
    obtain ⟨one,accounts,plain⟩ := stepAccounts accounts stepped
    obtain ⟨more,accounts,meets⟩ := ih accounts ran
    refine ⟨one + more,Nat.add_assoc _ _ _ ▸ accounts,?_⟩
    have here : (reading id).step s l = some u := stepped
    simp only [Machine.Meets,here,Option.mem_def,Option.some.injEq,forall_eq',← plain,← meets]
    omega

/- The counts in the notes add up to the lines that are missing exactly where every fetch
was plain. -/
theorem gapsReported {id : Id} {t : Reading Id} {fetches : List (Fetch Id)}
    (ran : (reading id).run newTail fetches = some t) :
    reported t.tail.notes = missing t.tail ↔ (reading id).Meets Plain newTail fetches := by
  have books : Accounts (newTail : Reading Id).tail 0 := ⟨.nil,nofun,rfl,fun _ => rfl⟩
  obtain ⟨silent,accounts,plain⟩ := runAccounts books ran
  have count := missingCount accounts
  have sum := accounts.sum
  rw [← plain]
  omega

def overwrittenFirst : List (Fetch Nat) :=
  [.poll ⟨7,80,"power on",[78,79],0⟩,.drain ⟨7,80,"power on",[80],0⟩]

theorem gapsReportedOne : ∃ t, (reading 7).run newTail overwrittenFirst = some t ∧
    reported t.tail.notes = 77 ∧ reported t.tail.notes = missing t.tail := by
  have ran : (reading 7).run newTail overwrittenFirst =
      some ⟨⟨some 7,80,[⟨0,78⟩,⟨0,79⟩,⟨0,80⟩],[.overwritten 77]⟩,false⟩ := by decide
  exact ⟨_,ran,rfl,(gapsReported ran).mpr (by decide)⟩

/- A line is overwritten while the page with its neighbours is sent, and no note says so. -/
theorem innerGapSilent : ∃ t, (reading 7).run newTail [.poll ⟨7,80,"power on",[77,79,80],0⟩] = some t ∧
    reported t.tail.notes = 76 ∧ missing t.tail = 77 :=
  ⟨⟨⟨some 7,80,[⟨0,77⟩,⟨0,79⟩,⟨0,80⟩],[.overwritten 76]⟩,false⟩,by decide,by decide,by decide⟩

end EpskcCommissioner.LogTailGaps
