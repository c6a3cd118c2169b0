import EpskcCommissioner.LogTail

/-! What the tail writes is in order: boot after boot, rising within a boot, nothing
twice. This holds as long as `drain` only meets lines of the boot that is followed. -/
namespace EpskcCommissioner.LogTailOrder
open LogTail

variable {Id : Type}

/- One line is before another: of an earlier boot, or earlier in its boot. -/
def Before (a b : Line) : Prop := a.boot < b.boot ∨ a.boot = b.boot ∧ a.seq < b.seq

/- Every line is of an earlier boot or no later than the cursor in this one. -/
def Behind (boot cursor : Nat) (written : List Line) : Prop :=
  ∀ line ∈ written, line.boot < boot ∨ line.boot = boot ∧ line.seq ≤ cursor

theorem behindLater {boot cursor later : Nat} {written : List Line} (le : cursor ≤ later)
    (behind : Behind boot cursor written) : Behind boot later written :=
  fun line mem => (behind line mem).imp_right (fun here => ⟨here.1,Nat.le_trans here.2 le⟩)

theorem behindNext {boot cursor next : Nat} {written : List Line} (lt : boot < next)
    (behind : Behind boot cursor written) : Behind next 0 written := by
  intro line mem
  have := behind line mem
  exact .inl (by omega)

theorem risingLast {seqs : List Nat} (rising : seqs.Pairwise (· < ·)) {seq last : Nat}
    (mem : seq ∈ seqs) (isLast : seqs.getLast? = some last) : seq ≤ last := by
  obtain ⟨front,rfl⟩ := List.getLast?_eq_some_iff.mp isLast
  rw [List.pairwise_append] at rising
  rcases List.mem_append.mp mem with earlier | same
  · exact Nat.le_of_lt (rising.2.2 seq earlier last List.mem_cons_self)
  · exact Nat.le_of_eq (List.mem_singleton.mp same)

theorem appendOrdered {boot cursor : Nat} {written : List Line} {seqs : List Nat}
    (ordered : written.Pairwise Before) (behind : Behind boot cursor written)
    (rising : seqs.Pairwise (· < ·)) (beyond : ∀ seq ∈ seqs, cursor < seq) :
    (written ++ seqs.map (Line.mk boot)).Pairwise Before ∧
    Behind boot (seqs.getLast?.getD cursor) (written ++ seqs.map (Line.mk boot)) := by
  have grows : cursor ≤ seqs.getLast?.getD cursor := by
    cases found : seqs.getLast? with
    | none => exact Nat.le_refl _
    | some last => exact Nat.le_of_lt (beyond last (List.mem_of_getLast? found))
  constructor
  · rw [List.pairwise_append]
    refine ⟨ordered,?_,?_⟩
    · rw [List.pairwise_map]
      exact rising.imp (fun lt => .inr ⟨rfl,lt⟩)
    · intro line mem next added
      obtain ⟨seq,inPage,rfl⟩ := List.mem_map.mp added
      have above := beyond seq inPage
      exact (behind line mem).imp_right (fun here => ⟨here.1,Nat.lt_of_le_of_lt here.2 above⟩)
  · intro line mem
    rcases List.mem_append.mp mem with old | added
    · exact behindLater grows behind line old
    · obtain ⟨seq,inPage,rfl⟩ := List.mem_map.mp added
      refine .inr ⟨rfl,?_⟩
      cases found : seqs.getLast? with
      | none => exact absurd inPage (by rw [List.getLast?_eq_none_iff.mp found]; exact List.not_mem_nil)
      | some last => exact risingLast rising inPage found

theorem hLogsRising (reason : String) (readable : Nat → Bool) (after : Nat) (b : Boot Id) :
    (hLogs reason readable after b).lines.Pairwise (· < ·) := by
  unfold hLogs
  dsimp only
  split
  · exact List.Pairwise.nil
  · exact ((List.pairwise_lt_range' _).filter _).sublist (List.take_sublist _ _)

theorem startBeyond {after latest : Nat} (some : startSeq after latest ≠ 0) :
    after < startSeq after latest := by
  by_cases past : after ≥ latest
  · simp [startSeq,past] at some
  · unfold startSeq
    rw [if_neg past]
    dsimp only
    split <;> omega

theorem hLogsBeyond (reason : String) (readable : Nat → Bool) (after : Nat) (b : Boot Id) :
    ∀ seq ∈ (hLogs reason readable after b).lines, after < seq := by
  unfold hLogs
  dsimp only
  split
  · exact fun _ mem => absurd mem List.not_mem_nil
  · rename_i started
    intro seq mem
    have inRange := List.mem_of_mem_filter (List.mem_of_mem_take mem)
    have beyond := startBeyond started
    have := (List.mem_range'_1.mp inRange).1
    omega

/- What reading a page leaves: more of the same boot's lines, in order. -/
structure Reads (page : Page Id) (t u : Tail Id) : Prop where
  bootId : u.bootId = t.bootId
  cursor : t.cursor ≤ u.cursor
  written : u.written = t.written ++ page.lines.map (Line.mk page.ordinal)
  last : page.lines.getLast?.getD t.cursor ≤ u.cursor

theorem consumeReads {page : Page Id} {t : Tail Id} (beyond : ∀ seq ∈ page.lines, t.cursor < seq) :
    Reads page t (consume page t).1 := by
  refine ⟨rfl,?_,rfl,Nat.le_refl _⟩
  change t.cursor ≤ page.lines.getLast?.getD t.cursor
  cases found : page.lines.getLast? with
  | none => exact Nat.le_refl _
  | some last => exact Nat.le_of_lt (beyond last (List.mem_of_getLast? found))

theorem drainReads {page : Page Id} {t : Tail Id} (followed : t.bootId ≠ none)
    (beyond : ∀ seq ∈ page.lines, t.cursor < seq) : Reads page t (drainPage page t).1 := by
  have known : t.bootId.isNone = false := by
    cases found : t.bootId with
    | none => exact absurd found followed
    | some id => rfl
  have reads := consumeReads beyond
  unfold drainPage
  simp only [known,Bool.false_eq_true,if_false]
  split
  · exact reads
  · split
    · rename_i skip
      simp only [Bool.and_eq_true,decide_eq_true_eq] at skip
      have later := Nat.le_of_lt skip.1
      exact ⟨reads.bootId,Nat.le_trans reads.cursor later,reads.written,Nat.le_trans reads.last later⟩
    · exact reads

structure Follows (history : List Id) (t : Tail Id) (k : Nat) : Prop where
  known : ∃ id, t.bootId = some id ∧ history[k]? = some id
  ordered : t.written.Pairwise Before
  behind : Behind k t.cursor t.written

theorem readsFollows {history : List Id} {page : Page Id} {t u : Tail Id} {k : Nat}
    (follows : Follows history t k) (reads : Reads page t u)
    (rising : page.lines.Pairwise (· < ·)) (beyond : ∀ seq ∈ page.lines, t.cursor < seq)
    (own : page.lines = [] ∨ page.ordinal = k) : Follows history u k := by
  have known : ∃ id, u.bootId = some id ∧ history[k]? = some id := by
    rw [reads.bootId]
    exact follows.known
  rcases own with empty | same
  · have written : u.written = t.written := by rw [reads.written, empty, List.map_nil, List.append_nil]
    refine ⟨known,?_,?_⟩ <;> rw [written]
    · exact follows.ordered
    · exact behindLater reads.cursor follows.behind
  · obtain ⟨ordered,behind⟩ := appendOrdered follows.ordered follows.behind rising beyond
    refine ⟨known,?_,?_⟩ <;> rw [reads.written, same]
    · exact ordered
    · exact behindLater reads.last behind

/- The page of a newer boot that waits while the older one is finished. -/
def Ahead (history : List Id) (k : Nat) : Pc Id → Prop
  | .rebooted page | .drainPrevious page => ∃ m, k < m ∧ history[m]? = some page.bootId
  | _ => True

theorem newBootFollows {s : Follow Id} {page : Page Id} {k m : Nat}
    (follows : Follows s.device.history s.tail k) (lt : k < m)
    (newer : s.device.history[m]? = some page.bootId) :
    Follows s.device.history (newBoot page s).tail m :=
  ⟨⟨_,rfl,newer⟩,follows.ordered,behindNext lt follows.behind⟩

theorem historyGrows {history : List Id} {k : Nat} {id : Id} (new : Id)
    (known : history[k]? = some id) : (history ++ [new])[k]? = some id := by
  obtain ⟨inside,_⟩ := List.getElem?_eq_some_iff.mp known
  rw [List.getElem?_append_left inside, known]

theorem followsGrows {history : List Id} {t : Tail Id} {k : Nat} (new : Id)
    (follows : Follows history t k) : Follows (history ++ [new]) t k := by
  obtain ⟨id,followed,known⟩ := follows.known
  exact ⟨⟨id,followed,historyGrows new known⟩,follows.ordered,follows.behind⟩

theorem aheadGrows {history : List Id} {pc : Pc Id} {k : Nat} (new : Id)
    (ahead : Ahead history k pc) : Ahead (history ++ [new]) k pc := by
  cases pc with
  | rebooted page =>
    obtain ⟨m,lt,newer⟩ := ahead
    exact ⟨m,lt,historyGrows new newer⟩
  | drainPrevious page =>
    obtain ⟨m,lt,newer⟩ := ahead
    exact ⟨m,lt,historyGrows new newer⟩
  | idle => trivial
  | drainCurrent => trivial

theorem rebootRetains {d : Device Id} {id : Id} (retained : Bool) (reason : String)
    (retains : Retains d) (fresh : id ∉ d.history) : Retains (reboot id retained reason d) := by
  refine ⟨?_,?_,?_,?_⟩
  · exact List.nodup_append.mpr ⟨retains.fresh,List.nodup_singleton _,fun a mem b new same =>
      fresh (List.mem_singleton.mp new ▸ same ▸ mem)⟩
  · exact List.length_append
  · exact List.getElem?_concat_length
  · intro b kept
    unfold reboot at kept
    dsimp only at kept
    split at kept <;> try contradiction
    cases Option.some.inj kept
    exact ⟨retains.newest.symm,historyGrows id retains.current⟩

theorem logRetains {d : Device Id} (lines : Nat) (retains : Retains d) : Retains (log lines d) :=
  ⟨retains.fresh,retains.newest,retains.current,retains.previous⟩

theorem sameOrdinal {history : List Id} {i k : Nat} {id : Id} (fresh : history.Nodup)
    (first : history[i]? = some id) (second : history[k]? = some id) : i = k := by
  obtain ⟨inside,_⟩ := List.getElem?_eq_some_iff.mp first
  exact (List.getElem?_inj inside fresh).mp (first.trans second.symm)

theorem olderBoot {d : Device Id} {k : Nat} {id : Id} (retains : Retains d)
    (known : d.history[k]? = some id) (other : d.current.id ≠ id) : k < d.current.ordinal := by
  obtain ⟨inside,_⟩ := List.getElem?_eq_some_iff.mp known
  have newest := retains.newest
  have : k ≠ d.current.ordinal := by
    rintro rfl
    exact other (Option.some.inj (retains.current.symm.trans known))
  omega

structure Followed (s : Follow Id) : Prop where
  retains : Retains s.device
  tail : s = started s.device ∨
    ∃ k, Follows s.device.history s.tail k ∧ Ahead s.device.history k s.pc

theorem pageOwn {d : Device Id} {t : Tail Id} {k : Nat} {b : Boot Id} (retains : Retains d)
    (follows : Follows d.history t k) (held : d.history[b.ordinal]? = some b.id)
    (same : some b.id = t.bootId) : b.ordinal = k := by
  obtain ⟨id,followed,known⟩ := follows.known
  cases Option.some.inj (same.trans followed)
  exact sameOrdinal retains.fresh held known

theorem consumeFollowed {s : Follow Id} {page : Page Id} {more done : Follow Id → Follow Id} {k : Nat}
    (P : Follow Id → Prop) (follows : Follows s.device.history s.tail k)
    (rising : page.lines.Pairwise (· < ·)) (beyond : ∀ seq ∈ page.lines, s.tail.cursor < seq)
    (own : page.ordinal = k)
    (go : ∀ u, Follows s.device.history u k → P (more {s with tail := u}) ∧ P (done {s with tail := u})) :
    P (consumeThen page more done s) := by
  obtain ⟨again,stop⟩ := go _ (readsFollows follows (consumeReads beyond) rising beyond (.inr own))
  unfold consumeThen
  dsimp only
  split
  · exact again
  · exact stop

theorem drainFollowed {s : Follow Id} {page : Option (Page Id)} {done : Follow Id → Follow Id} {k : Nat}
    (P : Follow Id → Prop) (follows : Follows s.device.history s.tail k)
    (rising : ∀ p ∈ page, p.lines.Pairwise (· < ·))
    (beyond : ∀ p ∈ page, ∀ seq ∈ p.lines, s.tail.cursor < seq)
    (own : ∀ p ∈ page, p.lines = [] ∨ p.ordinal = k)
    (go : ∀ u, Follows s.device.history u k → P {s with tail := u} ∧ P (done {s with tail := u})) :
    P (drain page done s) := by
  cases page with
  | none => exact (go s.tail follows).2
  | some p =>
    obtain ⟨id,followed,_⟩ := follows.known
    have reads := drainReads (fun unknown => nomatch followed.symm.trans unknown) (beyond p rfl)
    obtain ⟨again,stop⟩ := go _ (readsFollows follows reads (rising p rfl) (beyond p rfl) (own p rfl))
    unfold drain
    dsimp only
    split
    · exact again
    · exact stop

variable [DecidableEq Id]

def drained (readable : Nat → Bool) (s : Follow Id) : Option (Page Id) :=
  let page := hLogs s.device.resetReason readable s.tail.cursor
  match s.pc with
  | .drainPrevious _ => s.device.previous.map page
  | .drainCurrent => some (page s.device.current)
  | _ => none

/- `drain` receives lines of a boot whose ID is not the one that is followed. -/
def misfed (s : Follow Id) : Label Id → Bool
  | .fetch readable =>
    (drained readable s).any (fun page => !page.lines.isEmpty && some page.bootId != s.tail.bootId)
  | _ => false

def Matching (s : Follow Id) (l : Label Id) : Prop := misfed s l = false
instance (s : Follow Id) (l) : Decidable (Matching s l) := inferInstanceAs (Decidable (_ = _))

theorem firstFollowed {s : Follow Id} (readable : Nat → Bool) (retains : Retains s.device)
    (first : s = started s.device) : Followed (fetch readable s) := by
  have pc : s.pc = .idle := by rw [first]; rfl
  have unknown : s.tail.bootId = none := by rw [first]; rfl
  have cursor : s.tail.cursor = 0 := by rw [first]; rfl
  have written : s.tail.written = [] := by rw [first]; rfl
  unfold fetch
  rw [pc]
  dsimp only
  unfold pollCurrent
  rw [unknown]
  dsimp only
  have follows : Follows s.device.history {s.tail with bootId := some s.device.current.id}
      s.device.current.ordinal := by
    refine ⟨⟨_,rfl,retains.current⟩,?_,?_⟩
    · rw [written]
      exact List.Pairwise.nil
    · rw [Behind, written]
      exact fun _ mem => absurd mem List.not_mem_nil
  refine consumeFollowed Followed follows (hLogsRising _ _ _ _) ?_ rfl (fun u follows => ?_)
  · rw [cursor]
    exact hLogsBeyond _ _ _ _
  · exact ⟨⟨retains,.inr ⟨_,follows,trivial⟩⟩,⟨retains,.inr ⟨_,follows,trivial⟩⟩⟩

theorem pollFollowed {s : Follow Id} {k : Nat} (readable : Nat → Bool) (retains : Retains s.device)
    (follows : Follows s.device.history s.tail k) (pc : s.pc = .idle) :
    Followed (fetch readable s) := by
  obtain ⟨id,followed,known⟩ := follows.known
  unfold fetch
  rw [pc]
  dsimp only
  rw [followed, Option.isSome_some, if_pos rfl]
  unfold pollCurrent
  rw [followed]
  dsimp only
  split
  · rename_i other
    exact ⟨retains,.inr ⟨k,follows,_,olderBoot retains known other,retains.current⟩⟩
  · rename_i same
    have own := pageOwn retains follows retains.current ((congrArg some (not_not.mp same)).trans followed.symm)
    exact consumeFollowed Followed follows (hLogsRising _ _ _ _) (hLogsBeyond _ _ _ _) own
      (fun u follows => ⟨⟨retains,.inr ⟨_,follows,trivial⟩⟩,⟨retains,.inr ⟨_,follows,trivial⟩⟩⟩)

theorem lostFollowed {s : Follow Id} {k : Nat} {page : Page Id} (readable : Nat → Bool)
    (retains : Retains s.device) (follows : Follows s.device.history s.tail k)
    (ahead : ∃ m, k < m ∧ s.device.history[m]? = some page.bootId) (pc : s.pc = .rebooted page) :
    Followed (fetch readable s) := by
  obtain ⟨m,lt,newer⟩ := ahead
  have missed : Followed (newBoot page {s with tail := {s.tail with notes := s.tail.notes ++ [.notRetained]}}) :=
    ⟨retains,.inr ⟨m,newBootFollows (s := {s with tail := {s.tail with notes := s.tail.notes ++ [.notRetained]}})
      ⟨follows.known,follows.ordered,follows.behind⟩ lt newer,trivial⟩⟩
  unfold fetch
  rw [pc]
  dsimp only
  unfold pollPrevious
  cases kept : s.device.previous with
  | none => exact missed
  | some b =>
    dsimp only [Option.map_some]
    split
    · rename_i same
      have own := pageOwn retains follows (retains.previous b kept).2 same
      exact consumeFollowed Followed follows (hLogsRising _ _ _ _) (hLogsBeyond _ _ _ _) own
        (fun u follows => ⟨⟨retains,.inr ⟨k,follows,m,lt,newer⟩⟩,
          ⟨retains,.inr ⟨m,newBootFollows (s := {s with tail := u}) follows lt newer,trivial⟩⟩⟩)
    · exact missed

theorem drainedOwn {s : Follow Id} {readable : Nat → Bool} {k : Nat} {p : Page Id}
    (retains : Retains s.device) (follows : Follows s.device.history s.tail k)
    (matching : Matching s (.fetch readable)) (mem : drained readable s = some p)
    (held : s.device.history[p.ordinal]? = some p.bootId) : p.lines = [] ∨ p.ordinal = k := by
  simp only [Matching,misfed,mem,Option.any_some,Bool.and_eq_false_iff,Bool.not_eq_false',
    List.isEmpty_iff,bne_eq_false_iff_eq] at matching
  refine matching.imp_right (fun same => ?_)
  exact pageOwn (b := ⟨p.bootId,0,p.ordinal⟩) retains follows held same

theorem previousFollowed {s : Follow Id} {k : Nat} {page : Page Id} {readable : Nat → Bool}
    (retains : Retains s.device) (follows : Follows s.device.history s.tail k)
    (matching : Matching s (.fetch readable))
    (ahead : ∃ m, k < m ∧ s.device.history[m]? = some page.bootId) (pc : s.pc = .drainPrevious page) :
    Followed (fetch readable s) := by
  obtain ⟨m,lt,newer⟩ := ahead
  have received : drained readable s =
      s.device.previous.map (hLogs s.device.resetReason readable s.tail.cursor) := by
    unfold drained
    rw [pc]
  unfold fetch
  rw [pc]
  dsimp only
  refine drainFollowed Followed follows ?_ ?_ ?_
    (fun u follows => ⟨⟨retains,.inr ⟨k,follows,by rw [pc]; exact ⟨m,lt,newer⟩⟩⟩,
      ⟨retains,.inr ⟨m,newBootFollows (s := {s with tail := u}) follows lt newer,trivial⟩⟩⟩)
  all_goals
    intro p mem
    obtain ⟨b,kept,rfl⟩ := Option.map_eq_some_iff.mp mem
  · exact hLogsRising _ _ _ _
  · exact hLogsBeyond _ _ _ _
  · exact drainedOwn retains follows matching (received.trans mem) (retains.previous b kept).2

theorem currentFollowed {s : Follow Id} {k : Nat} {readable : Nat → Bool}
    (retains : Retains s.device) (follows : Follows s.device.history s.tail k)
    (matching : Matching s (.fetch readable)) (pc : s.pc = .drainCurrent) :
    Followed (fetch readable s) := by
  have received : drained readable s =
      some (hLogs s.device.resetReason readable s.tail.cursor s.device.current) := by
    unfold drained
    rw [pc]
  unfold fetch
  rw [pc]
  dsimp only
  refine drainFollowed Followed follows ?_ ?_ ?_
    (fun u follows => ⟨⟨retains,.inr ⟨k,follows,by rw [pc]; trivial⟩⟩,⟨retains,.inr ⟨k,follows,trivial⟩⟩⟩)
  all_goals
    intro p mem
    cases Option.some.inj mem
  · exact hLogsRising _ _ _ _
  · exact hLogsBeyond _ _ _ _
  · exact drainedOwn retains follows matching received retains.current

theorem followedStep {s t : Follow Id} {l : Label Id} (followed : Followed s)
    (matching : Matching s l) (stepped : step s l = some t) : Followed t := by
  obtain ⟨retains,tail⟩ := followed
  cases l with
  | log lines =>
    cases Option.some.inj stepped
    refine ⟨logRetains lines retains,tail.imp (fun first => ?_) id⟩
    rw [first]
    rfl
  | reboot id retained reason =>
    simp only [step] at stepped
    split at stepped <;> try contradiction
    rename_i fresh
    cases Option.some.inj stepped
    refine ⟨rebootRetains retained reason retains fresh,tail.imp (fun first => ?_) (fun known => ?_)⟩
    · rw [first]
      rfl
    · obtain ⟨k,follows,ahead⟩ := known
      exact ⟨k,followsGrows id follows,aheadGrows id ahead⟩
  | fail =>
    cases Option.some.inj stepped
    refine ⟨retains,tail.imp (fun first => ?_) (fun known => ?_)⟩
    · rw [first]
      rfl
    · obtain ⟨k,follows,_⟩ := known
      exact ⟨k,follows,trivial⟩
  | fetch readable =>
    cases Option.some.inj stepped
    rcases tail with first | ⟨k,follows,ahead⟩
    · exact firstFollowed readable retains first
    · cases pc : s.pc with
      | idle => exact pollFollowed readable retains follows pc
      | rebooted page =>
        rw [pc] at ahead
        exact lostFollowed readable retains follows ahead pc
      | drainPrevious page =>
        rw [pc] at ahead
        exact previousFollowed retains follows matching ahead pc
      | drainCurrent => exact currentFollowed retains follows matching pc

theorem followedRun {s : Follow Id} (reached : (follow Id).Under Matching s) : Followed s := by
  refine underInvariant Followed ?_ (fun s l t followed matching stepped =>
    followedStep followed matching stepped) reached
  rintro s ⟨d,retains,rfl⟩
  exact ⟨retains,.inl rfl⟩

/- Each line is written once, the lines of a boot rise, and boots do not go back. -/
structure InOrder (written : List Line) : Prop where
  once : written.Nodup
  rising : ∀ boot, (written.filter (fun l => l.boot = boot)).Pairwise (fun a b => a.seq < b.seq)
  forward : written.Pairwise (fun a b => a.boot ≤ b.boot)

theorem orderedInOrder {written : List Line} (ordered : written.Pairwise Before) : InOrder written := by
  refine ⟨ordered.imp (fun before same => ?_),fun boot => ?_,ordered.imp (fun before => ?_)⟩
  · subst same
    rcases before with lt | ⟨_,lt⟩ <;> exact Nat.lt_irrefl _ lt
  · rw [List.pairwise_filter]
    refine ordered.imp (fun before first second => ?_)
    simp only [decide_eq_true_eq] at first second
    rcases before with lt | ⟨_,lt⟩ <;> omega
  · rcases before with lt | ⟨same,_⟩ <;> omega

theorem tailInOrder {s : Follow Id} (reached : (follow Id).Under Matching s) :
    InOrder s.tail.written := by
  obtain first | ⟨k,follows,_⟩ := (followedRun reached).tail
  · rw [first]
    exact orderedInOrder List.Pairwise.nil
  · exact orderedInOrder follows.ordered

def booted : Device Nat := ⟨⟨0,0,0⟩,none,"power on",[0]⟩

theorem bootedRetains : Retains booted := ⟨by decide,rfl,rfl,nofun⟩

def whole : Label Nat := .fetch (fun _ => true)

/- A crash after the last poll: the lines of the lost boot come before those of the new. -/
def crash : List (Label Nat) :=
  [.log 3,whole,.log 2,.reboot 1 true "panic",.log 1,whole,whole,whole]

theorem tailInOrderCrash : ∃ s, (follow Nat).Under Matching s ∧
    s.tail.written = [⟨0,1⟩,⟨0,2⟩,⟨0,3⟩,⟨0,4⟩,⟨0,5⟩,⟨1,1⟩] ∧ InOrder s.tail.written := by
  obtain ⟨s,ran,written⟩ : ∃ s, (follow Nat).run (started booted) crash = some s ∧
      s.tail.written = [⟨0,1⟩,⟨0,2⟩,⟨0,3⟩,⟨0,4⟩,⟨0,5⟩,⟨1,1⟩] := ⟨_,rfl,rfl⟩
  have reached : (follow Nat).Under Matching s :=
    underRun (.start ⟨booted,bootedRetains,rfl⟩) (by decide) ran
  exact ⟨s,reached,written,tailInOrder reached⟩

/- The device reboots after the first page of a poll and before the page that `drain`
asks for; the new boot has more lines than the page before ended at. -/
def rebootInDrain : List (Label Nat) :=
  [.log 201,whole,.reboot 1 true "panic",.log 202,whole,whole,whole,whole,whole]

theorem rebootInDrainRepeats : ∃ s, (follow Nat).Reachable s ∧ ¬s.tail.written.Nodup := by
  have ran : (((follow Nat).run (started booted) rebootInDrain).any fun s =>
      s.tail.written.count ⟨1,201⟩ == 2) = true := by decide +kernel
  have first : (follow Nat).start (started booted) := ⟨booted,bootedRetains,rfl⟩
  obtain ⟨s,reached,twice⟩ := runEnds first ran
  refine ⟨s,reached,fun once => ?_⟩
  have := List.nodup_iff_count_le_one.mp once ⟨1,201⟩
  rw [beq_iff_eq.mp twice] at this
  exact absurd this (by decide)

end EpskcCommissioner.LogTailOrder
