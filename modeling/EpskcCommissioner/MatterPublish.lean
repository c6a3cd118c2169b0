import EpskcCommissioner.MatterBattery

/-! What the pending flag guarantees: one publish job at a time, a cache that tells what
was written, and no sample that is left unpublished without a failure. -/
namespace EpskcCommissioner.MatterPublish
open MatterBattery

/- The request that set the pending flag and has neither queued its job nor given up. -/
def holds : Requester → Bool
  | .scheduling | .failed => true
  | _ => false

/- Whoever set the flag is the only one: a request, the queued job, or the job that has
not cleared it yet. -/
structure Single (s : Battery) : Prop where
  alone : ∀ a b, holds (s.requester a) = true → holds (s.requester b) = true → a = b
  apart : ∀ a, holds (s.requester a) = true → s.jobs = 0 ∧ s.publisher ≠ .entered
  queued : s.jobs ≤ 1 ∧ (s.jobs = 1 → s.publisher ≠ .entered)
  pending : s.pending = true ↔
    (∃ a, holds (s.requester a) = true) ∨ s.jobs = 1 ∨ s.publisher = .entered

theorem goToRequester (id : Nat) (pc : Requester) (s : Battery) (a : Nat) :
    (goTo id pc s).requester a = if a = id then pc else s.requester a :=
  Function.update_apply _ _ _ _

theorem goToHolds {id : Nat} {pc : Requester} {s : Battery}
    (same : holds pc = holds (s.requester id)) (a : Nat) :
    holds ((goTo id pc s).requester a) = holds (s.requester a) := by
  rw [goToRequester]
  split
  · rename_i here
    rw [here, same]
  · rfl

theorem singleSame {s t : Battery} (single : Single s)
    (same : ∀ a, holds (t.requester a) = holds (s.requester a)) (jobs : t.jobs = s.jobs)
    (pending : t.pending = s.pending)
    (entered : t.publisher = .entered ↔ s.publisher = .entered) : Single t := by
  refine ⟨fun a b first second => ?_,fun a held => ?_,?_,?_⟩
  · exact single.alone a b ((same a).symm.trans first) ((same b).symm.trans second)
  · rw [jobs, ne_eq, entered]
    exact single.apart a ((same a).symm.trans held)
  · rw [jobs, ne_eq, entered]
    exact single.queued
  · simp only [pending,same,jobs,entered]
    exact single.pending

theorem singleGoTo {s t : Battery} {id : Nat} {pc : Requester} (single : Single s)
    (same : holds pc = holds (s.requester id))
    (requester : t.requester = s.requester) (jobs : t.jobs = s.jobs)
    (pending : t.pending = s.pending) (publisher : t.publisher = s.publisher) :
    Single (goTo id pc t) := by
  refine singleSame single (fun a => ?_) jobs pending (by rw [← publisher]; rfl)
  rw [goToHolds (by rw [requester]; exact same), requester]

theorem singleTake {s : Battery} {id : Nat} (single : Single s) (free : s.pending = false) :
    Single (goTo id .scheduling {s with pending := true}) := by
  have none : ¬((∃ a, holds (s.requester a) = true) ∨ s.jobs = 1 ∨ s.publisher = .entered) :=
    fun held => absurd (single.pending.mpr held) (ne_true_of_eq_false free)
  have mine : ∀ a, holds ((goTo id .scheduling {s with pending := true}).requester a) = true →
      a = id := by
    intro a held
    rw [goToRequester] at held
    split at held
    · assumption
    · exact absurd (.inl ⟨a,held⟩) none
  refine ⟨fun a b first second => (mine a first).trans (mine b second).symm,fun a _ => ?_,?_,?_⟩
  · have jobs := single.queued.1
    exact ⟨by by_contra some; exact none (.inr (.inl (by change ¬s.jobs = 0 at some; omega))),
      fun entered => none (.inr (.inr entered))⟩
  · exact single.queued
  · refine ⟨fun _ => .inl ⟨id,?_⟩,fun _ => rfl⟩
    rw [goToRequester, if_pos rfl]
    rfl

theorem othersFree {s : Battery} {id : Nat} (pc : Requester) (single : Single s)
    (held : holds (s.requester id) = true) (after : holds pc = false) (a : Nat) :
    holds ((goTo id pc s).requester a) = false := by
  rw [goToRequester]
  split
  · exact after
  · rename_i other
    exact Bool.eq_false_iff.mpr (fun also => other (single.alone a id also held))

theorem singleQueue {s : Battery} {id : Nat} (single : Single s)
    (held : holds (s.requester id) = true) :
    Single (goTo id .idle {s with jobs := s.jobs + 1}) := by
  have free := othersFree .idle single held rfl
  obtain ⟨jobs,entered⟩ := single.apart id held
  refine ⟨fun a _ first => ?_,fun a first => ?_,⟨?_,fun _ => entered⟩,fun _ => .inr (.inl ?_),fun _ => ?_⟩
  · exact absurd first (ne_true_of_eq_false (free a))
  · exact absurd first (ne_true_of_eq_false (free a))
  · exact Nat.le_of_eq (congrArg (· + 1) jobs)
  · exact congrArg (· + 1) jobs
  · exact single.pending.mpr (.inl ⟨id,held⟩)

theorem singleGiveUp {s : Battery} {id : Nat} (single : Single s)
    (held : holds (s.requester id) = true) :
    Single (goTo id .idle {s with pending := false, flagLost := true}) := by
  have free := othersFree .idle single held rfl
  obtain ⟨jobs,entered⟩ := single.apart id held
  refine ⟨fun a _ first => ?_,fun a first => ?_,single.queued,nofun,?_⟩
  · exact absurd first (ne_true_of_eq_false (free a))
  · exact absurd first (ne_true_of_eq_false (free a))
  · rintro (⟨a,first⟩ | queued | inside)
    · exact absurd first (ne_true_of_eq_false (free a))
    · exact absurd (queued.symm.trans jobs) (by decide)
    · exact absurd inside entered

theorem singleProceed {s t : Battery} {id : Nat} {ok : Bool} (single : Single s)
    (stepped : proceed id ok s = some t) : Single t := by
  unfold proceed at stepped
  split at stepped <;> try contradiction
  all_goals rename_i pc
  all_goals cases Option.some.inj stepped
  · exact singleGoTo single (by rw [pc]; rfl) rfl rfl rfl rfl
  · refine singleGoTo single ?_ rfl rfl rfl rfl
    rw [pc]
    split <;> rfl
  · split
    · exact singleGoTo single (by rw [pc]; rfl) rfl rfl rfl rfl
    · exact singleTake single (Bool.eq_false_iff.mpr ‹_›)
  · have held : holds (s.requester id) = true := by rw [pc]; rfl
    split
    · exact singleQueue single held
    · exact singleGoTo single held.symm rfl rfl rfl rfl
  · exact singleGiveUp single (by rw [pc]; rfl)

theorem updateFrame (a : Attribute) (next : Values) (now : Nat) (ok : Bool) (s : Battery) :
    (update a next now ok s).requester = s.requester ∧ (update a next now ok s).jobs = s.jobs ∧
    (update a next now ok s).pending = s.pending ∧ (update a next now ok s).sample = s.sample ∧
    (update a next now ok s).ready = s.ready ∧
    (update a next now ok s).scheduleFailed = s.scheduleFailed ∧
    (update a next now ok s).flagLost = s.flagLost ∧ (update a next now ok s).last = s.last := by
  unfold update
  split <;> exact ⟨rfl,rfl,rfl,rfl,rfl,rfl,rfl,rfl⟩

theorem singlePublish {s t : Battery} {ok : Bool} (single : Single s)
    (stepped : publishStep ok s = some t) : Single t := by
  unfold publishStep at stepped
  split at stepped
  · rename_i pc
    split at stepped <;> try contradiction
    rename_i some
    cases Option.some.inj stepped
    have one : s.jobs = 1 := by have := single.queued.1; omega
    have free : ∀ a, ¬holds (s.requester a) = true := fun a held => some (single.apart a held).1
    refine ⟨single.alone,fun a held => absurd held (free a),?_,fun _ => .inr (.inr rfl),fun _ => ?_⟩
    · change s.jobs - 1 ≤ 1 ∧ (s.jobs - 1 = 1 → _)
      exact ⟨by omega,fun two => by omega⟩
    · exact single.pending.mpr (.inr (.inl one))
  · rename_i pc
    cases Option.some.inj stepped
    have free : ∀ a, ¬holds (s.requester a) = true := fun a held => (single.apart a held).2 pc
    have empty : ¬s.jobs = 1 := fun one => single.queued.2 one pc
    refine ⟨single.alone,fun a held => absurd held (free a),⟨single.queued.1,nofun⟩,nofun,?_⟩
    rintro (⟨a,held⟩ | queued | inside)
    · exact absurd held (free a)
    · exact absurd queued empty
    · exact nomatch inside
  · rename_i pc
    cases Option.some.inj stepped
    exact singleSame single (fun _ => rfl) rfl rfl (by simp [pc])
  · rename_i pc
    cases Option.some.inj stepped
    exact singleSame single (fun _ => rfl) rfl rfl (by simp [pc])
  · rename_i x now failed a pc
    obtain ⟨requester,jobs,pending,_⟩ := updateFrame a (matterBatteryConvert x now) now ok s
    split at stepped <;> cases Option.some.inj stepped
    · exact singleSame single (fun b => by rw [← requester]) jobs pending (by simp [pc])
    · exact singleSame single (fun b => by rw [← requester]) jobs pending (by simp [pc])

theorem singleStep {s t : Battery} {l : Label} (single : Single s) (stepped : step s l = some t) :
    Single t := by
  cases l with
  | tick ms =>
    cases Option.some.inj stepped
    exact singleSame single (fun _ => rfl) rfl rfl Iff.rfl
  | note id status =>
    simp only [step] at stepped
    split at stepped <;> try contradiction
    rename_i pc
    cases Option.some.inj stepped
    exact singleGoTo single (by rw [pc]; rfl) rfl rfl rfl rfl
  | start id =>
    simp only [step] at stepped
    split at stepped <;> try contradiction
    rename_i pc
    cases Option.some.inj stepped
    exact singleGoTo single (by rw [pc]; rfl) rfl rfl rfl rfl
  | watchdog id =>
    simp only [step] at stepped
    split at stepped <;> try contradiction
    rename_i pc
    cases Option.some.inj stepped
    exact singleGoTo single (by rw [pc]; rfl) rfl rfl rfl rfl
  | proceed id ok => exact singleProceed single stepped
  | publish ok => exact singlePublish single stepped

/- Each cached value is what its attribute was last written to, or the mark of one that
never was. -/
def Cached (s : Battery) : Prop :=
  ∀ a, s.written a = none ∧ field s.sent a = -2 ∨
    (s.written a).map reading = some (field s.sent a)

theorem readingNullable {size : Nat} {v : Int} (low : -1 ≤ v) (high : v < size) :
    reading (nullable size v) = v := by
  unfold nullable
  split
  · exact (by omega : (-1 : Int) = v)
  · change ((v.toNat % size : Nat) : Int) = v
    rw [Int.natCast_emod, Int.toNat_of_nonneg (by omega)]
    exact Int.emod_eq_of_lt (by omega) high

theorem readingEnum8 {v : Int} (low : 0 ≤ v) (high : v < 256) : reading (enum8 v) = v := by
  change (((v % 256).toNat : Nat) : Int) = v
  omega

/- What the conversion yields fits each attribute's type; only a null level does not, and
`publish` does not write that one. -/
theorem convertFits (x : Sample) (now : Nat) :
    let v := matterBatteryConvert x now
    (-1 ≤ v.percentHalf ∧ v.percentHalf ≤ 200) ∧ (-1 ≤ v.millivolts ∧ v.millivolts ≤ 4350) ∧
    (0 ≤ v.status ∧ v.status ≤ 3) ∧ (0 ≤ v.charge ∧ v.charge ≤ 3) ∧ v.level ≤ 2 := by
  unfold matterBatteryConvert
  split
  · decide
  · split
    · decide
    · refine ⟨?_,?_,?_,?_,?_⟩
      · dsimp only
        split
        · rename_i known
          simp only [Bool.and_eq_true,decide_eq_true_eq] at known
          omega
        · decide
      · dsimp only
        split
        · omega
        · decide
      · dsimp only
        split <;> decide
      · dsimp only
        split
        · decide
        · split
          · decide
          · split <;> decide
      · dsimp only
        split
        · split
          · decide
          · split <;> decide
        · decide

theorem dueFits {sent : Values} {x : Sample} {voltageAt now now' : Nat} {a : Attribute}
    (isDue : due sent (matterBatteryConvert x now) voltageAt now' a = true) :
    reading (encode a (field (matterBatteryConvert x now) a)) = field (matterBatteryConvert x now) a := by
  obtain ⟨percent,voltage,status,charge,level⟩ := convertFits x now
  cases a with
  | percent => exact readingNullable percent.1 (by simp only [field]; omega)
  | voltage => exact readingNullable voltage.1 (by simp only [field]; omega)
  | status => exact readingEnum8 status.1 (by simp only [field]; omega)
  | charge => exact readingEnum8 charge.1 (by simp only [field]; omega)
  | level =>
    simp only [due,Bool.and_eq_true,decide_eq_true_eq] at isDue
    exact readingEnum8 isDue.1 (by simp only [field]; omega)

theorem cachedUpdate {s : Battery} {x : Sample} {now : Nat} {a : Attribute} {ok : Bool}
    (cached : Cached s) : Cached (update a (matterBatteryConvert x now) now ok s) := by
  intro b
  unfold update
  split
  · rename_i done
    simp only [Bool.and_eq_true] at done
    change Function.update s.written a _ b = none ∧ field (withField _ a _) b = -2 ∨
      (Function.update s.written a _ b).map reading = some (field (withField _ a _) b)
    rw [Function.update_apply, fieldWithField]
    by_cases same : b = a
    · subst same
      rw [if_pos rfl, if_pos rfl]
      exact .inr (congrArg some (dueFits done.1))
    · rw [if_neg same, if_neg (Ne.symm same)]
      exact cached b
  · exact cached b

/- What everybody but the event loop leaves alone. -/
structure Outside (s t : Battery) : Prop where
  publisher : t.publisher = s.publisher
  sent : t.sent = s.sent
  written : t.written = s.written
  last : t.last = s.last

theorem outsideProceed {s t : Battery} {id : Nat} {ok : Bool} (stepped : proceed id ok s = some t) :
    Outside s t := by
  unfold proceed at stepped
  split at stepped <;> try contradiction
  all_goals cases Option.some.inj stepped
  · exact ⟨rfl,rfl,rfl,rfl⟩
  · exact ⟨rfl,rfl,rfl,rfl⟩
  · split <;> exact ⟨rfl,rfl,rfl,rfl⟩
  · split <;> exact ⟨rfl,rfl,rfl,rfl⟩
  · exact ⟨rfl,rfl,rfl,rfl⟩

theorem outsideStep {s t : Battery} {l : Label} (stepped : step s l = some t) :
    Outside s t ∨ ∃ ok, publishStep ok s = some t := by
  cases l with
  | tick ms =>
    cases Option.some.inj stepped
    exact .inl ⟨rfl,rfl,rfl,rfl⟩
  | note id status =>
    simp only [step] at stepped
    split at stepped <;> try contradiction
    cases Option.some.inj stepped
    exact .inl ⟨rfl,rfl,rfl,rfl⟩
  | start id =>
    simp only [step] at stepped
    split at stepped <;> try contradiction
    cases Option.some.inj stepped
    exact .inl ⟨rfl,rfl,rfl,rfl⟩
  | watchdog id =>
    simp only [step] at stepped
    split at stepped <;> try contradiction
    cases Option.some.inj stepped
    exact .inl ⟨rfl,rfl,rfl,rfl⟩
  | proceed id ok => exact .inl (outsideProceed stepped)
  | publish ok => exact .inr ⟨ok,stepped⟩

theorem cachedStep {s t : Battery} {l : Label} (cached : Cached s) (stepped : step s l = some t) :
    Cached t := by
  obtain outside | ⟨ok,stepped⟩ := outsideStep stepped
  · unfold Cached
    rw [outside.written, outside.sent]
    exact cached
  · unfold publishStep at stepped
    split at stepped
    · split at stepped <;> try contradiction
      cases Option.some.inj stepped
      exact cached
    · cases Option.some.inj stepped
      exact cached
    · cases Option.some.inj stepped
      exact cached
    · cases Option.some.inj stepped
      exact cached
    · split at stepped <;> cases Option.some.inj stepped <;> exact cachedUpdate cached

/- The attributes that always follow the sample: the voltage waits for its minute and a
null level is not written. -/
def shows : Attribute → Bool
  | .percent | .status | .charge => true
  | .voltage | .level => false

def index : Attribute → Nat
  | .percent => 0
  | .voltage => 1
  | .status => 2
  | .charge => 3
  | .level => 4

theorem indexFollowing {a b : Attribute} (next : following a = some b) : index b = index a + 1 := by
  cases a <;> cases next <;> rfl

theorem indexLast {a : Attribute} (last : following a = none) (b : Attribute) :
    index b < index a + 1 := by
  cases a <;> try contradiction
  cases b <;> decide

theorem indexInjective {a b : Attribute} (same : index a = index b) : a = b := by
  cases a <;> cases b <;> first | rfl | contradiction

def Shown (x : Sample) (now : Nat) (sent : Values) (b : Attribute) : Prop :=
  shows b = true → field sent b = field (matterBatteryConvert x now) b

/- A run without a failure shows its sample: all attributes up to the one at hand, and all
of them until the next run. -/
def Progress (s : Battery) : Prop :=
  match s.publisher with
  | .updating x now failed a => failed = false → ∀ b, index b < index a → Shown x now s.sent b
  | _ => ∀ p, s.last = some p → p.failed = false → ∀ b, Shown p.sample p.now s.sent b

theorem updateOther {s : Battery} {a b : Attribute} {next : Values} {now : Nat} {ok : Bool}
    (other : b ≠ a) : field (update a next now ok s).sent b = field s.sent b := by
  unfold update
  split
  · exact (fieldWithField _ _ _ _).trans (if_neg (Ne.symm other))
  · rfl

theorem updateOwn {s : Battery} {a : Attribute} {next : Values} {now : Nat} {ok : Bool}
    (shown : shows a = true) (succeeded : (due s.sent next s.voltageAt now a && !ok) = false) :
    field (update a next now ok s).sent a = field next a := by
  unfold update
  split
  · exact (fieldWithField _ _ _ _).trans (if_pos rfl)
  · rename_i kept
    have same : due s.sent next s.voltageAt now a = false := by
      cases isDue : due s.sent next s.voltageAt now a <;> cases ok <;> simp_all
    cases a with
    | percent => exact (by simpa [due] using same : next.percentHalf = s.sent.percentHalf).symm
    | status => exact (by simpa [due] using same : next.status = s.sent.status).symm
    | charge => exact (by simpa [due] using same : next.charge = s.sent.charge).symm
    | voltage => contradiction
    | level => contradiction

theorem updateShown {s : Battery} {x : Sample} {now : Nat} {a : Attribute} {ok : Bool}
    (succeeded : (due s.sent (matterBatteryConvert x now) s.voltageAt now a && !ok) = false)
    (before : ∀ b, index b < index a → Shown x now s.sent b) (b : Attribute)
    (upTo : index b < index a + 1) :
    Shown x now (update a (matterBatteryConvert x now) now ok s).sent b := by
  intro shown
  by_cases same : b = a
  · subst same
    exact updateOwn shown succeeded
  · rw [updateOther same]
    have : index b ≠ index a := fun equal => same (indexInjective equal)
    exact before b (by omega) shown

theorem progressStep {s t : Battery} {l : Label} (progress : Progress s)
    (stepped : step s l = some t) : Progress t := by
  obtain outside | ⟨ok,stepped⟩ := outsideStep stepped
  · unfold Progress
    rw [outside.publisher, outside.sent, outside.last]
    exact progress
  · unfold publishStep at stepped
    unfold Progress at progress
    split at stepped
    · rename_i pc
      split at stepped <;> try contradiction
      cases Option.some.inj stepped
      simpa [Progress,pc] using progress
    · rename_i pc
      cases Option.some.inj stepped
      simpa [Progress,pc] using progress
    · rename_i pc
      cases Option.some.inj stepped
      simpa [Progress,pc] using progress
    · cases Option.some.inj stepped
      exact fun _ b before => absurd before (Nat.not_lt_zero _)
    · rename_i x now failed a pc
      rw [pc] at progress
      split at stepped
      · rename_i b next
        cases Option.some.inj stepped
        intro succeeded
        rw [Bool.or_eq_false_iff] at succeeded
        rw [indexFollowing next]
        exact updateShown succeeded.2 (progress succeeded.1)
      · rename_i last
        cases Option.some.inj stepped
        rintro p done succeeded b
        cases Option.some.inj done
        rw [Bool.or_eq_false_iff] at succeeded
        exact updateShown succeeded.2 (progress succeeded.1) b (indexLast last b)

def asks : Requester → Bool
  | .requesting | .exchanging => true
  | _ => false

def carries : Publisher → Option Sample
  | .copied x => some x
  | .updating x _ _ _ => some x
  | _ => none

/- The latest sample is on its way to the attributes, or was published last. -/
inductive Coming (s : Battery) : Prop where
  | asking (id : Nat) (asking : asks (s.requester id) = true)
  | pending (pending : s.pending = true)
  | released (released : s.publisher = .released)
  | carried (carried : carries s.publisher = some s.sample)
  | published (p : Publish) (idle : s.publisher = .idle) (last : s.last = some p)
      (newest : p.sample = s.sample)

/- Since the latest sample neither ScheduleWork failed nor a request cleared the flag
after an earlier failure. -/
def Unfailed (s : Battery) : Prop := s.scheduleFailed = false ∧ s.flagLost = false
instance (s) : Decidable (Unfailed s) := inferInstanceAs (Decidable (_ ∧ _))

def Promised (s : Battery) : Prop := s.ready = true → Unfailed s → Coming s

theorem comingKept {s t : Battery} (coming : Coming s) (outside : Outside s t)
    (asking : ∀ id, asks (s.requester id) = true → asks (t.requester id) = true ∨ t.pending = true)
    (pending : s.pending = true → t.pending = true) (sample : t.sample = s.sample) : Coming t := by
  cases coming with
  | asking id ask => exact (asking id ask).elim (.asking id) .pending
  | pending set => exact .pending (pending set)
  | released here => exact .released (outside.publisher.trans here)
  | carried here => exact .carried (by rw [outside.publisher, sample, here])
  | published p idle last newest =>
    exact .published p (outside.publisher.trans idle) (outside.last.trans last) (newest.trans sample.symm)

theorem goToAsks {s t : Battery} {id : Nat} {pc : Requester} (requester : t.requester = s.requester)
    (own : asks (s.requester id) = true → asks pc = true ∨ t.pending = true) (other : Nat)
    (ask : asks (s.requester other) = true) :
    asks ((goTo id pc t).requester other) = true ∨ (goTo id pc t).pending = true := by
  rw [goToRequester]
  split
  · rename_i same
    exact own (same ▸ ask)
  · rw [requester]
    exact .inl ask

theorem promisedProceed {s t : Battery} {id : Nat} {ok : Bool} (promised : Promised s)
    (stepped : proceed id ok s = some t) : Promised t := by
  have outside := outsideProceed stepped
  unfold proceed at stepped
  split at stepped <;> try contradiction
  all_goals rename_i pc
  all_goals cases Option.some.inj stepped
  · exact fun _ _ => .asking id (by rw [goToRequester, if_pos rfl]; rfl)
  · intro ready unfailed
    refine comingKept (promised ready unfailed) outside (goToAsks rfl fun _ => .inl ?_) (fun set => set) rfl
    change s.ready = true at ready
    rw [if_pos ready]
    rfl
  · split
    · rename_i set
      exact fun _ _ => .pending set
    · exact fun _ _ => .pending rfl
  · split
    · rename_i queued
      rw [if_pos queued] at outside
      refine fun ready unfailed => comingKept (promised ready unfailed) outside
        (goToAsks rfl fun ask => ?_) (fun set => set) rfl
      rw [pc] at ask
      exact absurd ask Bool.false_ne_true
    · exact fun _ unfailed => absurd unfailed.1.symm Bool.false_ne_true
  · exact fun _ unfailed => absurd unfailed.2.symm Bool.false_ne_true

theorem promisedPublish {s t : Battery} {ok : Bool} (single : Single s) (promised : Promised s)
    (stepped : publishStep ok s = some t) : Promised t := by
  unfold publishStep at stepped
  split at stepped
  · split at stepped <;> try contradiction
    rename_i some
    cases Option.some.inj stepped
    have one : s.jobs = 1 := by have := single.queued.1; omega
    exact fun _ _ => .pending (single.pending.mpr (.inr (.inl one)))
  · cases Option.some.inj stepped
    exact fun _ _ => .released rfl
  · cases Option.some.inj stepped
    exact fun _ _ => .carried rfl
  · rename_i pc
    cases Option.some.inj stepped
    intro ready unfailed
    cases promised ready unfailed with
    | asking id ask => exact .asking id ask
    | pending set => exact .pending set
    | released here => exact nomatch pc.symm.trans here
    | carried here => exact .carried (by rwa [pc] at here)
    | published p idle => exact nomatch pc.symm.trans idle
  · rename_i x now failed a pc
    obtain ⟨requester,_,pending,sample,readySame,failedSame,lostSame,_⟩ :=
      updateFrame a (matterBatteryConvert x now) now ok s
    split at stepped
    all_goals
      cases Option.some.inj stepped
      intro ready unfailed
      have coming := promised (readySame ▸ ready) ⟨failedSame ▸ unfailed.1,lostSame ▸ unfailed.2⟩
    · cases coming with
      | asking id ask => exact .asking id (by rw [← requester] at ask; exact ask)
      | pending set => exact .pending (pending.trans set)
      | released here => exact nomatch pc.symm.trans here
      | carried here =>
        rw [pc] at here
        exact .carried (here.trans (congrArg some sample.symm))
      | published p idle => exact nomatch pc.symm.trans idle
    · cases coming with
      | asking id ask => exact .asking id (by rw [← requester] at ask; exact ask)
      | pending set => exact .pending (pending.trans set)
      | released here => exact nomatch pc.symm.trans here
      | carried here =>
        rw [pc] at here
        exact .published _ rfl rfl ((Option.some.inj here).trans sample.symm)
      | published p idle => exact nomatch pc.symm.trans idle

theorem promisedStep {s t : Battery} {l : Label} (single : Single s) (promised : Promised s)
    (stepped : step s l = some t) : Promised t := by
  cases l with
  | tick ms =>
    cases Option.some.inj stepped
    exact fun ready unfailed => comingKept (promised ready unfailed) ⟨rfl,rfl,rfl,rfl⟩
      (fun _ ask => .inl ask) (fun set => set) rfl
  | note id status =>
    simp only [step] at stepped
    split at stepped <;> try contradiction
    rename_i pc
    cases Option.some.inj stepped
    refine fun ready unfailed => comingKept (promised ready unfailed) ⟨rfl,rfl,rfl,rfl⟩
      (goToAsks rfl fun ask => ?_) (fun set => set) rfl
    rw [pc] at ask
    exact absurd ask Bool.false_ne_true
  | start id =>
    simp only [step] at stepped
    split at stepped <;> try contradiction
    cases Option.some.inj stepped
    exact fun _ _ => .asking id (by rw [goToRequester, if_pos rfl]; rfl)
  | watchdog id =>
    simp only [step] at stepped
    split at stepped <;> try contradiction
    rename_i pc
    cases Option.some.inj stepped
    refine fun ready unfailed => comingKept (promised ready unfailed) ⟨rfl,rfl,rfl,rfl⟩
      (goToAsks rfl fun _ => .inl rfl) (fun set => set) rfl
  | proceed id ok => exact promisedProceed promised stepped
  | publish ok => exact promisedPublish single promised stepped

structure Sound (s : Battery) : Prop where
  single : Single s
  cached : Cached s
  progress : Progress s
  promised : Promised s

theorem soundRun {s : Battery} (reached : battery.Reachable s) : Sound s := by
  refine reachableInvariant Sound ?_ ?_ reached
  · rintro s rfl
    refine ⟨⟨nofun,nofun,⟨Nat.zero_le _,nofun⟩,nofun,?_⟩,fun a => .inl ⟨rfl,by cases a <;> rfl⟩,nofun,nofun⟩
    rintro (⟨a,held⟩ | queued | entered) <;> contradiction
  · exact fun s l t sound stepped => ⟨singleStep sound.single stepped,cachedStep sound.cached stepped,
      progressStep sound.progress stepped,promisedStep sound.single sound.promised stepped⟩

/- No job is queued or running and nobody is inside `matter_note_power`,
`matter_battery_start` or the watchdog. -/
structure Quiet (s : Battery) : Prop where
  jobs : s.jobs = 0
  publisher : s.publisher = .idle
  requester : ∀ id, s.requester id = .idle

def Published (s : Battery) (x : Sample) (now : Nat) : Prop :=
  ∀ a, shows a = true → (s.written a).map reading = some (field (matterBatteryConvert x now) a)

structure Contract (s : Battery) : Prop where
  oneQueued : s.jobs ≤ 1
  oneScheduling : ∀ a b, s.requester a = .scheduling → s.requester b = .scheduling → a = b
  notBoth : ∀ a, s.requester a = .scheduling → s.jobs = 0
  pending : s.jobs = 1 ∨ (∃ a, s.requester a = .scheduling) → s.pending = true
  cached : Cached s
  published : Quiet s → s.ready = true → Unfailed s → (∀ p, s.last = some p → p.failed = false) →
    ∃ p, s.last = some p ∧ Published s s.sample p.now

theorem shownWritten {s : Battery} {x : Sample} {now : Nat} (cached : Cached s)
    (shown : ∀ b, Shown x now s.sent b) : Published s x now := by
  intro a visible
  have same := shown a visible
  obtain ⟨percent,_,status,charge,_⟩ := convertFits x now
  obtain ⟨_,never⟩ | written := cached a
  · rw [same] at never
    cases a with
    | percent => exact absurd never (by simp only [field]; omega)
    | status => exact absurd never (by simp only [field]; omega)
    | charge => exact absurd never (by simp only [field]; omega)
    | voltage => contradiction
    | level => contradiction
  · rw [written, same]

theorem quietPublished {s : Battery} (sound : Sound s) (quiet : Quiet s) (ready : s.ready = true)
    (unfailed : Unfailed s) (succeeded : ∀ p, s.last = some p → p.failed = false) :
    ∃ p, s.last = some p ∧ Published s s.sample p.now := by
  cases sound.promised ready unfailed with
  | asking id ask =>
    rw [quiet.requester] at ask
    exact absurd ask Bool.false_ne_true
  | pending set =>
    obtain ⟨a,held⟩ | queued | entered := sound.single.pending.mp set
    · rw [quiet.requester] at held
      exact absurd held Bool.false_ne_true
    · exact absurd (queued.symm.trans quiet.jobs) (by decide)
    · exact nomatch quiet.publisher.symm.trans entered
  | released here => exact nomatch quiet.publisher.symm.trans here
  | carried here =>
    rw [quiet.publisher] at here
    exact nomatch here
  | published p idle last newest =>
    have progress := sound.progress
    unfold Progress at progress
    rw [idle] at progress
    refine ⟨p,last,?_⟩
    rw [← newest]
    exact shownWritten sound.cached (progress p last (succeeded p last))

theorem batteryContract {s : Battery} (reached : battery.Reachable s) : Contract s := by
  have sound := soundRun reached
  have holding : ∀ {a}, s.requester a = .scheduling → holds (s.requester a) = true := by
    intro a scheduling
    rw [scheduling]
    rfl
  refine ⟨sound.single.queued.1,fun a b first second => sound.single.alone a b (holding first) (holding second),
    fun a scheduling => (sound.single.apart a (holding scheduling)).1,?_,sound.cached,quietPublished sound⟩
  rintro (queued | ⟨a,scheduling⟩)
  · exact sound.single.pending.mpr (.inr (.inl queued))
  · exact sound.single.pending.mpr (.inl ⟨a,holding scheduling⟩)

def onBattery (percent : Int) : PowerStatus := ⟨percent,4000,true,false,false,false,false⟩

def firstPublish : List Label :=
  [.note 0 (some (onBattery 80)),.proceed 0 true,.proceed 0 true,.start 1,.proceed 1 true,
    .proceed 1 true,.proceed 1 true] ++ List.replicate 9 (.publish true)

theorem batteryContractFirst : ∃ s, battery.Reachable s ∧ Quiet s ∧ s.ready = true ∧ Unfailed s ∧
    s.sample.percent = 80 ∧ s.written .percent = some (some 160) ∧ Contract s := by
  obtain ⟨s,ran,quiet,shown⟩ : ∃ s, battery.run boot firstPublish = some s ∧ Quiet s ∧
      s.ready = true ∧ Unfailed s ∧ s.sample.percent = 80 ∧ s.written .percent = some (some 160) :=
    ⟨_,rfl,⟨rfl,rfl,fun id => by rcases id with _ | _ | id <;> rfl⟩,rfl,⟨rfl,rfl⟩,rfl,rfl⟩
  have reached : battery.Reachable s := reachableRun (.start rfl) ran
  exact ⟨s,reached,quiet,shown.1,shown.2.1,shown.2.2.1,shown.2.2.2,batteryContract reached⟩

/- The watchdog's ScheduleWork fails, a sample finds the flag still set, and only then the
watchdog clears it. -/
def swallowedSample : List Label :=
  firstPublish ++ [.watchdog 1,.proceed 1 true,.proceed 1 true,.proceed 1 false,
    .note 0 (some (onBattery 70)),.proceed 0 true,.proceed 0 true,.proceed 0 true,.proceed 1 true]

theorem swallowedUnpublished : ∃ s, battery.Reachable s ∧ Quiet s ∧ s.ready = true ∧
    s.scheduleFailed = false ∧ ∃ p, s.last = some p ∧ p.failed = false ∧ ¬Published s s.sample p.now := by
  obtain ⟨s,ran,quiet,ready,failed,p,last,succeeded,percent,newest⟩ :
      ∃ s, battery.run boot swallowedSample = some s ∧ Quiet s ∧ s.ready = true ∧
        s.scheduleFailed = false ∧ ∃ p, s.last = some p ∧ p.failed = false ∧
        s.written .percent = some (some 160) ∧
        field (matterBatteryConvert s.sample p.now) .percent = 140 :=
    ⟨_,rfl,⟨rfl,rfl,fun id => by rcases id with _ | _ | id <;> rfl⟩,rfl,rfl,_,rfl,rfl,rfl,rfl⟩
  refine ⟨s,reachableRun (.start rfl) ran,quiet,ready,failed,p,last,succeeded,fun published => ?_⟩
  have shown := published .percent rfl
  rw [percent, newest] at shown
  exact absurd shown (by decide)

end EpskcCommissioner.MatterPublish
