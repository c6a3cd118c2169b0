import EpskcCommissioner.Machine
import Mathlib.Data.List.Basic

/-! The traffic window of the Thread activity page: `sample_thread_activity` takes a sample of
the radio's counters now and then, and the page shows the difference of the last and the
first that it keeps. -/
namespace EpskcCommissioner.ThreadActivity

/- `thread_activity_t`, as far as the window is concerned. -/
structure Activity where
  attached : Bool
  macTxTotal : UInt32
  macRxTotal : UInt32
  deriving DecidableEq, Repr

/- `activity_sample_t` -/
structure Sample where
  atMs : UInt64
  tx : UInt32
  rx : UInt32
  deriving DecidableEq, Repr

def activitySampleCount : Nat := 31

structure Window where
  activity : Activity
  valid : Bool
  samples : List Sample
  lastSampleMs : UInt64
  few : samples.length ≤ activitySampleCount

def activityHistoryReset (w : Window) : Window :=
  {w with samples := [], lastSampleMs := 0, few := Nat.zero_le _}

/- The two `memmove`s: one sample out of a full array, and all that are too old. -/
def roomForOne (samples : List Sample) : List Sample :=
  if samples.length = activitySampleCount then samples.tail else samples

def trimmed (nowMs : UInt64) : List Sample → List Sample
  | a :: b :: rest => if 60000 < nowMs - a.atMs then trimmed nowMs (b :: rest) else a :: b :: rest
  | samples => samples

theorem trimmedSuffix (nowMs : UInt64) (samples : List Sample) : trimmed nowMs samples <:+ samples := by
  fun_induction trimmed nowMs samples with
  | case1 a b rest old ih => exact ih.trans (List.suffix_cons a _)
  | case2 => exact List.suffix_refl _
  | case3 => exact List.suffix_refl _

theorem roomSuffix (samples : List Sample) : roomForOne samples <:+ samples := by
  unfold roomForOne
  split
  · exact List.tail_suffix samples
  · exact List.suffix_refl samples

theorem roomLength {samples : List Sample} (few : samples.length ≤ activitySampleCount) :
    (roomForOne samples).length < activitySampleCount := by
  unfold roomForOne
  split
  · rename_i full
    rw [List.length_tail, full]
    decide
  · omega

def store (sample : Sample) (w : Window) : Window where
  activity := w.activity
  valid := w.valid
  samples := trimmed sample.atMs (roomForOne w.samples ++ [sample])
  lastSampleMs := sample.atMs
  few := by
    have short := (trimmedSuffix sample.atMs (roomForOne w.samples ++ [sample])).length_le
    have room := roomLength w.few
    rw [List.length_append, List.length_singleton] at short
    omega

def CounterReset (next : Activity) (w : Window) : Prop :=
  ∃ last ∈ w.samples.getLast?, next.macTxTotal < last.tx ∨ next.macRxTotal < last.rx

instance (next : Activity) (w : Window) : Decidable (CounterReset next w) :=
  decidable_of_iff (w.samples.getLast?.any
      (fun last => decide (next.macTxTotal < last.tx ∨ next.macRxTotal < last.rx)) = true) (by
    rw [Option.any_eq_true]
    exact exists_congr fun last => and_congr_right fun _ => decide_eq_true_iff)

def Activity.sample (nowMs : UInt64) (a : Activity) : Sample := ⟨nowMs,a.macTxTotal,a.macRxTotal⟩

/- The part of `sample_thread_activity` behind the new snapshot: a sample, if one is due. -/
def storeDue (nowMs : UInt64) (next : Activity) (w : Window) : Window :=
  if w.lastSampleMs ≠ 0 ∧ nowMs - w.lastSampleMs < 1500 then w
  else store (next.sample nowMs) (if CounterReset next w then activityHistoryReset w else w)

/- `sample_thread_activity`: the clock of `esp_timer`, in microseconds, and what
`thread_activity_get` gives. -/
def sampleThreadActivity (us : UInt64) (got : Option Activity) (w : Window) : Bool × Window :=
  match got with
  | none => (false,{w with valid := false})
  | some next =>
    let w := if w.valid ∧ w.activity.attached ≠ next.attached then activityHistoryReset w else w
    (true,storeDue (us / 1000) next {w with activity := next, valid := true})

def counterDelta (newer older : UInt32) : UInt32 := if older ≤ newer then newer - older else 0

/- The fifth line of `refresh_thread_activity`: the length of the window in seconds, and the
frames sent and received in it. -/
def trafficShown (w : Window) : Option (UInt32 × UInt32 × UInt32) :=
  match w.samples with
  | first :: second :: rest =>
    let last := (second :: rest).getLast (List.cons_ne_nil second rest)
    some (((last.atMs - first.atMs) / 1000).toUInt32,counterDelta last.tx first.tx,counterDelta last.rx first.rx)
  | _ => none

structure Poll where
  us : UInt64
  activity : Activity
  deriving DecidableEq, Repr

def Poll.nowMs (p : Poll) : UInt64 := p.us / 1000

def Poll.sample (p : Poll) : Sample := p.activity.sample p.nowMs

/- The second field is history: all calls that got an activity. -/
structure Meter where
  window : Window
  polls : List Poll

inductive Label where
  | sample (us : UInt64) (got : Option Activity)
  | reset
  deriving DecidableEq, Repr

def step (s : Meter) : Label → Option Meter
  | .sample us got =>
    some ⟨(sampleThreadActivity us got s.window).2,s.polls ++ (got.map (fun a => ⟨us,a⟩)).toList⟩
  | .reset => some {s with window := activityHistoryReset s.window}

def initial : Window := ⟨⟨false,0,0⟩,false,[],0,Nat.zero_le _⟩

def meter : Machine Meter Label := ⟨fun s => s = ⟨initial,[]⟩,step⟩

/- The clock, in milliseconds, is positive and does not go back, and `thread_activity_get`
fails only before it has given its first activity. -/
def Clocked (s : Meter) : Label → Prop
  | .sample _ none => s.polls = []
  | .sample us (some _) => 0 < us / 1000 ∧ ∀ p ∈ s.polls.getLast?, p.us ≤ us
  | .reset => True

structure Follows (a b : Sample) : Prop where
  apart : a.atMs.toNat + 1500 ≤ b.atMs.toNat
  tx : a.tx ≤ b.tx
  rx : a.rx ≤ b.rx

/- The window, whose samples were all taken by some of these calls. -/
structure Kept (w : Window) (now : List Poll) : Prop where
  empty : w.samples = [] → w.lastSampleMs = 0
  last : ∀ a ∈ w.samples.getLast?, w.lastSampleMs = a.atMs ∧ a.atMs ≠ 0
  follows : w.samples.Pairwise Follows
  recent : ∀ newest ∈ w.samples.getLast?, ∀ a ∈ w.samples, newest.atMs.toNat ≤ a.atMs.toNat + 60000
  taken : List.Sublist w.samples (now.map Poll.sample)

variable {w : Window} {now : List Poll} {p : Poll} {samples : List Sample} {nowMs : UInt64}

theorem millisecondsLe {us later : UInt64} (le : us ≤ later) : us / 1000 ≤ later / 1000 := by
  rw [UInt64.le_iff_toNat_le, UInt64.toNat_div, UInt64.toNat_div]
  exact Nat.div_le_div_right (UInt64.le_iff_toNat_le.mp le)

theorem keptReset (w : Window) (now : List Poll) : Kept (activityHistoryReset w) now where
  empty := fun _ => rfl
  last := fun _ mem => absurd mem (Option.not_mem_none _)
  follows := List.Pairwise.nil
  recent := fun _ mem => absurd mem (Option.not_mem_none _)
  taken := List.nil_sublist _

theorem keptLater (kept : Kept w now) (p : Poll) : Kept w (now ++ [p]) := by
  obtain ⟨empty,last,follows,recent,taken⟩ := kept
  refine ⟨empty,last,follows,recent,?_⟩
  rw [List.map_append]
  exact taken.trans (List.sublist_append_left _ _)

theorem trimmedSome (some : samples ≠ []) : (trimmed nowMs samples).getLast? = samples.getLast? := by
  fun_induction trimmed nowMs samples with
  | case1 a b rest old ih => rw [ih (List.cons_ne_nil b rest), List.getLast?_cons_cons]
  | case2 => rfl
  | case3 => rfl

theorem trimmedRecent (follows : samples.Pairwise Follows) (newest : ∀ a ∈ samples.getLast?, a.atMs = nowMs) :
    ∀ a ∈ trimmed nowMs samples, nowMs.toNat ≤ a.atMs.toNat + 60000 := by
  fun_induction trimmed nowMs samples with
  | case1 a b rest old ih =>
    exact ih (List.pairwise_cons.mp follows).2 (by rwa [List.getLast?_cons_cons] at newest)
  | case2 a b rest young =>
    obtain ⟨later,_⟩ := List.pairwise_cons.mp follows
    have ends : (b :: rest).getLast (List.cons_ne_nil b rest) ∈ (b :: rest).getLast? := List.getLast?_eq_getLast_of_ne_nil _
    have last := newest _ (by rw [List.getLast?_cons_cons]; exact ends)
    have before := (later _ (List.getLast_mem (List.cons_ne_nil b rest))).apart
    rw [last] at before
    have le : a.atMs ≤ nowMs := UInt64.le_iff_toNat_le.mpr (by omega)
    have age : (nowMs - a.atMs).toNat = nowMs.toNat - a.atMs.toNat := UInt64.toNat_sub_of_le _ _ le
    have young : (nowMs - a.atMs).toNat ≤ 60000 := UInt64.le_iff_toNat_le.mp (UInt64.not_lt.mp young)
    intro c mem
    rcases List.mem_cons.mp mem with rfl | mem
    · omega
    · have := (later c mem).apart
      omega
  | case3 samples short =>
    intro a mem
    match samples, mem with
    | [b], mem =>
      cases List.mem_singleton.mp mem
      rw [newest a rfl]
      exact Nat.le_add_right _ _
    | b :: c :: rest, _ => exact absurd rfl (short b c rest)

theorem followsTrans {a b c : Sample} (first : Follows a b) (second : Follows b c) : Follows a c where
  apart := Nat.le_trans (Nat.le_trans first.apart (Nat.le_add_right _ 1500)) second.apart
  tx := UInt32.le_trans first.tx second.tx
  rx := UInt32.le_trans first.rx second.rx

theorem followsAll {next : Sample} (follows : samples.Pairwise Follows)
    (behind : ∀ a ∈ samples.getLast?, Follows a next) : ∀ a ∈ samples, Follows a next := by
  intro a mem
  obtain ⟨last,ends⟩ := Option.ne_none_iff_exists'.mp (fun none => List.ne_nil_of_mem mem (List.getLast?_eq_none_iff.mp none))
  obtain ⟨front,rfl⟩ := List.getLast?_eq_some_iff.mp ends
  rcases List.mem_append.mp mem with before | same
  · have order := (List.pairwise_append.mp follows).2.2 a before last List.mem_cons_self
    exact followsTrans order (behind last ends)
  · cases List.mem_singleton.mp same
    exact behind _ ends

theorem keptStore (kept : Kept w now) (some : p.nowMs ≠ 0) (behind : ∀ a ∈ w.samples.getLast?, Follows a p.sample) :
    Kept (store p.sample w) (now ++ [p]) := by
  obtain ⟨_,_,follows,_,taken⟩ := kept
  have front := (roomSuffix w.samples).sublist
  have more : (roomForOne w.samples ++ [p.sample]).Pairwise Follows := by
    refine List.pairwise_append.mpr ⟨follows.sublist front,List.pairwise_singleton _ _,fun a mem b same => ?_⟩
    cases List.mem_singleton.mp same
    exact followsAll follows behind a (front.mem mem)
  have rest := (trimmedSuffix p.sample.atMs (roomForOne w.samples ++ [p.sample])).sublist
  have ends : (store p.sample w).samples.getLast? = .some p.sample := by
    change (trimmed p.sample.atMs (roomForOne w.samples ++ [p.sample])).getLast? = _
    rw [trimmedSome (List.append_ne_nil_of_right_ne_nil _ (List.cons_ne_nil _ _)), List.getLast?_concat]
  refine ⟨fun none => ?_,fun a mem => ?_,more.sublist rest,fun newest mem => ?_,?_⟩
  · rw [none] at ends
    cases ends
  · cases Option.some.inj (ends.symm.trans mem)
    exact ⟨rfl,some⟩
  · cases Option.some.inj (ends.symm.trans mem)
    refine trimmedRecent more fun a last => ?_
    rw [List.getLast?_concat] at last
    cases last
    rfl
  · rw [List.map_append]
    exact rest.trans ((front.trans taken).append (List.Sublist.refl _))

/- The window and the calls: those of the current attachment come last. -/
structure Sound (s : Meter) (before now : List Poll) : Prop where
  polls : s.polls = before ++ now
  valid : s.polls ≠ [] → s.window.valid = true
  newest : ∀ p ∈ s.polls.getLast?, s.window.activity = p.activity
  ordered : ∀ p ∈ s.polls, ∀ last ∈ s.polls.getLast?, p.us ≤ last.us
  attached : ∀ p ∈ now, p.activity.attached = s.window.activity.attached
  kept : Kept s.window now

theorem keptSame {v : Window} (kept : Kept w now) (samples : v.samples = w.samples)
    (last : v.lastSampleMs = w.lastSampleMs) : Kept v now := by
  obtain ⟨empty,ends,follows,recent,taken⟩ := kept
  rw [← samples, ← last] at empty
  rw [← samples, ← last] at ends
  rw [← samples] at follows recent taken
  exact ⟨empty,ends,follows,recent,taken⟩

theorem dueKept (kept : Kept w now) (some : p.nowMs ≠ 0) (later : ∀ a ∈ w.samples.getLast?, a.atMs ≤ p.nowMs) :
    Kept (storeDue p.nowMs p.activity w) (now ++ [p]) := by
  unfold storeDue
  split
  · exact keptLater kept p
  · rename_i due
    split
    · exact keptStore (keptReset w now) some (fun _ mem => absurd mem (Option.not_mem_none _))
    · rename_i counters
      refine keptStore kept some fun a mem => ?_
      obtain ⟨last,positive⟩ := kept.last a mem
      have le := later a mem
      have long : 1500 ≤ p.nowMs - a.atMs := by
        rw [last] at due
        exact UInt64.not_lt.mp (fun short => due ⟨positive,short⟩)
      have apart : (p.nowMs - a.atMs).toNat = p.nowMs.toNat - a.atMs.toNat := UInt64.toNat_sub_of_le _ _ le
      have long : 1500 ≤ (p.nowMs - a.atMs).toNat := UInt64.le_iff_toNat_le.mp long
      have le := UInt64.le_iff_toNat_le.mp le
      refine ⟨?_,UInt32.not_lt.mp (fun less => ?_),UInt32.not_lt.mp (fun less => ?_)⟩
      · change a.atMs.toNat + 1500 ≤ p.nowMs.toNat
        omega
      · exact counters ⟨a,mem,.inl less⟩
      · exact counters ⟨a,mem,.inr less⟩

theorem dueSnapshot (nowMs : UInt64) (next : Activity) (w : Window) :
    (storeDue nowMs next w).activity = w.activity ∧ (storeDue nowMs next w).valid = w.valid := by
  unfold storeDue
  split
  · exact ⟨rfl,rfl⟩
  · split <;> exact ⟨rfl,rfl⟩

theorem lastBefore {s : Meter} {before now : List Poll} {us : UInt64} (sound : Sound s before now)
    (clock : ∀ p ∈ s.polls.getLast?, p.us ≤ us) : ∀ a ∈ s.window.samples.getLast?, a.atMs ≤ us / 1000 := by
  intro a mem
  obtain ⟨q,called,rfl⟩ := List.mem_map.mp (sound.kept.taken.mem (List.mem_of_getLast? mem))
  have called : q ∈ s.polls := sound.polls ▸ List.mem_append_right _ called
  obtain ⟨last,ends⟩ := Option.ne_none_iff_exists'.mp
    (fun none => List.ne_nil_of_mem called (List.getLast?_eq_none_iff.mp none))
  exact millisecondsLe (UInt64.le_trans (sound.ordered q called last ends) (clock last ends))

theorem sampleSound {s : Meter} {before now : List Poll} {us : UInt64} {next : Activity} (sound : Sound s before now)
    (positive : 0 < us / 1000) (clock : ∀ p ∈ s.polls.getLast?, p.us ≤ us) : ∃ before now,
    Sound ⟨(sampleThreadActivity us (some next) s.window).2,s.polls ++ [⟨us,next⟩]⟩ before now := by
  have later := lastBefore sound clock
  have nonzero : us / 1000 ≠ 0 := (UInt64.ne_of_lt positive).symm
  have ends : (s.polls ++ [Poll.mk us next]).getLast? = some ⟨us,next⟩ := List.getLast?_concat ..
  have ordered : ∀ p ∈ s.polls ++ [Poll.mk us next], ∀ last ∈ (s.polls ++ [Poll.mk us next]).getLast?,
      p.us ≤ last.us := by
    intro p mem last same
    cases Option.some.inj (ends.symm.trans same)
    rcases List.mem_append.mp mem with old | new
    · obtain ⟨q,found⟩ := Option.ne_none_iff_exists'.mp
        (fun none => List.ne_nil_of_mem old (List.getLast?_eq_none_iff.mp none))
      exact UInt64.le_trans (sound.ordered p old q found) (clock q found)
    · cases List.mem_singleton.mp new
      exact UInt64.le_refl us
  obtain ⟨polls,valid,_,_,attached,kept⟩ := sound
  unfold sampleThreadActivity
  dsimp only
  split
  · refine ⟨s.polls,[⟨us,next⟩],rfl,fun _ => (dueSnapshot ..).2,fun p same => ?_,ordered,fun p mem => ?_,?_⟩
    · cases Option.some.inj (ends.symm.trans same)
      exact (dueSnapshot ..).1
    · cases List.mem_singleton.mp mem
      exact congrArg Activity.attached
        (dueSnapshot (us / 1000) next {activityHistoryReset s.window with activity := next, valid := true}).1.symm
    · exact @dueKept {activityHistoryReset s.window with activity := next, valid := true} [] ⟨us,next⟩
        (keptSame (keptReset s.window []) rfl rfl) nonzero (fun _ mem => absurd mem (Option.not_mem_none _))
  · rename_i same
    refine ⟨before,now ++ [⟨us,next⟩],?_,fun _ => (dueSnapshot ..).2,fun p same => ?_,ordered,fun p mem => ?_,?_⟩
    · rw [← List.append_assoc, ← polls]
    · cases Option.some.inj (ends.symm.trans same)
      exact (dueSnapshot ..).1
    · rw [(dueSnapshot ..).1]
      rcases List.mem_append.mp mem with old | new
      · have called : s.polls ≠ [] := List.ne_nil_of_mem (polls ▸ List.mem_append_right before old)
        exact (attached p old).trans (not_not.mp (fun other => same ⟨valid called,other⟩))
      · cases List.mem_singleton.mp new
        rfl
    · exact @dueKept _ now ⟨us,next⟩ (keptSame kept rfl rfl) nonzero later

theorem stepSound {s t : Meter} {l : Label} {before now : List Poll} (sound : Sound s before now)
    (clocked : Clocked s l) (stepped : step s l = some t) : ∃ before now, Sound t before now := by
  cases l with
  | sample us got =>
    cases got with
    | none =>
      cases stepped
      have none : s.polls = [] := clocked
      have same : s.polls ++ [] = s.polls := List.append_nil _
      obtain ⟨polls,_,newest,ordered,attached,kept⟩ := sound
      exact ⟨before,now,same.trans polls,fun some => absurd (same.trans none) some,
        same.symm ▸ newest,same.symm ▸ ordered,attached,keptSame kept rfl rfl⟩
    | some next =>
      cases stepped
      exact sampleSound sound clocked.1 clocked.2
  | reset =>
    cases stepped
    obtain ⟨polls,valid,newest,ordered,attached,_⟩ := sound
    exact ⟨before,now,polls,valid,newest,ordered,attached,keptReset s.window now⟩

theorem reachedSound {s : Meter} (reached : meter.Under Clocked s) : ∃ before now, Sound s before now := by
  refine underInvariant (fun s => ∃ before now, Sound s before now) ?_ ?_ reached
  · rintro s rfl
    exact ⟨[],[],rfl,fun some => absurd rfl some,fun _ mem => absurd mem (Option.not_mem_none _),
      fun _ mem => absurd mem List.not_mem_nil,fun _ mem => absurd mem List.not_mem_nil,
      keptSame (keptReset initial []) rfl rfl⟩
  · rintro s l t ⟨before,now,sound⟩ clocked stepped
    exact stepSound sound clocked stepped

/- The numbers on the page: exact differences of the last sample and the first. -/
structure Shown (first last : Sample) (seconds tx rx : UInt32) : Prop where
  order : first.atMs.toNat ≤ last.atMs.toNat
  seconds : seconds.toNat = (last.atMs.toNat - first.atMs.toNat) / 1000
  tx : first.tx.toNat + tx.toNat = last.tx.toNat
  rx : first.rx.toNat + rx.toNat = last.rx.toNat

structure WindowHolds (s : Meter) : Prop where
  few : s.window.samples.length ≤ 31
  follows : s.window.samples.Pairwise Follows
  recent : ∀ newest ∈ s.window.samples.getLast?, ∀ a ∈ s.window.samples,
    newest.atMs.toNat ≤ a.atMs.toNat + 60000
  newest : ∀ p ∈ s.polls.getLast?, s.window.activity = p.activity
  attached : ∃ before now, s.polls = before ++ now ∧
    (∀ p ∈ now, p.activity.attached = s.window.activity.attached) ∧
    List.Sublist s.window.samples (now.map Poll.sample)
  shown : ∀ seconds tx rx, trafficShown s.window = some (seconds,tx,rx) →
    ∃ first ∈ s.window.samples.head?, ∃ last ∈ s.window.samples.getLast?, Shown first last seconds tx rx

theorem deltaExact {newer older : UInt32} (le : older ≤ newer) :
    older.toNat + (counterDelta newer older).toNat = newer.toNat := by
  have small := UInt32.le_iff_toNat_le.mp le
  rw [counterDelta, if_pos le, UInt32.toNat_sub_of_le _ _ le]
  omega

theorem shownExact {seconds tx rx : UInt32} (kept : Kept w now) (shown : trafficShown w = some (seconds,tx,rx)) :
    ∃ first ∈ w.samples.head?, ∃ last ∈ w.samples.getLast?, Shown first last seconds tx rx := by
  unfold trafficShown at shown
  split at shown
  · rename_i first second rest held
    cases shown
    have ends : w.samples.getLast? = some ((second :: rest).getLast (List.cons_ne_nil second rest)) := by
      rw [held, List.getLast?_cons_cons]
      exact List.getLast?_eq_getLast_of_ne_nil _
    have follows := kept.follows
    rw [held] at follows
    have order := (List.pairwise_cons.mp follows).1 _ (List.getLast_mem (List.cons_ne_nil second rest))
    have recent := kept.recent _ ends first (held ▸ List.mem_cons_self)
    refine ⟨first,by rw [held]; rfl,_,ends,?_,?_,deltaExact order.tx,deltaExact order.rx⟩
    · have := order.apart
      omega
    · have le : first.atMs ≤ ((second :: rest).getLast (List.cons_ne_nil second rest)).atMs :=
        UInt64.le_iff_toNat_le.mpr (by have := order.apart; omega)
      rw [UInt64.toNat_toUInt32, UInt64.toNat_div, UInt64.toNat_sub_of_le _ _ le]
      change (_ - _) / 1000 % 4294967296 = _
      omega
  · cases shown

/- Whatever the calls and the resets, the window is a run of samples that are apart, recent and
of one attachment, and the page shows how much they differ. -/
theorem windowHolds {s : Meter} (reached : meter.Under Clocked s) : WindowHolds s := by
  obtain ⟨before,now,sound⟩ := reachedSound reached
  exact ⟨s.window.few,sound.kept.follows,sound.kept.recent,sound.newest,
    ⟨before,now,sound.polls,sound.attached,sound.kept.taken⟩,fun _ _ _ => shownExact sound.kept⟩

def networkLeft : List Label :=
  [.sample 0 none,.sample 2000000 (some ⟨true,5,5⟩),.sample 4000000 (some ⟨true,7,6⟩),
    .sample 5000000 (some ⟨false,7,6⟩),.sample 7000000 (some ⟨false,9,6⟩)]

instance (s : Meter) : ∀ l, Decidable (Clocked s l)
  | .sample _ none => inferInstanceAs (Decidable (s.polls = []))
  | .sample us (some _) => inferInstanceAs (Decidable (0 < us / 1000 ∧ ∀ p ∈ s.polls.getLast?, p.us ≤ us))
  | .reset => inferInstanceAs (Decidable True)

theorem windowHoldsLeft : ∃ s, meter.Under Clocked s ∧ trafficShown s.window = some (2,2,0) ∧
    ∃ first ∈ s.window.samples.head?, ∃ last ∈ s.window.samples.getLast?, Shown first last 2 2 0 := by
  obtain ⟨s,reached,ends⟩ := @underEnds _ _ meter Clocked ⟨initial,[]⟩ networkLeft
    (fun s => trafficShown s.window == some (2,2,0)) rfl (by decide) (by decide)
  have shown := beq_iff_eq.mp ends
  exact ⟨s,reached,shown,(windowHolds reached).shown 2 2 0 shown⟩

end EpskcCommissioner.ThreadActivity
