import EpskcCommissioner.ScreenSleep

/-! The screen over whole runs: what holds while it sleeps, that the backlight is what the
battery history says of it, and that the header shows the last poll. -/
namespace EpskcCommissioner.ScreenSleep
open WifiDriver (EspErr espOk)
open PowerRead (PowerStatus Reads powerRead)
open PowerLog (Log Note Micros powerLogInit powerLogNote powerLogGet)
open Settings (Cfg Valid Edit SliderValue)
open TouchUi (Touch Panel Job isUiJob)

variable {s t : Screen} {l : Label} {u v : Touch}

/- What a step of the touch UI leaves as it is, while no handler is at work. -/
structure Beside (u v : Touch) : Prop where
  rest : v.rest = none
  busy : v.uiJobBusy = true → u.uiJobBusy = true
  clock : u.clock ≤ v.clock
  panel : v.panel = u.panel ∨ v.panel = .keypad ∨ v.panel = .result

theorem workedBeside {w : TouchUi.Work} (rest : u.rest = none) (worked : TouchUi.Worked u w v) :
    Beside u v ∧ (w.locked = false → v.panel = u.panel) := by
  cases worked with
  | received | table | built | apTable | apsBuilt | qr | copied | left | finished =>
    exact ⟨⟨rest,fun busy => busy,Nat.le_refl _,.inl rfl⟩,fun _ => rfl⟩
  | @shown got before =>
    refine ⟨⟨rest,fun busy => busy,Nat.le_refl _,?_⟩,nofun⟩
    cases got with
    | true => exact .inr (.inl rfl)
    | false => exact .inl rfl
  | @gaveBack job before =>
    refine ⟨⟨rest,fun busy => ?_,Nat.le_refl _,.inl rfl⟩,fun _ => rfl⟩
    dsimp only at busy
    split at busy
    · cases busy
    · exact busy

theorem steppedBeside {m : TouchUi.Label} (rest : u.rest = none) (noTap : isTap m = false)
    (stepped : TouchUi.Stepped u m v) : Beside u v ∧ (locked m = false → v.panel = u.panel) := by
  cases stepped with
  | tapped => cases noTap
  | worked _ worked => exact workedBeside rest worked
  | stayed was | showed was | listed was | cancelled was => exact nomatch rest.symm.trans was
  | expired => exact ⟨⟨rest,fun busy => busy,Nat.le_refl _,.inl rfl⟩,fun _ => rfl⟩
  | waited ms => exact ⟨⟨rest,fun busy => busy,Nat.le_add_right _ _,.inl rfl⟩,fun _ => rfl⟩
  | control =>
    obtain ⟨jobs,sent,_⟩ := TouchUi.controlCases u
    rw [sent]
    exact ⟨⟨rest,fun busy => busy,Nat.le_refl _,.inl rfl⟩,fun _ => rfl⟩
  | wifi => exact ⟨⟨rest,fun busy => busy,Nat.le_refl _,.inl rfl⟩,fun _ => rfl⟩
  | dataset => exact ⟨⟨rest,fun busy => busy,Nat.le_refl _,.inr (.inr rfl)⟩,nofun⟩

inductive Stepped (s : Screen) : Label → Screen → Prop where
  | moved {m u} (noTap : isTap m = false) (unlocked : locked m = true → s.timer = none)
      (taken : TouchUi.step s.ui m = some u) : Stepped s (.ui m) {s with ui := u}
  | tapped {m u} (bare : s.bare = true) (taken : TouchUi.step s.ui m = some u) :
      Stepped s (.ui m) {s with ui := u, lastInput := u.clock}
  | woke {p ok} (free : s.free = true) (shield : s.shield = true) :
      Stepped s (.press p ok) (onWake p ok {s with lastInput := s.ui.clock})
  | pressed {p ok} (free : s.free = true) (bare : s.shield = false) : Stepped s (.press p ok) {s with lastInput := s.ui.clock}
  | removed (free : s.free = true) : Stepped s .removed {s with leaving := 0}
  | polled {p} (free : s.free = true) : Stepped s (.battery p) (seen (battTimerCb p s))
  | role {ok} (free : s.free = true) : Stepped s (.role ok) (roleTimerCb ok s)
  | roleEnd {ok l} (here : s.timer = some l) : Stepped s (.roleEnd ok) (roleTimerEnd ok l s)
  | slid {v ok} (bare : s.bare = true) : Stepped s (.slide v ok) (onBrightness v ok {s with lastInput := s.ui.clock})
  | set {l edit} (bare : s.bare = true) (other : Settings.Key.bright ≠ edit.key) :
      Stepped s l (onSetting edit {s with lastInput := s.ui.clock})

theorem touched {change : Screen → Screen} (taken : touching change s = some t) :
    s.bare = true ∧ t = change {s with lastInput := s.ui.clock} := by
  obtain ⟨ready,same⟩ := Option.ite_none_right_eq_some.mp taken
  exact ⟨ready.1,(Option.some.inj same).symm⟩

theorem stepped (taken : step s l = some t) : Stepped s l t := by
  cases l with
  | ui m =>
    obtain ⟨unlocked,taken⟩ := Option.ite_none_left_eq_some.mp taken
    split at taken
    · obtain ⟨bare,taken⟩ := Option.ite_none_right_eq_some.mp taken
      obtain ⟨u,moves,rfl⟩ := Option.map_eq_some_iff.mp taken
      exact .tapped bare moves
    · rename_i noTap
      obtain ⟨u,moves,rfl⟩ := Option.map_eq_some_iff.mp taken
      refine .moved (eq_false_of_ne_true noTap) (fun locks => ?_) moves
      exact Option.not_isSome_iff_eq_none.mp fun some => unlocked ⟨locks,some⟩
  | press p ok =>
    obtain ⟨free,same⟩ := Option.ite_none_right_eq_some.mp taken
    cases Option.some.inj same
    dsimp only
    split
    · rename_i shield
      exact .woke free shield
    · rename_i bare
      exact .pressed free (eq_false_of_ne_true bare)
  | removed =>
    obtain ⟨free,same⟩ := Option.ite_none_right_eq_some.mp taken
    cases Option.some.inj same
    exact .removed free
  | battery p =>
    obtain ⟨free,same⟩ := Option.ite_none_right_eq_some.mp taken
    cases Option.some.inj same
    exact .polled free
  | role ok =>
    obtain ⟨free,same⟩ := Option.ite_none_right_eq_some.mp taken
    cases Option.some.inj same
    exact .role free
  | roleEnd ok =>
    obtain ⟨l,here,rfl⟩ := Option.map_eq_some_iff.mp taken
    exact .roleEnd here
  | slide v ok =>
    obtain ⟨bare,rfl⟩ := touched taken
    exact .slid bare
  | sleepChoice idx =>
    obtain ⟨bare,rfl⟩ := touched taken
    exact .set bare nofun
  | keepAwake on =>
    obtain ⟨bare,rfl⟩ := touched taken
    exact .set bare nofun

theorem freeParts (free : s.free = true) : s.ui.rest = none ∧ s.timer = none := by
  obtain ⟨rest,timer⟩ := Bool.and_eq_true_iff.mp free
  exact ⟨Option.isNone_iff_eq_none.mp rest,Option.isNone_iff_eq_none.mp timer⟩

theorem bareParts (bare : s.bare = true) : s.free = true ∧ s.shield = false := by
  obtain ⟨early,_⟩ := Bool.and_eq_true_iff.mp bare
  obtain ⟨free,shield⟩ := Bool.and_eq_true_iff.mp early
  exact ⟨free,(Bool.not_eq_true' _).mp shield⟩

/- Every run of the screen is one of the touch UI, but for what it cannot see. -/
theorem wakeUi (p : Poll) (ok : Bool) (s : Screen) : (onWake p ok s).ui = s.ui := by
  unfold onWake brightnessSet
  split
  · rfl
  · cases ok <;> rfl

theorem roleUi (ok : Bool) (s : Screen) : (roleTimerCb ok s).ui = s.ui ∧ (roleTimerCb ok s).asleep = s.asleep := by
  unfold roleTimerCb
  split
  · exact ⟨rfl,rfl⟩
  · dsimp only
    split <;> exact ⟨rfl,rfl⟩

theorem roleEndUi (ok : Bool) (l : RoleTimer) (s : Screen) : (roleTimerEnd ok l s).ui = s.ui := by
  unfold roleTimerEnd brightnessSet
  dsimp only
  split
  · cases ok <;> rfl
  · rfl

theorem slideUi (v : SliderValue) (ok : Bool) (s : Screen) : (onBrightness v ok s).ui = s.ui := by
  cases ok <;> rfl

theorem uiReachable {bootId : UInt64} {lit : Bool} (reached : (screen bootId lit).Reachable s) :
    TouchUi.touchUi.Reachable s.ui := by
  refine reachableInvariant (fun s => TouchUi.touchUi.Reachable s.ui) ?_ ?_ reached
  · rintro s ⟨created,allocated,cfg,rfl⟩
    exact .start ⟨created,rfl⟩
  · intro s l t before taken
    cases stepped taken with
    | moved _ _ moves | tapped _ moves => exact .next before trivial moves
    | pressed | removed | polled | set => exact before
    | woke => rw [wakeUi]; exact before
    | role => rw [(roleUi _ s).1]; exact before
    | roleEnd => rw [roleEndUi]; exact before
    | slid => rw [slideUi]; exact before

/- While the screen sleeps, nothing is open on it, no handler and no job of the UI is at work,
and it has not been touched for longer than its time. -/
structure Still (s : Screen) : Prop where
  rest : s.ui.rest = none
  timer : s.timer = none
  busy : s.ui.uiJobBusy = false
  closed : openPanel s.ui.panel = false
  timed : 0 < timeout s.cfg
  idle : s.lastInput + timeout s.cfg < s.ui.clock

structure Timing (s : Screen) (l : RoleTimer) : Prop where
  awake : s.asleep = false
  rest : s.ui.rest = none
  timeout : l.timeout = timeout s.cfg
  guarded : l.guarded = openPanel s.ui.panel
  heldAwake : l.heldAwake = (s.cfg.1.keepAwakePowered && s.externalPower)

structure Sleeps (s : Screen) : Prop where
  shield : s.shield = s.asleep
  still : s.asleep = true → Still s
  timing : ∀ l, s.timer = some l → Timing s l

theorem awakeBare (sleeps : Sleeps s) (bare : s.bare = true) : s.asleep = false :=
  sleeps.shield ▸ (bareParts bare).2

theorem closedBeside (closed : openPanel u.panel = false) (beside : Beside u v) : openPanel v.panel = false := by
  rcases beside.panel with same | keypad | result
  · rw [same]
    exact closed
  · rw [keypad]
    rfl
  · rw [result]
    rfl

theorem movedSleeps {m : TouchUi.Label} (sleeps : Sleeps s) (noTap : isTap m = false)
    (unlocked : locked m = true → s.timer = none) (taken : TouchUi.step s.ui m = some u) : Sleeps {s with ui := u} := by
  refine ⟨sleeps.shield,fun asleep => ?_,fun l timer => ?_⟩
  · have still := sleeps.still asleep
    have beside := (steppedBeside still.rest noTap (TouchUi.stepped taken)).1
    refine ⟨beside.rest,still.timer,?_,closedBeside still.closed beside,still.timed,
      Nat.lt_of_lt_of_le still.idle beside.clock⟩
    refine eq_false_of_ne_true fun busy => ?_
    exact nomatch still.busy.symm.trans (beside.busy busy)
  · have timing := sleeps.timing l timer
    have free : locked m = false := eq_false_of_ne_true fun locks => nomatch (unlocked locks).symm.trans timer
    obtain ⟨beside,panel⟩ := steppedBeside timing.rest noTap (TouchUi.stepped taken)
    refine {timing with rest := beside.rest, guarded := timing.guarded.trans ?_}
    exact (congrArg openPanel (panel free)).symm

theorem noTimer (free : s.free = true) {l : RoleTimer} : s.timer ≠ some l := by
  rw [(freeParts free).2]
  nofun

theorem roleSleeps (sleeps : Sleeps s) (free : s.free = true) (ok : Bool) : Sleeps (roleTimerCb ok s) := by
  unfold roleTimerCb
  split
  · exact sleeps
  · rename_i awake
    have awake := eq_false_of_ne_true awake
    dsimp only
    split
    · refine ⟨sleeps.shield,fun asleep => (nomatch awake.symm.trans asleep),fun l timer => ?_⟩
      cases Option.some.inj timer
      exact ⟨awake,(freeParts free).1,rfl,rfl,rfl⟩
    · refine ⟨sleeps.shield,fun asleep => (nomatch awake.symm.trans asleep),fun l timer => ?_⟩
      cases Option.some.inj timer
      exact ⟨awake,(freeParts free).1,rfl,rfl,rfl⟩

theorem roleEndCases (ok : Bool) (l : RoleTimer) (s : Screen) :
    roleTimerEnd ok l s = {s with timer := none} ∨
    (l.timeout ≠ 0 ∧ s.asleep = false ∧ l.guarded = false ∧ s.ui.uiJobBusy = false ∧ l.heldAwake = false ∧
      s.inactive > l.timeout) ∧
      roleTimerEnd ok l s = {s with
        timer := none, shield := true, asleep := true, backlight := if ok then 0 else s.backlight} := by
  unfold roleTimerEnd brightnessSet
  dsimp only
  split
  · rename_i due
    refine .inr ⟨due,?_⟩
    cases ok <;> rfl
  · exact .inl rfl

theorem roleEndSleeps {r : RoleTimer} (sleeps : Sleeps s) (here : s.timer = some r) (ok : Bool) :
    Sleeps (roleTimerEnd ok r s) := by
  have timing := sleeps.timing r here
  rcases roleEndCases ok r s with same | ⟨⟨timed,_,closed,busy,_,idle⟩,same⟩
  · rw [same]
    exact ⟨sleeps.shield,fun asleep => (nomatch timing.awake.symm.trans asleep),nofun⟩
  · rw [same]
    refine ⟨rfl,fun _ => ?_,nofun⟩
    have waited : s.ui.clock - s.lastInput > timeout s.cfg := timing.timeout ▸ idle
    refine ⟨timing.rest,rfl,busy,timing.guarded.symm.trans closed,?_,?_⟩
    · exact Nat.pos_of_ne_zero (timing.timeout ▸ timed)
    · change s.lastInput + timeout s.cfg < s.ui.clock
      omega

theorem awakeSleeps (awake : t.asleep = false) (shield : t.shield = false) (free : ∀ r, t.timer ≠ some r) : Sleeps t :=
  ⟨shield.trans awake.symm,fun asleep => (nomatch awake.symm.trans asleep),fun r timer => absurd timer (free r)⟩

theorem wakeAwake (p : Poll) (ok : Bool) (s : Screen) :
    (onWake p ok s).asleep = false ∧ (s.asleep = true → (onWake p ok s).shield = false) ∧ (onWake p ok s).timer = s.timer := by
  unfold onWake brightnessSet
  split
  · rename_i awake
    exact ⟨awake,fun asleep => (nomatch awake.symm.trans asleep),rfl⟩
  · cases ok <;> exact ⟨rfl,fun _ => rfl,rfl⟩

theorem polledSleeps (sleeps : Sleeps s) (free : s.free = true) (p : Poll) : Sleeps (seen (battTimerCb p s)) := by
  refine ⟨sleeps.shield,fun asleep => ?_,fun r timer => absurd timer (noTimer free)⟩
  have still := sleeps.still asleep
  exact ⟨still.rest,still.timer,still.busy,still.closed,still.timed,still.idle⟩

theorem steppedSleeps (sleeps : Sleeps s) (stepped : Stepped s l t) : Sleeps t := by
  cases stepped with
  | moved noTap unlocked taken => exact movedSleeps sleeps noTap unlocked taken
  | tapped bare taken =>
    have awake := awakeBare sleeps bare
    exact awakeSleeps awake (bareParts bare).2 fun _ => noTimer (bareParts bare).1
  | @woke p ok free shield =>
    obtain ⟨awake,down,timer⟩ := wakeAwake p ok {s with lastInput := s.ui.clock}
    refine awakeSleeps awake (down (sleeps.shield ▸ shield)) fun r here => ?_
    exact absurd (timer.symm.trans here) (noTimer free)
  | pressed free bare =>
    have awake : s.asleep = false := sleeps.shield ▸ bare
    exact awakeSleeps awake bare fun _ => noTimer free
  | removed free =>
    refine ⟨sleeps.shield,fun asleep => ?_,fun r timer => absurd timer (noTimer free)⟩
    have still := sleeps.still asleep
    exact ⟨still.rest,still.timer,still.busy,still.closed,still.timed,still.idle⟩
  | polled free => exact polledSleeps sleeps free _
  | role free => exact roleSleeps sleeps free _
  | roleEnd here => exact roleEndSleeps sleeps here _
  | @slid v ok bare =>
    have awake := awakeBare sleeps bare
    have shield := (bareParts bare).2
    have free : ∀ r, s.timer ≠ some r := fun _ => noTimer (bareParts bare).1
    cases ok <;> exact awakeSleeps awake shield free
  | set bare =>
    have awake := awakeBare sleeps bare
    exact awakeSleeps awake (bareParts bare).2 fun _ => noTimer (bareParts bare).1

theorem sleepsReachable {bootId : UInt64} {lit : Bool} (reached : (screen bootId lit).Reachable s) : Sleeps s := by
  refine reachableInvariant Sleeps ?_ ?_ reached
  · rintro s ⟨created,allocated,cfg,rfl⟩
    exact ⟨rfl,nofun,nofun⟩
  · intro s l t sleeps taken
    exact steppedSleeps sleeps (stepped taken)

/- The screen sleeps under its shield, with nothing secret and no camera behind it and no job
of the UI queued or at work; and it falls asleep only where it has been left alone for longer
than its time and is not to be kept awake on external power. -/
theorem asleepStill {bootId : UInt64} {lit : Bool} (reached : (screen bootId lit).Reachable s) :
    (s.asleep = true → s.shield = true ∧ Still s ∧
      ∀ job, isUiJob job = true → job ∉ s.ui.jobs.items ∧ s.ui.worker.held ≠ some job) ∧
    ∀ l t, step s l = some t → s.asleep = false → t.asleep = true →
      (s.cfg.1.keepAwakePowered && s.externalPower) = false ∧ Still t ∧ t.lastInput = s.lastInput := by
  have sleeps := sleepsReachable reached
  constructor
  · intro asleep
    have still := sleeps.still asleep
    refine ⟨sleeps.shield.trans asleep,still,fun job kind => ?_⟩
    exact TouchUi.freeIdle (TouchUi.flagUnder (uiReachable reached)) still.busy kind
  · intro l t taken awake asleep
    have next := steppedSleeps sleeps (stepped taken)
    cases stepped taken with
    | moved | tapped | pressed | removed | polled => exact nomatch awake.symm.trans asleep
    | @woke p ok => exact nomatch (wakeAwake p ok _).1.symm.trans asleep
    | role => exact nomatch awake.symm.trans ((roleUi _ s).2.symm.trans asleep)
    | @roleEnd ok r here =>
      have timing := sleeps.timing r here
      rcases roleEndCases ok r s with same | ⟨⟨_,_,_,_,held,_⟩,same⟩
      · rw [same] at asleep
        exact nomatch awake.symm.trans asleep
      · refine ⟨timing.heldAwake.symm.trans held,next.still asleep,?_⟩
        rw [same]
    | @slid v ok =>
      cases ok <;> exact nomatch awake.symm.trans asleep
    | set => exact nomatch awake.symm.trans asleep

def plugged : ValidCfg := ⟨{Settings.defaults with keepAwakePowered := false},by constructor <;> decide⟩

def sleeping : Screen := {boot true true true 7 plugged with
  ui := {TouchUi.boot true with clock := 61000}, asleep := true, shield := true, backlight := 0}

theorem sleepingReached : (screen 7 true).Reachable sleeping := by
  have ran : (screen 7 true).run (boot true true true 7 plugged) [.ui (.wait 61000),.role true,.roleEnd true] =
      some sleeping := rfl
  exact reachableRun (.start ⟨true,true,plugged,rfl⟩) ran

theorem asleepStillMinute : sleeping.shield = true ∧ Still sleeping :=
  have safe := (asleepStill sleepingReached).1 rfl
  ⟨safe.1,safe.2.1⟩

/- The display takes every brightness it is given. -/
def Taken (_ : Screen) : Label → Prop
  | .press _ ok | .role ok | .roleEnd ok | .slide _ ok => ok = true
  | .ui _ | .removed | .battery _ | .sleepChoice _ | .keepAwake _ => True

instance (s : Screen) (l : Label) : Decidable (Taken s l) := by
  unfold Taken
  split <;> infer_instance

def lightOf (s : Screen) : Nat := if s.asleep then 0 else capped s.dimmed s.brightness

structure Lit (bootId : UInt64) (s : Screen) : Prop where
  backlight : s.backlight = lightOf s
  noted : s.notes.map (fun n => n.screenPercent.toNat) = s.lights
  small : ∀ n ∈ s.notes, n.screenPercent.toNat ≤ 100
  log : s.log = none ∨ s.log = some (PowerHistory.noted bootId s.notes)

theorem brightnessRange (s : Screen) : 10 ≤ s.brightness ∧ s.brightness ≤ 100 := s.cfg.2.brightness

theorem notedLight (s : Screen) : s.noted = lightOf s := by
  unfold Screen.noted lightOf capped
  cases s.asleep with
  | true =>
    rw [if_pos rfl, if_pos rfl]
    exact if_neg (by omega)
  | false => rfl

theorem lightRange (s : Screen) : lightOf s ≤ 100 := by
  have range := brightnessRange s
  unfold lightOf capped
  split
  · omega
  · split <;> omega

theorem noteLight (p : Poll) (s : Screen) : (noteOf p s).screenPercent.toNat = lightOf s := by
  have small := lightRange s
  have same := notedLight s
  exact (UInt32.toNat_ofNat_of_lt' (show s.noted < 4294967296 by omega)).trans same

theorem logNoted {bootId : UInt64} (log : s.log = none ∨ s.log = some (PowerHistory.noted bootId s.notes)) (n : Note) :
    s.log.map (powerLogNote n) = none ∨ s.log.map (powerLogNote n) = some (PowerHistory.noted bootId (s.notes ++ [n])) := by
  rcases log with none | some
  · rw [none]
    exact .inl rfl
  · rw [some]
    right
    unfold PowerHistory.noted
    rw [List.foldl_append]
    rfl

variable {bootId : UInt64}

theorem smallNoted (small : ∀ n ∈ s.notes, n.screenPercent.toNat ≤ 100) (p : Poll) (s' : Screen) :
    ∀ n ∈ s.notes ++ [noteOf p s'], n.screenPercent.toNat ≤ 100 := by
  intro n mem
  rcases List.mem_append.mp mem with before | new
  · exact small n before
  · rw [List.mem_singleton.mp new, noteLight]
    exact lightRange s'

theorem touchLit (lit : Lit bootId s) (now : Nat) : Lit bootId {s with lastInput := now} :=
  ⟨lit.backlight,lit.noted,lit.small,lit.log⟩

theorem polledLit (lit : Lit bootId s) (p : Poll) : Lit bootId (seen (battTimerCb p s)) := by
  refine ⟨lit.backlight,?_,smallNoted lit.small p s,logNoted lit.log _⟩
  change (s.notes ++ [noteOf p s]).map _ = s.lights ++ [s.backlight]
  rw [List.map_append, lit.noted, lit.backlight, List.map_singleton, noteLight]

theorem wakeLit (lit : Lit bootId s) (p : Poll) : Lit bootId (onWake p true s) := by
  unfold onWake
  split
  · exact lit
  · refine ⟨?_,?_,smallNoted lit.small p _,logNoted lit.log _⟩
    · rfl
    · change (s.notes ++ [noteOf p {s with asleep := false, dimmed := false}]).map _ = s.lights ++ [s.brightness]
      rw [List.map_append, lit.noted, List.map_singleton, noteLight]
      rfl

theorem roleLit (lit : Lit bootId s) : Lit bootId (roleTimerCb true s) := by
  unfold roleTimerCb
  split
  · exact lit
  · rename_i awake
    dsimp only
    split
    · refine ⟨?_,lit.noted,lit.small,lit.log⟩
      exact (if_neg awake).symm
    · exact ⟨lit.backlight,lit.noted,lit.small,lit.log⟩

theorem roleEndLit (lit : Lit bootId s) (r : RoleTimer) : Lit bootId (roleTimerEnd true r s) := by
  rcases roleEndCases true r s with same | ⟨_,same⟩
  · rw [same]
    exact ⟨lit.backlight,lit.noted,lit.small,lit.log⟩
  · rw [same]
    exact ⟨rfl,lit.noted,lit.small,lit.log⟩

theorem slideLit (lit : Lit bootId s) (awake : s.asleep = false) (v : SliderValue) :
    Lit bootId (onBrightness v true s) := by
  refine ⟨?_,lit.noted,lit.small,lit.log⟩
  have small : (UInt8.ofNat v.1).toNat = v.1 := UInt8.toNat_ofNat_of_lt' (Nat.lt_of_le_of_lt v.2.2 (by decide))
  have light : lightOf (onBrightness v true s) = (UInt8.ofNat v.1).toNat := by
    change (if s.asleep then 0 else capped false (UInt8.ofNat v.1).toNat) = _
    rw [awake]
    rfl
  exact (light.trans small).symm

theorem setLit (lit : Lit bootId s) {edit : Edit} (other : Settings.Key.bright ≠ edit.key) :
    Lit bootId (onSetting edit s) := by
  refine ⟨lit.backlight.trans ?_,lit.noted,lit.small,lit.log⟩
  have same : (edit.apply s.cfg.1).brightness = s.cfg.1.brightness := Settings.applyOther other s.cfg.1
  unfold lightOf Screen.brightness onSetting
  rw [same]

theorem litUnder {lit : Bool} (start : lit = true) (under : (screen bootId lit).Under Taken s) : Lit bootId s := by
  refine underInvariantWith Sleeps (Lit bootId) (fun s under => sleepsReachable (underReachable under)) ?_ ?_ under
  · rintro s ⟨created,allocated,cfg,rfl⟩
    subst start
    refine ⟨rfl,rfl,fun n mem => absurd mem List.not_mem_nil,?_⟩
    cases allocated with
    | true => exact .inr rfl
    | false => exact .inl rfl
  · intro s l t sleeps lit taken step
    cases stepped step with
    | moved | tapped | pressed | removed => exact ⟨lit.backlight,lit.noted,lit.small,lit.log⟩
    | @woke p ok =>
      have ok : ok = true := taken
      subst ok
      exact wakeLit (touchLit lit s.ui.clock) p
    | polled => exact polledLit lit _
    | @role ok =>
      have ok : ok = true := taken
      subst ok
      exact roleLit lit
    | @roleEnd ok r =>
      have ok : ok = true := taken
      subst ok
      exact roleEndLit lit r
    | @slid v ok bare =>
      have ok : ok = true := taken
      subst ok
      have awake := awakeBare sleeps bare
      exact slideLit (touchLit lit s.ui.clock) awake v
    | set _ other => exact setLit (touchLit lit s.ui.clock) other

theorem rowLight {n : Note} (small : n.screenPercent.toNat ≤ 100) (seq : Nat) :
    (PowerHistory.rowAt n seq).screenPercent.toNat = n.screenPercent.toNat := by
  have few : ¬ 100 < n.screenPercent := by
    rw [UInt32.lt_iff_toNat_lt]
    exact Nat.not_lt.mpr small
  have row : (PowerHistory.rowAt n seq).screenPercent = n.screenPercent.toUInt8 := by
    change (if 100 < n.screenPercent then 100 else n.screenPercent).toUInt8 = _
    rw [if_neg few]
  rw [row, UInt32.toNat_toUInt8]
  exact Nat.mod_eq_of_lt (Nat.lt_of_le_of_lt small (by decide))

/- While the display takes what it is given, the backlight is off in the sleep and follows the
settings otherwise, and every sample that the battery history still has gives the backlight as
it was when the handler that took the sample was over. -/
theorem historyLight (under : (screen bootId true).Under Taken s) (few : s.notes.length < 4294967296) :
    s.backlight = lightOf s ∧
    ∀ q row, powerLogGet q s.log = some row → s.lights[q.toNat - 1]? = some row.screenPercent.toNat := by
  have lit := litUnder rfl under
  refine ⟨lit.backlight,fun q row get => ?_⟩
  rcases lit.log with none | log
  · rw [none] at get
    cases get
  · rw [log, PowerLogRing.getNumber few] at get
    have found := (Option.ite_none_right_eq_some.mp get).2
    rw [PowerLogRing.unbounded, List.getElem?_mapIdx] at found
    obtain ⟨n,there,rfl⟩ := Option.map_eq_some_iff.mp found
    have small := lit.small n (List.mem_of_getElem? there)
    rw [rowLight small, ← lit.noted, List.getElem?_map, there]
    rfl

def onBattery : Poll := ⟨⟨espOk,(espOk,0x08),(espOk,0),some (0x0f,0xa0),none,none,none,some 64⟩,⟨0,Nat.zero_lt_succ _⟩⟩

def polledTwice : List Label :=
  [.battery onBattery,.ui (.wait 61000),.role true,.roleEnd true,.battery onBattery]

def slept : Screen :=
  ((screen 7 true).run (boot true true true 7 plugged) polledTwice).getD (boot true true true 7 plugged)

theorem historyLightSlept : slept.backlight = 0 ∧ slept.lights[1]? = some 0 := by
  have ran : (screen 7 true).run (boot true true true 7 plugged) polledTwice = some slept := rfl
  have calm : (screen 7 true).Meets Taken (boot true true true 7 plugged) polledTwice := by
    refine ⟨trivial,fun _ _ => ⟨trivial,fun _ _ => ⟨rfl,fun _ _ => ⟨rfl,fun _ _ => ⟨trivial,fun _ _ => trivial⟩⟩⟩⟩⟩
  have initial : (screen 7 true).start (boot true true true 7 plugged) := ⟨true,true,plugged,rfl⟩
  have under := underRun (.start initial) calm ran
  have light := historyLight under (show 2 < 4294967296 by decide)
  exact ⟨light.1,light.2 2 _ rfl⟩

/- What a poll draws, where it draws a charge. -/
def drawn : Option (EspErr × PowerStatus) → Option (List Char × Nat × Int)
  | none => none
  | some (err,ps) =>
    if err ≠ espOk ∨ ps.present = false ∨ ps.percent < 0 then none
    else some (battText ps,battColour ps,battWidth ps.percent)

def visible (b : Battery) : Option (List Char × Nat × Int) := if b.hidden then none else some (b.text,b.colour,b.width)

/- While the screen is awake the header shows the last poll, and that came from the PMIC. -/
structure Fresh (s : Screen) : Prop where
  shown : s.asleep = false → visible s.battery = drawn s.last
  read : ∀ last, s.last = some last → ∃ r, last = powerRead r

theorem drawFresh (err : EspErr) (ps : PowerStatus) (b : Battery) : visible (drawBattery err ps b) = drawn (some (err,ps)) := by
  unfold drawBattery drawn visible
  dsimp only
  split
  · rfl
  · rfl

theorem polledFresh (p : Poll) (s : Screen) : Fresh (battTimerCb p s) := by
  refine ⟨fun awake => ?_,fun last same => ⟨p.reads,(Option.some.inj same).symm⟩⟩
  have awake : s.asleep = false := awake
  change visible (if s.asleep then s.battery else drawBattery _ _ s.battery) = _
  rw [awake, if_neg Bool.false_ne_true]
  exact drawFresh ..

theorem wakeFresh (fresh : Fresh s) (p : Poll) (ok : Bool) : Fresh (onWake p ok s) := by
  unfold onWake
  split
  · exact fresh
  · have polled := polledFresh p {s with asleep := false, dimmed := false}
    cases ok <;> exact ⟨polled.shown,polled.read⟩

theorem roleFresh (fresh : Fresh s) (ok : Bool) : Fresh (roleTimerCb ok s) := by
  unfold roleTimerCb
  split
  · exact fresh
  · dsimp only
    split
    · exact ⟨fresh.shown,fresh.read⟩
    · exact ⟨fresh.shown,fresh.read⟩

theorem freshReachable {lit : Bool} (reached : (screen bootId lit).Reachable s) : Fresh s := by
  refine reachableInvariant Fresh ?_ ?_ reached
  · rintro s ⟨created,allocated,cfg,rfl⟩
    have none : (boot created allocated lit bootId cfg).last = none := rfl
    refine ⟨fun _ => ?_,fun last some => nomatch none.symm.trans some⟩
    rw [none]
    rfl
  · intro s l t fresh taken
    cases stepped taken with
    | moved | tapped | pressed | removed | set => exact ⟨fresh.shown,fresh.read⟩
    | @woke p ok =>
      have touched : Fresh {s with lastInput := s.ui.clock} := ⟨fresh.shown,fresh.read⟩
      exact wakeFresh touched p ok
    | @polled p =>
      have polled := polledFresh p s
      exact ⟨polled.shown,polled.read⟩
    | role => exact roleFresh fresh _
    | @roleEnd ok r =>
      rcases roleEndCases ok r s with same | ⟨_,same⟩
      · rw [same]
        exact ⟨fresh.shown,fresh.read⟩
      · rw [same]
        exact ⟨nofun,fresh.read⟩
    | @slid v ok => cases ok <;> exact ⟨fresh.shown,fresh.read⟩

theorem widthRange {percent : Int} (low : 0 ≤ percent) (high : percent ≤ 100) :
    2 ≤ battWidth percent ∧ battWidth percent ≤ battInnerW := by
  unfold battWidth battInnerW
  rw [Int.tdiv_eq_ediv_of_nonneg (by omega)]
  dsimp only
  split <;> omega

/- While the screen is awake, the battery in the header is that of the last poll: hidden where it
failed or found no battery, and otherwise a fill that stays inside its outline. -/
theorem headerFresh {lit : Bool} (reached : (screen bootId lit).Reachable s) (awake : s.asleep = false) :
    visible s.battery = drawn s.last ∧
    ∀ text colour width, visible s.battery = some (text,colour,width) → 2 ≤ width ∧ width ≤ battInnerW := by
  have fresh := freshReachable reached
  refine ⟨fresh.shown awake,fun text colour width shows => ?_⟩
  have draws := (fresh.shown awake).symm.trans shows
  cases last : s.last with
  | none => exact nomatch last ▸ draws
  | some poll =>
    obtain ⟨r,same⟩ := fresh.read poll last
    have range := (PowerRead.powerReadInRange r).percent
    rw [← same] at range
    rw [last] at draws
    obtain ⟨known,same⟩ := Option.ite_none_left_eq_some.mp draws
    cases Option.some.inj same
    have low : 0 ≤ poll.2.percent := Int.not_lt.mp fun negative => known (.inr (.inr negative))
    rcases range with unset | ⟨_,high⟩
    · omega
    · exact widthRange low high

def polledOnce : Screen :=
  ((screen 7 true).run (boot true true true 7 plugged) [.battery onBattery]).getD (boot true true true 7 plugged)

theorem headerFreshPolled : visible polledOnce.battery = some (Decimal.signed 64 ++ ['%'],colDim,34) := by
  have ran : (screen 7 true).run (boot true true true 7 plugged) [.battery onBattery] = some polledOnce := rfl
  have initial : (screen 7 true).start (boot true true true 7 plugged) := ⟨true,true,plugged,rfl⟩
  exact (headerFresh (reachableRun (.start initial) ran) rfl).1

end EpskcCommissioner.ScreenSleep
