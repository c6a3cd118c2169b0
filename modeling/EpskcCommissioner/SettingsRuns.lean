import EpskcCommissioner.Durable
import EpskcCommissioner.Machine
import EpskcCommissioner.Settings

/-! The settings over whole runs: any number of tasks change them and save them key by key,
beside a factory reset, and the power may go at any moment. -/
namespace EpskcCommissioner.Settings

/- A task in `settings_save`. `reading` has not evaluated the value that it stores next. -/
inductive Saver where
  | idle | opening
  | reading (key : Key) (rest : List Key)
  | writing (key : Key) (v : UInt8) (rest : List Key)
  | committing
  deriving DecidableEq, Repr

/- `erasing` is `settings_erase` before its commit. The last two fields are history: whether
the slider is held, and whether nothing was saved since all was erased. -/
structure Device where
  booted : Bool
  cfg : Cfg
  nvs : Durable Key (Option UInt8)
  saver : Nat → Saver
  erasing : Bool
  dragged : Bool
  erased : Bool

/- `edit` is a change with the save behind it, `drag` one that the slider makes while it is
held. `ok` is the result of the call of the step, `gone` what a failing erase has erased. -/
inductive Label where
  | boot (opened : Bool) (fails : Key → Bool)
  | edit (id : Nat) (edit : Edit)
  | drag (id : Nat) (v : SliderValue)
  | read (id : Nat)
  | save (id : Nat) (ok : Bool)
  | erase (done : Bool) (gone : Key → Bool)
  | eraseCommit (ok : Bool)
  | cut (kept : Key → Bool)

def next : List Key → Saver
  | [] => .committing
  | key :: rest => .reading key rest

def Device.goes (id : Nat) (saver : Saver) (s : Device) : Device := {s with saver := Function.update s.saver id saver}

def settingsSave (id : Nat) (ok : Bool) (s : Device) : Option Device :=
  match s.saver id with
  | .opening => some (s.goes id (if ok then next keys else .idle))
  | .writing key v rest =>
    if ok then some ({s with nvs := s.nvs.write key (some v)}.goes id (next rest)) else some (s.goes id .idle)
  | .committing => some ({s with nvs := if ok then s.nvs.commit else s.nvs}.goes id .idle)
  | .idle | .reading _ _ => none

def step (s : Device) : Label → Option Device
  | .boot opened fails =>
    if s.booted then none
    else some {s with
      booted := true
      cfg := settingsLoad opened (fun k => if fails k then none else s.nvs.seen k) defaults}
  | .edit id edit =>
    if s.booted ∧ s.saver id = .idle then
      some ({s with cfg := edit.apply s.cfg, dragged := s.dragged && edit.key != Key.bright, erased := false}.goes id .opening)
    else none
  | .drag id v =>
    if s.booted ∧ s.saver id = .idle then some {s with cfg := (Edit.brightness v).apply s.cfg, dragged := true} else none
  | .read id =>
    match s.saver id with
    | .reading key rest => some (s.goes id (.writing key (saved s.cfg key) rest))
    | _ => none
  | .save id ok => settingsSave id ok s
  | .erase done gone =>
    if s.booted ∧ s.erasing = false then
      if done then some {s with nvs := s.nvs.clear (fun _ => true) none, erasing := true, erased := true}
      else some {s with nvs := s.nvs.clear gone none}
    else none
  | .eraseCommit ok =>
    if s.erasing then some {s with nvs := if ok then s.nvs.commit else s.nvs, erasing := false} else none
  | .cut kept => some ⟨false,defaults,s.nvs.cut kept,fun _ => .idle,false,false,false⟩

def off (content : Key → Option UInt8) : Device := ⟨false,defaults,.settled content,fun _ => .idle,false,false,false⟩

def device : Machine Device Label := ⟨fun s => ∃ content, s = off content,step⟩

variable {s t : Device} {l : Label}

/- The settings change by a load, by an edit, and by a loss of power. -/
inductive Changed (c : Cfg) : Cfg → Prop where
  | same : Changed c c
  | loaded (opened : Bool) (read : Key → Option UInt8) : Changed c (settingsLoad opened read defaults)
  | edited (edit : Edit) : Changed c (edit.apply c)
  | lost : Changed c defaults

theorem saveChanged {id : Nat} {ok : Bool} (taken : settingsSave id ok s = some t) : t.cfg = s.cfg := by
  unfold settingsSave at taken
  split at taken
  · cases Option.some.inj taken
    rfl
  · split at taken
    · cases Option.some.inj taken
      rfl
    · cases Option.some.inj taken
      rfl
  · cases Option.some.inj taken
    rfl
  · cases taken
  · cases taken

theorem stepChanged (taken : step s l = some t) : Changed s.cfg t.cfg := by
  cases l with
  | boot opened fails =>
    dsimp only [step] at taken
    split at taken
    · cases taken
    · cases Option.some.inj taken
      exact .loaded ..
  | edit id edit =>
    obtain ⟨_,same⟩ := Option.ite_none_right_eq_some.mp taken
    cases Option.some.inj same
    exact .edited edit
  | drag id v =>
    obtain ⟨_,same⟩ := Option.ite_none_right_eq_some.mp taken
    cases Option.some.inj same
    exact .edited (.brightness v)
  | read id =>
    dsimp only [step] at taken
    split at taken
    · cases Option.some.inj taken
      exact .same
    · cases taken
  | save id ok => exact saveChanged taken ▸ .same
  | erase done gone =>
    obtain ⟨_,taken⟩ := Option.ite_none_right_eq_some.mp taken
    split at taken
    · cases Option.some.inj taken
      exact .same
    · cases Option.some.inj taken
      exact .same
  | eraseCommit ok =>
    obtain ⟨_,same⟩ := Option.ite_none_right_eq_some.mp taken
    cases Option.some.inj same
    exact .same
  | cut kept =>
    cases Option.some.inj taken
    exact .lost

theorem validStep (valid : Valid s.cfg) (taken : step s l = some t) : Valid t.cfg := by
  have changed := stepChanged taken
  revert changed
  generalize t.cfg = c
  intro changed
  cases changed with
  | same => exact valid
  | loaded opened read => exact settingsLoadValid defaultsValid opened
  | edited edit => exact applyValid valid edit
  | lost => exact defaultsValid

/- Whatever the flash has at first, whichever calls fail and whenever the power goes. -/
theorem settingsAlwaysValid (reached : device.Reachable s) : Valid s.cfg := by
  refine reachableInvariant (fun s => Valid s.cfg) ?_ ?_ reached
  · rintro s ⟨content,rfl⟩
    exact defaultsValid
  · intro s l t valid taken
    exact validStep valid taken

def slid : Device := {(off fun _ => some 255) with
  booted := true, cfg := (Edit.brightness ⟨40,by decide⟩).apply defaults, dragged := true}

theorem slidReached : device.Reachable slid := by
  have ran : device.run (off fun _ => some 255) [.boot true fun _ => false,.drag 0 ⟨40,by decide⟩] = some slid := rfl
  exact reachableRun (.start ⟨_,rfl⟩) ran

theorem settingsAlwaysValidSlid : Valid slid.cfg ∧ slid.cfg.brightness = 40 := ⟨settingsAlwaysValid slidReached,rfl⟩

def Saver.ahead : Saver → List Key
  | .idle | .committing => []
  | .opening => keys
  | .reading key rest | .writing key _ rest => key :: rest

/- No call fails, no setting changes while a save holds its value, and nothing is erased under
a save. -/
def Undisturbed (s : Device) : Label → Prop
  | .boot opened fails => opened = true ∧ ∀ k, fails k = false
  | .edit _ edit => ∀ id v rest, s.saver id ≠ .writing edit.key v rest
  | .drag _ _ => ∀ id v rest, s.saver id ≠ .writing .bright v rest
  | .save _ ok | .eraseCommit ok => ok = true
  | .erase done _ => done = true ∧ ∀ id, s.saver id = .idle
  | .read _ | .cut _ => True

def Stands (s : Device) (k : Key) : Prop :=
  restored (saved defaults k) k (s.nvs.seen k) = saved s.cfg k ∨ (∃ id, k ∈ (s.saver id).ahead) ∨
    k = .bright ∧ s.dragged = true

structure Kept (s : Device) : Prop where
  store : s.booted = true → s.erased = false → ∀ k, Stands s k
  gone : s.erased = true → (∀ k, s.nvs.seen k = none) ∧ ∀ id, s.saver id = .idle
  held : ∀ id k v rest, s.saver id = .writing k v rest → v = saved s.cfg k
  safe : ∀ k, s.nvs.Safe k ∨ (∃ id, s.saver id ≠ .idle) ∨ s.erasing = true
  down : s.booted = false → ∀ id, s.saver id = .idle

theorem goesSelf (id : Nat) (saver : Saver) (s : Device) : (s.goes id saver).saver id = saver := Function.update_self ..

theorem goesOther {id other : Nat} (apart : other ≠ id) (saver : Saver) (s : Device) :
    (s.goes id saver).saver other = s.saver other := Function.update_of_ne apart ..

/- A task that goes on has no fewer keys ahead, but for those that stand. -/
theorem aheadGoes {id : Nat} {saver : Saver} {k : Key} (mine : k ∈ (s.saver id).ahead → k ∈ saver.ahead)
    (ahead : ∃ i, k ∈ (s.saver i).ahead) : ∃ i, k ∈ ((s.goes id saver).saver i).ahead := by
  obtain ⟨i,there⟩ := ahead
  by_cases same : i = id
  · subst same
    exact ⟨i,(goesSelf i saver s).symm ▸ mine there⟩
  · exact ⟨i,(goesOther same saver s).symm ▸ there⟩

theorem busyGoes {id : Nat} {saver : Saver} (busy : saver ≠ .idle) : ∃ i, (s.goes id saver).saver i ≠ .idle :=
  ⟨id,(goesSelf id saver s).symm ▸ busy⟩

theorem busyAt {id : Nat} {saver : Saver} (here : s.saver id = saver) (busy : saver ≠ .idle) : s.saver id ≠ .idle :=
  here ▸ busy

theorem heldGoes {id : Nat} {saver : Saver} {c : Cfg} (held : ∀ i k v rest, s.saver i = .writing k v rest → v = saved c k)
    (mine : ∀ k v rest, saver = .writing k v rest → v = saved c k) :
    ∀ i k v rest, (s.goes id saver).saver i = .writing k v rest → v = saved c k := by
  intro i k v rest there
  by_cases same : i = id
  · subst same
    rw [goesSelf] at there
    exact mine k v rest there
  · rw [goesOther same] at there
    exact held i k v rest there

theorem nextAhead (rest : List Key) : (next rest).ahead = rest := by
  cases rest <;> rfl

theorem nextBusy (rest : List Key) : next rest ≠ .idle := by
  cases rest <;> nofun

theorem nextHolds (rest : List Key) (k : Key) (v : UInt8) (more : List Key) : next rest ≠ .writing k v more := by
  cases rest <;> nofun

theorem notErased (kept : Kept s) {id : Nat} (busy : s.saver id ≠ .idle) : s.erased = false :=
  eq_false_of_ne_true fun erased => busy ((kept.gone erased).2 id)

theorem stillUp (kept : Kept s) {id : Nat} (busy : s.saver id ≠ .idle) : s.booted = true :=
  eq_true_of_ne_false fun off => busy (kept.down off id)

theorem loadStands (content : Key → Option UInt8) (k : Key) :
    restored (saved defaults k) k (content k) = saved (settingsLoad true content defaults) k :=
  (settingsLoadSaved content defaults k).symm

theorem editKept {id : Nat} {edit : Edit} (kept : Kept s) (apart : ∀ i v rest, s.saver i ≠ .writing edit.key v rest)
    (dragged : Bool) (up : s.booted = true) :
    Kept ({s with cfg := edit.apply s.cfg, dragged := dragged, erased := false}.goes id .opening) where
  store _ _ k := .inr (.inl ⟨id,(goesSelf id .opening _).symm ▸ keysAll k⟩)
  gone erased := nomatch erased
  held := by
    refine heldGoes (s := {s with cfg := edit.apply s.cfg, dragged := dragged, erased := false}) ?_ nofun
    intro i k v rest there
    have other : k ≠ edit.key := fun same => apart i v rest (same ▸ there)
    exact (kept.held i k v rest there).trans (applyOther other s.cfg).symm
  safe k := .inr (.inl (busyGoes (s := {s with cfg := edit.apply s.cfg, dragged := dragged, erased := false}) nofun))
  down off := absurd (up.symm.trans off) (by decide)

theorem dragKept {v : SliderValue} (kept : Kept s) (apart : ∀ i v rest, s.saver i ≠ .writing .bright v rest)
    (up : s.booted = true) : Kept {s with cfg := (Edit.brightness v).apply s.cfg, dragged := true} where
  store _ clean k := by
    by_cases slider : k = .bright
    · exact .inr (.inr ⟨slider,rfl⟩)
    · have other : k ≠ (Edit.brightness v).key := slider
      rcases kept.store up clean k with stored | ahead | ⟨same,_⟩
      · exact .inl (stored.trans (applyOther other s.cfg).symm)
      · exact .inr (.inl ahead)
      · exact absurd same slider
  gone := kept.gone
  held i k w rest there := by
    have other : k ≠ (Edit.brightness v).key := by
      rintro rfl
      exact apart i w rest there
    exact (kept.held i k w rest there).trans (applyOther other s.cfg).symm
  safe := kept.safe
  down := kept.down

theorem readKept {id : Nat} {key : Key} {rest : List Key} (kept : Kept s) (here : s.saver id = .reading key rest) :
    Kept (s.goes id (.writing key (saved s.cfg key) rest)) where
  store up clean k := by
    rcases kept.store up clean k with stored | ahead | dragged
    · exact .inl stored
    · exact .inr (.inl (aheadGoes (by rw [here]; exact fun mem => mem) ahead))
    · exact .inr (.inr dragged)
  gone erased := nomatch (notErased kept (busyAt here nofun)).symm.trans erased
  held := by
    refine heldGoes kept.held ?_
    intro k v more same
    cases same
    rfl
  safe k := .inr (.inl (busyGoes nofun))
  down off := nomatch (stillUp kept (busyAt here nofun)).symm.trans off

theorem openKept {id : Nat} (kept : Kept s) (here : s.saver id = .opening) : Kept (s.goes id (next keys)) where
  store up clean k := by
    rcases kept.store up clean k with stored | ahead | dragged
    · exact .inl stored
    · exact .inr (.inl (aheadGoes (by rw [here, nextAhead]; exact fun mem => mem) ahead))
    · exact .inr (.inr dragged)
  gone erased := nomatch (notErased kept (busyAt here nofun)).symm.trans erased
  held := heldGoes kept.held fun k v more same => absurd same (nextHolds keys k v more)
  safe k := .inr (.inl (busyGoes (nextBusy keys)))
  down off := nomatch (stillUp kept (busyAt here nofun)).symm.trans off

theorem writeKept {id : Nat} {key : Key} {v : UInt8} {rest : List Key} (kept : Kept s) (valid : Valid s.cfg)
    (here : s.saver id = .writing key v rest) :
    Kept ({s with nvs := s.nvs.write key (some v)}.goes id (next rest)) where
  store up clean k := by
    by_cases same : k = key
    · subst same
      have current : v = saved s.cfg k := kept.held id k v rest here
      left
      change restored _ k ((s.nvs.write k (some v)).seen k) = saved s.cfg k
      rw [Durable.writeSelf, current, restoredSaved valid]
    · rcases kept.store up clean k with stored | ahead | dragged
      · left
        change restored _ k ((s.nvs.write key (some v)).seen k) = saved s.cfg k
        rw [Durable.writeOther same]
        exact stored
      · refine .inr (.inl (aheadGoes (s := {s with nvs := s.nvs.write key (some v)}) ?_ ahead))
        rw [here, nextAhead]
        exact fun mem => (List.mem_cons.mp mem).resolve_left same
      · exact .inr (.inr dragged)
  gone erased := nomatch (notErased kept (busyAt here nofun)).symm.trans erased
  held := heldGoes (s := {s with nvs := s.nvs.write key (some v)}) kept.held
    fun k w more same => absurd same (nextHolds rest k w more)
  safe k := .inr (.inl (busyGoes (nextBusy rest)))
  down off := nomatch (stillUp kept (busyAt here nofun)).symm.trans off

theorem commitKept {id : Nat} (kept : Kept s) (here : s.saver id = .committing) :
    Kept ({s with nvs := s.nvs.commit}.goes id .idle) where
  store up clean k := by
    rcases kept.store up clean k with stored | ahead | dragged
    · exact .inl stored
    · refine .inr (.inl (aheadGoes (s := {s with nvs := s.nvs.commit}) ?_ ahead))
      rw [here]
      exact fun mem => mem
    · exact .inr (.inr dragged)
  gone erased := nomatch (notErased kept (busyAt here nofun)).symm.trans erased
  held := heldGoes (s := {s with nvs := s.nvs.commit}) kept.held nofun
  safe k := .inl (Durable.settledSafe _ k)
  down off := nomatch (stillUp kept (busyAt here nofun)).symm.trans off

theorem saveKept {id : Nat} (kept : Kept s) (valid : Valid s.cfg) (taken : settingsSave id true s = some t) : Kept t := by
  unfold settingsSave at taken
  split at taken
  · rename_i here
    cases Option.some.inj taken
    exact openKept kept here
  · rename_i key v rest here
    cases Option.some.inj taken
    exact writeKept kept valid here
  · rename_i here
    cases Option.some.inj taken
    exact commitKept kept here
  · cases taken
  · cases taken

theorem stepKept (kept : Kept s) (valid : Valid s.cfg) (calm : Undisturbed s l) (taken : step s l = some t) : Kept t := by
  cases l with
  | boot opened fails =>
    obtain ⟨rfl,readable⟩ := calm
    dsimp only [step] at taken
    split at taken
    · cases taken
    · rename_i up
      cases Option.some.inj taken
      have all : (fun k => if fails k then none else s.nvs.seen k) = s.nvs.seen :=
        funext fun k => if_neg (by rw [readable k]; exact Bool.false_ne_true)
      have idle := kept.down (eq_false_of_ne_true up)
      refine ⟨fun _ _ k => .inl ?_,kept.gone,?_,kept.safe,nofun⟩
      · rw [all]
        exact loadStands s.nvs.seen k
      · intro id k v rest there
        exact nomatch (idle id).symm.trans there
  | edit id edit =>
    obtain ⟨ready,same⟩ := Option.ite_none_right_eq_some.mp taken
    cases Option.some.inj same
    exact editKept kept calm _ ready.1
  | drag id v =>
    obtain ⟨ready,same⟩ := Option.ite_none_right_eq_some.mp taken
    cases Option.some.inj same
    exact dragKept kept calm ready.1
  | read id =>
    dsimp only [step] at taken
    split at taken
    · rename_i key rest here
      cases Option.some.inj taken
      exact readKept kept here
    · cases taken
  | save id ok =>
    have ok : ok = true := calm
    subst ok
    exact saveKept kept valid taken
  | erase done gone =>
    obtain ⟨rfl,idle⟩ := calm
    obtain ⟨_,same⟩ := Option.ite_none_right_eq_some.mp taken
    rw [if_pos rfl] at same
    cases Option.some.inj same
    refine ⟨nofun,fun _ => ⟨fun _ => rfl,idle⟩,?_,fun _ => .inr (.inr rfl),kept.down⟩
    intro id k v rest there
    exact nomatch (idle id).symm.trans there
  | eraseCommit ok =>
    have ok : ok = true := calm
    subst ok
    obtain ⟨_,same⟩ := Option.ite_none_right_eq_some.mp taken
    cases Option.some.inj same
    exact ⟨kept.store,kept.gone,kept.held,fun k => .inl (Durable.settledSafe _ k),kept.down⟩
  | cut lost =>
    cases Option.some.inj taken
    exact ⟨nofun,nofun,nofun,fun k => .inl (Durable.settledSafe _ k),fun _ _ => rfl⟩

theorem keptUnder (under : device.Under Undisturbed s) : Kept s := by
  refine (underInvariant (fun s => Valid s.cfg ∧ Kept s) ?_ ?_ under).2
  · rintro s ⟨content,rfl⟩
    exact ⟨defaultsValid,nofun,nofun,nofun,fun k => .inl (Durable.settledSafe _ k),fun _ _ => rfl⟩
  · intro s l t inv calm taken
    exact ⟨validStep inv.1 taken,stepKept inv.2 inv.1 calm taken⟩

theorem loadNothing : settingsLoad true (fun _ => none) defaults = defaults :=
  savedInjective fun k => settingsLoadSaved _ defaults k

/- Once no save is under way and the slider is released, a loss of power changes nothing: the
next boot loads the settings as they are, or the defaults behind a factory reset. -/
theorem settingsSurvive (under : device.Under Undisturbed s) (up : s.booted = true) (idle : ∀ id, s.saver id = .idle)
    (still : s.erasing = false) (released : s.dragged = false) (lost : Key → Bool) :
    settingsLoad true (s.nvs.cut lost).seen defaults = if s.erased then defaults else s.cfg := by
  have kept := keptUnder under
  have same : (s.nvs.cut lost).seen = s.nvs.seen := by
    funext k
    refine Durable.cutSafe ?_ lost
    rcases kept.safe k with safe | ⟨id,busy⟩ | erasing
    · exact safe
    · exact absurd (idle id) busy
    · exact absurd erasing (by rw [still]; exact Bool.false_ne_true)
  rw [same]
  cases erased : s.erased with
  | true =>
    rw [if_pos rfl, funext (kept.gone erased).1]
    exact loadNothing
  | false =>
    rw [if_neg Bool.false_ne_true]
    refine savedInjective fun k => ?_
    rw [settingsLoadSaved]
    rcases kept.store up erased k with stored | ⟨id,ahead⟩ | ⟨_,dragged⟩
    · exact stored
    · rw [idle id] at ahead
      cases ahead
    · exact absurd dragged (by rw [released]; exact Bool.false_ne_true)

def Label.saves : Label → Bool
  | .read _ | .save _ true => true
  | _ => false

theorem savesCalm {labels : List Label} (saves : ∀ l ∈ labels, l.saves = true) : device.Meets Undisturbed s labels := by
  induction labels generalizing s with
  | nil => trivial
  | cons l rest ih =>
    refine ⟨?_,fun t _ => ih fun l mem => saves l (List.mem_cons_of_mem _ mem)⟩
    have first := saves l List.mem_cons_self
    cases l with
    | read id => trivial
    | save id ok => cases ok <;> first | rfl | cases first
    | _ => cases first

def channelSaved : List Label := .save 0 true :: (keys.flatMap fun _ => [.read 0,.save 0 true]) ++ [.save 0 true]

def onChannel : Device :=
  (device.run (off fun _ => none) (.boot true (fun _ => false) :: .edit 0 (.channel 15) :: channelSaved)).getD (off fun _ => none)

theorem onChannelUnder : device.Under Undisturbed onChannel := by
  have ran : device.run (off fun _ => none) (.boot true (fun _ => false) :: .edit 0 (.channel 15) :: channelSaved) =
      some onChannel := rfl
  have calm : device.Meets Undisturbed (off fun _ => none)
      (.boot true (fun _ => false) :: .edit 0 (.channel 15) :: channelSaved) := by
    refine ⟨⟨rfl,fun _ => rfl⟩,fun s taken => ?_⟩
    cases Option.some.inj taken
    exact ⟨nofun,fun s _ => savesCalm (by decide)⟩
  exact underRun (.start ⟨_,rfl⟩) calm ran

theorem onChannelIdle (id : Nat) : onChannel.saver id = .idle := by
  cases id <;> rfl

theorem settingsSurviveChannel :
    settingsLoad true (onChannel.nvs.cut fun _ => false).seen defaults = {defaults with newNetChannel := 25} :=
  settingsSurvive onChannelUnder rfl onChannelIdle rfl rfl _

end EpskcCommissioner.Settings
