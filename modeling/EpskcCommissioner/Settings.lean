import Mathlib.Data.UInt
import Mathlib.Tactic.Common

/-! `settings.c`: the settings, what is taken of a stored value and what is stored of them;
and the widgets of `ui.c` that change one. -/
namespace EpskcCommissioner.Settings

/- `settings_t`, the type of `s_cfg` -/
structure Cfg where
  brightness : UInt8
  sleepIdx : UInt8
  preferRouter : Bool
  newNetChannel : UInt8
  shareMinutes : UInt8
  keepAwakePowered : Bool
  restApi : Bool
  restEpskc : Bool
  restLogs : Bool
  deriving DecidableEq, Repr

def settingsSleepMs : List Nat := [30000,60000,300000,0]

/- `s_cfg` as it is before anything is loaded. -/
def defaults : Cfg where
  brightness := 100
  sleepIdx := 1
  preferRouter := false
  newNetChannel := 0
  shareMinutes := 5
  keepAwakePowered := true
  restApi := true
  restEpskc := true
  restLogs := true

/- The keys of the namespace, in the order of `settings_load` and `settings_save`. -/
inductive Key where
  | bright | sleep | router | channel | sharemin | keepawake | restapi | restepskc | restlogs
  deriving DecidableEq, Repr

def keys : List Key := [.bright,.sleep,.router,.channel,.sharemin,.keepawake,.restapi,.restepskc,.restlogs]

def flagByte (b : Bool) : UInt8 := if b then 1 else 0

/- What `settings_save` stores under a key. -/
def saved (c : Cfg) : Key → UInt8
  | .bright => c.brightness
  | .sleep => c.sleepIdx
  | .router => flagByte c.preferRouter
  | .channel => c.newNetChannel
  | .sharemin => c.shareMinutes
  | .keepawake => flagByte c.keepAwakePowered
  | .restapi => flagByte c.restApi
  | .restepskc => flagByte c.restEpskc
  | .restlogs => flagByte c.restLogs

/- The checks of `settings_load` and of `settings_load_bool`. -/
def accepts : Key → UInt8 → Bool
  | .bright, v => v ≥ 10 && v ≤ 100
  | .sleep, v => v < 4
  | .channel, v => v == 0 || v ≥ 11 && v ≤ 26
  | .sharemin, v => v == 2 || v == 5 || v == 10
  | .router, v | .keepawake, v | .restapi, v | .restepskc, v | .restlogs, v => v ≤ 1

def store (v : UInt8) (c : Cfg) : Key → Cfg
  | .bright => {c with brightness := v}
  | .sleep => {c with sleepIdx := v}
  | .router => {c with preferRouter := v != 0}
  | .channel => {c with newNetChannel := v}
  | .sharemin => {c with shareMinutes := v}
  | .keepawake => {c with keepAwakePowered := v != 0}
  | .restapi => {c with restApi := v != 0}
  | .restepskc => {c with restEpskc := v != 0}
  | .restlogs => {c with restLogs := v != 0}

/- One key: `nvs_get_u8` gives nothing where the value is missing or cannot be read. -/
def loadKey (read : Key → Option UInt8) (c : Cfg) (key : Key) : Cfg :=
  match read key with
  | some v => if accepts key v then store v c key else c
  | none => c

def settingsLoad (opened : Bool) (read : Key → Option UInt8) (c : Cfg) : Cfg :=
  if opened then keys.foldl (loadKey read) c else c

structure Valid (c : Cfg) : Prop where
  brightness : 10 ≤ c.brightness.toNat ∧ c.brightness.toNat ≤ 100
  sleepIdx : c.sleepIdx.toNat < 4
  newNetChannel : c.newNetChannel.toNat = 0 ∨ 11 ≤ c.newNetChannel.toNat ∧ c.newNetChannel.toNat ≤ 26
  shareMinutes : c.shareMinutes = 2 ∨ c.shareMinutes = 5 ∨ c.shareMinutes = 10

/- What the slider gives, between the ends of its range. -/
abbrev SliderValue := {v : Nat // 10 ≤ v ∧ v ≤ 100}

/- The change a widget, or the console's `rest`, makes; a roller gives the place of an option. -/
inductive Edit where
  | brightness (v : SliderValue)
  | sleep (idx : Fin 4)
  | keepAwake (on : Bool)
  | preferRouter (on : Bool)
  | channel (idx : Fin 17)
  | share (idx : Fin 3)
  | restApi (on : Bool) | restEpskc (on : Bool) | restLogs (on : Bool)

def Edit.key : Edit → Key
  | .brightness _ => .bright
  | .sleep _ => .sleep
  | .keepAwake _ => .keepawake
  | .preferRouter _ => .router
  | .channel _ => .channel
  | .share _ => .sharemin
  | .restApi _ => .restapi
  | .restEpskc _ => .restepskc
  | .restLogs _ => .restlogs

def channelChoice (idx : Nat) : UInt8 := if idx = 0 then 0 else UInt8.ofNat (10 + idx)

def shareChoice (idx : Nat) : UInt8 := [2,5,10].getD (if idx < 3 then idx else 1) 5

def Edit.apply (c : Cfg) : Edit → Cfg
  | .brightness v => {c with brightness := UInt8.ofNat v.1}
  | .sleep idx => {c with sleepIdx := UInt8.ofNat idx.val}
  | .keepAwake on => {c with keepAwakePowered := on}
  | .preferRouter on => {c with preferRouter := on}
  | .channel idx => {c with newNetChannel := channelChoice idx.val}
  | .share idx => {c with shareMinutes := shareChoice idx.val}
  | .restApi on => {c with restApi := on}
  | .restEpskc on => {c with restEpskc := on}
  | .restLogs on => {c with restLogs := on}

/- The options that `build_tset` selects. -/
def channelSelected (c : UInt8) : Nat := if c ≠ 0 then c.toNat - 10 else 0

def shareSelected (m : UInt8) : Nat := if m = 2 then 0 else if m = 10 then 2 else 1

variable {c d : Cfg} {read : Key → Option UInt8}

theorem defaultsValid : Valid defaults := ⟨by decide,by decide,by decide,by decide⟩

theorem storeValid (valid : Valid c) {key : Key} {v : UInt8} (passes : accepts key v = true) : Valid (store v c key) := by
  cases key with
  | bright =>
    obtain ⟨low,high⟩ := Bool.and_eq_true_iff.mp passes
    exact {valid with brightness := ⟨UInt8.le_iff_toNat_le.mp (of_decide_eq_true low),
      UInt8.le_iff_toNat_le.mp (of_decide_eq_true high)⟩}
  | sleep => exact {valid with sleepIdx := UInt8.lt_iff_toNat_lt.mp (of_decide_eq_true passes)}
  | channel =>
    refine {valid with newNetChannel := (Bool.or_eq_true_iff.mp passes).imp (fun zero => ?_) (fun inside => ?_)}
    · exact congrArg UInt8.toNat (beq_iff_eq.mp zero)
    · obtain ⟨low,high⟩ := Bool.and_eq_true_iff.mp inside
      exact ⟨UInt8.le_iff_toNat_le.mp (of_decide_eq_true low),UInt8.le_iff_toNat_le.mp (of_decide_eq_true high)⟩
  | sharemin =>
    refine {valid with shareMinutes := ?_}
    rcases Bool.or_eq_true_iff.mp passes with early | ten
    · rcases Bool.or_eq_true_iff.mp early with two | five
      · exact .inl (beq_iff_eq.mp two)
      · exact .inr (.inl (beq_iff_eq.mp five))
    · exact .inr (.inr (beq_iff_eq.mp ten))
  | router | keepawake | restapi | restepskc | restlogs =>
    exact ⟨valid.brightness,valid.sleepIdx,valid.newNetChannel,valid.shareMinutes⟩

theorem loadKeyValid (valid : Valid c) (key : Key) : Valid (loadKey read c key) := by
  unfold loadKey
  split
  · split
    · rename_i passes
      exact storeValid valid passes
    · exact valid
  · exact valid

/- Whatever is stored, and whatever of it can be read. -/
theorem settingsLoadValid (valid : Valid c) (opened : Bool) : Valid (settingsLoad opened read c) := by
  unfold settingsLoad
  split
  · generalize keys = all
    induction all generalizing c with
    | nil => exact valid
    | cons key rest ih => exact ih (loadKeyValid valid key)
  · exact valid

theorem channelChoiceRange : ∀ idx : Fin 17,
    (channelChoice idx.val).toNat = 0 ∨ 11 ≤ (channelChoice idx.val).toNat ∧ (channelChoice idx.val).toNat ≤ 26 := by decide

theorem shareChoiceRange : ∀ idx : Fin 3,
    shareChoice idx.val = 2 ∨ shareChoice idx.val = 5 ∨ shareChoice idx.val = 10 := by decide

theorem applyValid (valid : Valid c) (edit : Edit) : Valid (edit.apply c) := by
  cases edit with
  | brightness v =>
    have small : (UInt8.ofNat v.1).toNat = v.1 := UInt8.toNat_ofNat_of_lt' (Nat.lt_of_le_of_lt v.2.2 (by decide))
    exact {valid with brightness := small.symm ▸ v.2}
  | sleep idx =>
    have small : (UInt8.ofNat idx.val).toNat = idx.val :=
      UInt8.toNat_ofNat_of_lt' (Nat.lt_trans idx.isLt (by decide))
    exact {valid with sleepIdx := small.symm ▸ idx.isLt}
  | channel idx => exact {valid with newNetChannel := channelChoiceRange idx}
  | share idx => exact {valid with shareMinutes := shareChoiceRange idx}
  | keepAwake on | preferRouter on | restApi on | restEpskc on | restLogs on =>
    exact ⟨valid.brightness,valid.sleepIdx,valid.newNetChannel,valid.shareMinutes⟩

/- The rollers of the Thread page show the settings, so that to choose what is shown changes
nothing. -/
theorem channelRoundTrip (valid : Valid c) : channelChoice (channelSelected c.newNetChannel) = c.newNetChannel := by
  unfold channelChoice channelSelected
  rcases valid.newNetChannel with zero | ⟨low,_⟩
  · have same : c.newNetChannel = 0 := UInt8.toNat_inj.mp zero
    rw [same]
    rfl
  · have some : c.newNetChannel ≠ 0 := fun same => absurd (congrArg UInt8.toNat same ▸ low) (by decide)
    rw [if_pos some, if_neg (by omega), Nat.add_sub_cancel' (by omega), UInt8.ofNat_toNat]

theorem shareRoundTrip (valid : Valid c) : shareChoice (shareSelected c.shareMinutes) = c.shareMinutes := by
  rcases valid.shareMinutes with two | five | ten
  · rw [two]
    rfl
  · rw [five]
    rfl
  · rw [ten]
    rfl

theorem flagByteNot (on : Bool) : (flagByte on != 0) = on := by
  cases on <;> rfl

theorem flagByteOf {v : UInt8} (small : v ≤ 1) : flagByte (v != 0) = v := by
  have small : v.toNat ≤ 1 := UInt8.le_iff_toNat_le.mp small
  have either : v = 0 ∨ v = 1 := by
    rcases Nat.le_one_iff_eq_zero_or_eq_one.mp small with zero | one
    · exact .inl (UInt8.toNat_inj.mp zero)
    · exact .inr (UInt8.toNat_inj.mp one)
  rcases either with rfl | rfl <;> rfl

theorem flagByteSmall (on : Bool) : flagByte on ≤ 1 := by
  cases on <;> decide

theorem storeSaved {key : Key} {v : UInt8} (passes : accepts key v = true) (c : Cfg) : saved (store v c key) key = v := by
  cases key with
  | bright | sleep | channel | sharemin => rfl
  | router | keepawake | restapi | restepskc | restlogs => exact flagByteOf (of_decide_eq_true passes)

theorem storeOther {key other : Key} (apart : other ≠ key) (v : UInt8) (c : Cfg) :
    saved (store v c key) other = saved c other := by
  cases key <;> cases other <;> first | rfl | exact absurd rfl apart

def restored (base : UInt8) (key : Key) : Option UInt8 → UInt8
  | some v => if accepts key v then v else base
  | none => base

theorem loadKeySaved (c : Cfg) (key other : Key) : saved (loadKey read c key) other =
    if other = key then restored (saved c other) other (read other) else saved c other := by
  unfold loadKey
  by_cases same : other = key
  · subst same
    rw [if_pos rfl]
    cases read other with
    | none => rfl
    | some v =>
      dsimp only [restored]
      split
      · rename_i passes
        exact storeSaved passes c
      · rfl
  · rw [if_neg same]
    split
    · split
      · exact storeOther same _ c
      · rfl
    · rfl

theorem foldSaved {all : List Key} (once : all.Nodup) (c : Cfg) (k : Key) : saved (all.foldl (loadKey read) c) k =
    if k ∈ all then restored (saved c k) k (read k) else saved c k := by
  induction all generalizing c with
  | nil => rw [if_neg List.not_mem_nil]; rfl
  | cons key rest ih =>
    obtain ⟨fresh,once⟩ := List.nodup_cons.mp once
    rw [List.foldl_cons, ih once, loadKeySaved]
    by_cases same : k = key
    · subst same
      rw [if_neg fresh, if_pos rfl, if_pos List.mem_cons_self]
    · rw [if_neg same]
      exact if_congr (List.mem_cons.trans (or_iff_right same)).symm rfl rfl

theorem keysAll (k : Key) : k ∈ keys := by
  cases k <;> decide

theorem settingsLoadSaved (read : Key → Option UInt8) (c : Cfg) (k : Key) :
    saved (settingsLoad true read c) k = restored (saved c k) k (read k) := by
  unfold settingsLoad
  rw [if_pos rfl, foldSaved (by decide), if_pos (keysAll k)]

theorem savedFlag {on off : Bool} (same : flagByte on = flagByte off) : on = off := by
  rw [← flagByteNot on, same, flagByteNot]

theorem savedInjective (same : ∀ k, saved c k = saved d k) : c = d := by
  obtain ⟨brightness,sleepIdx,preferRouter,newNetChannel,shareMinutes,keepAwakePowered,restApi,restEpskc,restLogs⟩ := c
  have first : brightness = d.brightness := same .bright
  have second : sleepIdx = d.sleepIdx := same .sleep
  have third : preferRouter = d.preferRouter := savedFlag (same .router)
  have fourth : newNetChannel = d.newNetChannel := same .channel
  have fifth : shareMinutes = d.shareMinutes := same .sharemin
  have sixth : keepAwakePowered = d.keepAwakePowered := savedFlag (same .keepawake)
  have seventh : restApi = d.restApi := savedFlag (same .restapi)
  have eighth : restEpskc = d.restEpskc := savedFlag (same .restepskc)
  have ninth : restLogs = d.restLogs := savedFlag (same .restlogs)
  subst first second third fourth fifth sixth seventh eighth ninth
  rfl

theorem savedAccepted (valid : Valid c) (key : Key) : accepts key (saved c key) = true := by
  cases key with
  | bright =>
    exact Bool.and_eq_true_iff.mpr ⟨decide_eq_true (UInt8.le_iff_toNat_le.mpr valid.brightness.1),
      decide_eq_true (UInt8.le_iff_toNat_le.mpr valid.brightness.2)⟩
  | sleep => exact decide_eq_true (UInt8.lt_iff_toNat_lt.mpr valid.sleepIdx)
  | channel =>
    refine Bool.or_eq_true_iff.mpr (valid.newNetChannel.imp (fun zero => ?_) (fun inside => ?_))
    · exact beq_iff_eq.mpr (UInt8.toNat_inj.mp zero)
    · exact Bool.and_eq_true_iff.mpr ⟨decide_eq_true (UInt8.le_iff_toNat_le.mpr inside.1),
        decide_eq_true (UInt8.le_iff_toNat_le.mpr inside.2)⟩
  | sharemin =>
    have either := valid.shareMinutes
    change (c.shareMinutes == 2 || c.shareMinutes == 5 || c.shareMinutes == 10) = true
    rcases either with two | five | ten
    · rw [two]
      rfl
    · rw [five]
      rfl
    · rw [ten]
      rfl
  | router | keepawake | restapi | restepskc | restlogs => exact decide_eq_true (flagByteSmall _)

theorem restoredSaved (valid : Valid c) (base : UInt8) (key : Key) :
    restored base key (some (saved c key)) = saved c key := if_pos (savedAccepted valid key)

theorem applyOther {edit : Edit} {k : Key} (apart : k ≠ edit.key) (c : Cfg) : saved (edit.apply c) k = saved c k := by
  cases edit <;> cases k <;> first | rfl | exact absurd rfl apart

end EpskcCommissioner.Settings
