import EpskcCommissioner.TouchUiSteps

/-! The two-tap confirmation. The armed button outlives a tap on a button that does not ask for
confirmation; where no such button is tapped meanwhile, only the second of two taps in a row
gets through. -/
namespace EpskcCommissioner.TouchUi

/- The buttons whose handler begins with `confirm_tap`. -/
def Button.guarded : Button → Bool
  | .create | .forget | .leave | .factoryReset | .reboot => true
  | _ => false

def Executed (btn : Button) (s t : Touch) : Prop :=
  match btn with
  | .create => t.jobs.items = s.jobs.items ++ [.form]
  | .forget => t.jobs.items = s.jobs.items ++ [.forget]
  | .leave => t.jobs.items = s.jobs.items ++ [.wifiLeave]
  | .factoryReset => t.jobs.items = s.jobs.items ++ [.factoryReset]
  | .reboot => t.rest = some .reboots
  | _ => False

/- No button without confirmation is tapped while one is armed. -/
def Careful (s : Touch) : Label → Prop
  | .tap btn _ => btn.guarded = false → s.arm.armed = none
  | _ => True

instance (s : Touch) (l : Label) : Decidable (Careful s l) := by
  cases l <;> unfold Careful <;> infer_instance

/- The button that is armed is the one that was tapped last, and its timer runs from then. -/
def ArmedLast (s : Touch) : Prop :=
  ∀ btn, s.arm.armed = some btn → ∃ since, s.past.tap = some (btn,since) ∧ s.arm.timer = some since

variable {s t : Touch} {btn : Button} {l : Label} {job : Job} {accepted refused : Rest} {yes : Bool}

theorem queueingArm : (queueing job accepted refused s).1.arm = s.arm := by
  unfold queueing
  rcases queueCases job s with none | ⟨t,some,_,jobs,_,rfl⟩
  · rw [none]
  · rw [some]

theorem confirmingArm {confirmed : Touch → Touch × Rest} (keeps : ∀ s, (confirmed s).1.arm = s.arm) :
    (confirming btn confirmed s).1.arm = (confirmTap btn s.clock s.arm).1 := by
  unfold confirming
  dsimp only
  split
  · exact keeps _
  · rfl

theorem controlArm : (sendControl s).arm = s.arm := by
  obtain ⟨jobs,sent,_⟩ := controlCases s
  rw [sent]

theorem pickArm {idx : Fin 8} : (onPick idx s).1.arm = s.arm := by
  unfold onPick
  split <;> rfl

theorem wifiPickArm {idx : Fin 12} : (onWifiPick idx s).1.arm = s.arm := by
  unfold onWifiPick
  split <;> rfl

theorem qrOpenArm : (onQrOpen s).1.arm = s.arm := by
  unfold onQrOpen
  split
  · rfl
  · rcases queueCases .qr {s with qrAbort := false} with none | ⟨t,some,_,jobs,_,rfl⟩
    · rw [none]
    · rw [some]

theorem pressArm (btn : Button) (yes : Bool) (s : Touch) :
    (press btn yes s).1.arm = if btn.guarded then (confirmTap btn s.clock s.arm).1 else s.arm := by
  cases btn with
  | create | forget | leave | factoryReset => exact confirmingArm fun s => queueingArm
  | reboot => exact confirmingArm fun s => rfl
  | homeJoin | listRescan =>
    show (onScan s).1.arm = s.arm
    unfold onScan
    split
    · exact queueingArm
    · exact queueingArm
  | wifiRow | wifiRescan | cameraRow | cameraRepeat | wpassReady => exact queueingArm
  | share | newCode =>
    show (beginShare yes s).1.arm = s.arm
    unfold beginShare
    split
    · rfl
    · exact queueingArm
  | close => exact controlArm
  | nameReady =>
    show (onNameReady yes s).1.arm = s.arm
    unfold onNameReady
    split
    · exact controlArm
    · rfl
  | dataset =>
    show (onDsqrOpen yes s).1.arm = s.arm
    unfold onDsqrOpen
    split <;> rfl
  | ap place =>
    dsimp only [press]
    split
    · exact wifiPickArm
    · rfl
  | ba place =>
    dsimp only [press]
    split
    · exact pickArm
    · rfl
  | digit d =>
    show (onKeypadDigit d s).1.arm = s.arm
    unfold onKeypadDigit
    split <;> rfl
  | ok =>
    show (onKeypadOk s).1.arm = s.arm
    unfold onKeypadOk
    split
    · exact queueingArm
    · rfl
  | qrOpen | qrRetry => exact qrOpenArm
  | _ => rfl

theorem tapTaken (taken : step s (.tap btn yes) = some t) : s.rest = none ∧ armDue s = false ∧
    t = {(press btn yes s).1 with rest := some (press btn yes s).2, past := noted btn s (press btn yes s).1.past} := by
  dsimp only [step] at taken
  split at taken
  · rename_i ready
    exact ⟨ready.1,ready.2.2,(Option.some.inj taken).symm⟩
  · cases taken

theorem notedTap (btn : Button) (s : Touch) (past : Past) : (noted btn s past).tap = some (btn,s.clock) := by
  unfold noted
  split <;> rfl

theorem tapArmedLast (careful : Careful s (.tap btn yes)) (taken : step s (.tap btn yes) = some t) :
    ArmedLast t := by
  obtain ⟨_,_,rfl⟩ := tapTaken taken
  intro other now
  dsimp only at now ⊢
  rw [pressArm] at now ⊢
  rw [notedTap]
  cases guarded : btn.guarded with
  | false =>
    rw [guarded, if_neg Bool.false_ne_true, careful guarded] at now
    cases now
  | true =>
    rw [guarded, if_pos rfl] at now
    rw [if_pos rfl]
    unfold confirmTap at now ⊢
    split at now
    · cases now
    · rename_i first
      cases Option.some.inj now
      rw [if_neg first]
      exact ⟨s.clock,rfl,rfl⟩

theorem otherArm (other : ∀ btn yes, l ≠ .tap btn yes) (step : Stepped s l t) :
    t.arm = disarm ∨ t.arm = s.arm ∧ t.past.tap = s.past.tap := by
  cases step with
  | @tapped btn _ _ yes => exact absurd rfl (other btn yes)
  | worked _ worked => exact .inr (by cases worked <;> exact ⟨rfl,rfl⟩)
  | expired => exact .inl rfl
  | control =>
    obtain ⟨jobs,sent,_⟩ := controlCases s
    rw [sent]
    exact .inr ⟨rfl,rfl⟩
  | stayed | showed | listed | cancelled | waited | wifi | dataset => exact .inr ⟨rfl,rfl⟩

theorem armedLast (under : touchUi.Under Careful s) : ArmedLast s := by
  refine underInvariant ArmedLast ?_ ?_ under
  · rintro s ⟨created,rfl⟩ btn now
    cases now
  · intro s l t armed careful taken
    by_cases tap : ∃ btn yes, l = .tap btn yes
    · obtain ⟨btn,yes,rfl⟩ := tap
      exact tapArmedLast careful taken
    · rcases otherArm (fun btn yes same => tap ⟨btn,yes,same⟩) (stepped taken) with off | ⟨same,past⟩
      · intro btn now
        rw [off] at now
        cases now
      · unfold ArmedLast
        rw [same, past]
        exact armed

theorem confirmingRefused {confirmed : Touch → Touch × Rest} (other : s.arm.armed ≠ some btn) :
    confirming btn confirmed s = ({s with arm := ⟨some btn,some s.clock⟩},.stay) := by
  unfold confirming confirmTap
  rw [if_neg other]
  rfl

theorem executedArmed (taken : step s (.tap btn yes) = some t) (executed : Executed btn s t) : s.arm.armed = some btn := by
  obtain ⟨_,_,rfl⟩ := tapTaken taken
  refine not_not.mp fun other => ?_
  have longer : ∀ job : Job, s.jobs.items ≠ s.jobs.items ++ [job] := fun job same =>
    absurd (congrArg List.length same) (by rw [List.length_append, List.length_singleton]; omega)
  cases btn with
  | create | forget | leave | factoryReset =>
    dsimp only [Executed, press, onGenerate, onForget, onWifiLeave, onFactoryReset] at executed
    rw [confirmingRefused other] at executed
    exact longer _ executed
  | reboot =>
    dsimp only [Executed, press, onReboot] at executed
    rw [confirmingRefused other] at executed
    cases executed
  | _ => exact executed

/- Every run in which no other button is tapped while one is armed: what is executed was tapped
twice in a row and in time; the timer disarms, and so does another guarded button. Any other
button would leave the armed one armed. -/
theorem secondTapExecutes (s : Touch) (under : touchUi.Under Careful s) :
    (∀ btn yes t, touchUi.step s (.tap btn yes) = some t → Executed btn s t →
      ∃ since, s.past.tap = some (btn,since) ∧ s.clock < since + 3000) ∧
    (∀ t, touchUi.step s .expire = some t → t.arm.armed = none) ∧
    (∀ btn other yes t, other ≠ btn → Careful s (.tap other yes) → touchUi.step s (.tap other yes) = some t →
      t.arm.armed ≠ some btn) ∧
    ∀ other yes t, other.guarded = false → touchUi.step s (.tap other yes) = some t → t.arm = s.arm := by
  refine ⟨?_,?_,?_,?_⟩
  · intro btn yes t taken executed
    obtain ⟨since,last,timer⟩ := armedLast under btn (executedArmed taken executed)
    obtain ⟨_,inTime,_⟩ := tapTaken taken
    unfold armDue at inTime
    rw [timer] at inTime
    exact ⟨since,last,Nat.lt_of_not_le (of_decide_eq_false inTime)⟩
  · intro t taken
    dsimp only [touchUi, step] at taken
    split at taken
    · cases Option.some.inj taken
      rfl
    · cases taken
  · intro btn other yes t different careful taken
    obtain ⟨_,_,rfl⟩ := tapTaken taken
    dsimp only
    rw [pressArm]
    cases guarded : other.guarded with
    | false =>
      rw [if_neg Bool.false_ne_true, careful guarded]
      nofun
    | true =>
      rw [if_pos rfl]
      unfold confirmTap
      split
      · nofun
      · exact fun same => different (Option.some.inj same)
  · intro other yes t unguarded taken
    obtain ⟨_,_,rfl⟩ := tapTaken taken
    dsimp only
    rw [pressArm, unguarded, if_neg Bool.false_ne_true]

def oneTap : List Label := [.tap .manage true,.handler,.wait 100,.tap .forget true,.handler,.wait 500]

def forgetArmed : Touch :=
  {boot true with panel := .net, arm := ⟨some .forget,some 100⟩, clock := 600, past := ⟨none,none,some (.forget,100),false⟩}

theorem secondTapExecutesForget : ∃ t, touchUi.step forgetArmed (.tap .forget true) = some t ∧ t.jobs.items = [.forget] ∧
    ∃ since, forgetArmed.past.tap = some (.forget,since) ∧ forgetArmed.clock < since + 3000 := by
  have ran : touchUi.run (boot true) oneTap = some forgetArmed := rfl
  have start : touchUi.Under Careful (boot true) := .start ⟨true,rfl⟩
  have under := underRun start (show touchUi.Meets Careful (boot true) oneTap by decide) ran
  exact ⟨_,rfl,rfl,(secondTapExecutes forgetArmed under).1 .forget true _ rfl rfl⟩

/- Forget, Back and Manage network: Forget is still armed, and one more tap on it executes. -/
def backBetween : List Label :=
  [.tap .manage true,.handler,.tap .forget true,.handler,.wait 500,.tap .netBack true,.handler,.wait 500,
    .tap .manage true,.handler,.wait 500]

def stillArmed : Touch :=
  {boot true with panel := .net, arm := ⟨some .forget,some 0⟩, clock := 1500, past := ⟨none,none,some (.manage,1000),false⟩}

theorem forgottenAfterBack : ¬ ∀ s, touchUi.Reachable s → ∀ btn yes t, touchUi.step s (.tap btn yes) = some t →
    Executed btn s t → ∃ since, s.past.tap = some (btn,since) ∧ s.clock < since + 3000 := by
  intro claimed
  have ran : touchUi.run (boot true) backBetween = some stillArmed := rfl
  obtain ⟨since,last,_⟩ := claimed stillArmed (reachableRun (.start ⟨true,rfl⟩) ran) .forget true _ rfl rfl
  cases last

end EpskcCommissioner.TouchUi
