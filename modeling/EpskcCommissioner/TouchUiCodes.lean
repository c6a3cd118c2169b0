import EpskcCommissioner.TouchUiJoins

/-! The code of a join: whether it is typed or comes from the camera, what reaches the worker
has nine digits. -/
namespace EpskcCommissioner.TouchUi

def IsDigit (b : UInt8) : Prop := 0x30 ≤ b ∧ b ≤ 0x39

instance (b : UInt8) : Decidable (IsDigit b) := by
  unfold IsDigit
  infer_instance

/- What `s_code` may hold, and what is a whole code. -/
structure Typed (code : List UInt8) : Prop where
  short : code.length ≤ 9
  digits : ∀ b ∈ code, IsDigit b

structure NineDigits (code : List UInt8) : Prop where
  nine : code.length = 9
  digits : ∀ b ∈ code, IsDigit b

def CodeOf : Job → Prop
  | .join _ code => NineDigits code
  | _ => True

structure Codes (s : Touch) : Prop where
  typed : Typed s.code
  queued : ∀ job ∈ s.jobs.items, CodeOf job
  held : ∀ job, s.worker.held = some job → CodeOf job
  copied : ∀ digits, s.worker = .qrCopy digits → NineDigits digits

variable {s t u : Touch} {btn : Button} {rest : Rest} {job : Job} {w : Work}

theorem typedNil : Typed [] := ⟨Nat.zero_le _,nofun⟩

theorem nineTyped {code : List UInt8} (nine : NineDigits code) : Typed code := ⟨Nat.le_of_eq nine.nine,nine.digits⟩

theorem loopTyped (payload : List UInt8) {out : List UInt8} (typed : Typed out) : Typed (digitsLoop payload out) := by
  induction payload generalizing out with
  | nil => exact typed
  | cons b payload ih =>
    unfold digitsLoop
    split
    · rename_i room
      split
      · rename_i digit
        refine ih ⟨?_,fun c mem => ?_⟩
        · rw [List.length_append]
          exact room
        · rcases List.mem_append.mp mem with before | last
          · exact typed.digits c before
          · exact List.mem_singleton.mp last ▸ digit
      · exact ih typed
    · exact typed

theorem payloadNine {payload : List UInt8} (nine : (digitsFromPayload payload).2 = true) :
    NineDigits (digitsFromPayload payload).1 :=
  ⟨beq_iff_eq.mp nine,(loopTyped payload typedNil).digits⟩

theorem digitTyped {code : List UInt8} (typed : Typed code) (room : code.length < 9) (d : Fin 10) :
    Typed (code ++ [0x30 + UInt8.ofNat d.val]) := by
  have digit : ∀ d : Fin 10, IsDigit (0x30 + UInt8.ofNat d.val) := by decide
  refine ⟨?_,fun b mem => ?_⟩
  · rw [List.length_append]
    exact room
  · rcases List.mem_append.mp mem with before | last
    · exact typed.digits b before
    · exact List.mem_singleton.mp last ▸ digit d

theorem backTyped {code : List UInt8} (typed : Typed code) : Typed code.dropLast := by
  refine ⟨?_,fun b mem => typed.digits b (List.dropLast_subset _ mem)⟩
  rw [List.length_dropLast]
  exact Nat.le_trans (Nat.sub_le _ _) typed.short

structure Sound (s : Touch) : Prop where
  typed : Typed s.code
  queued : ∀ job ∈ s.jobs.items, CodeOf job

theorem queueingSound (sound : Sound s) (carries : CodeOf job) (accepted refused : Rest) :
    Sound (queueing job accepted refused s).1 := by
  unfold queueing
  rcases queueCases job s with none | ⟨t,some,_,jobs,sent,rfl⟩
  · rw [none]
    exact sound
  · rw [some]
    refine ⟨sound.typed,fun other mem => ?_⟩
    change other ∈ jobs.items at mem
    rw [BoundedQueue.sendItems sent] at mem
    rcases List.mem_append.mp mem with before | last
    · exact sound.queued other before
    · exact List.mem_singleton.mp last ▸ carries

def isJoin : Job → Bool
  | .join _ _ => true
  | _ => false

theorem otherSound (job : Job) (other : isJoin job = false) (sound : Sound s) (accepted refused : Rest) :
    Sound (queueing job accepted refused s).1 := by
  refine queueingSound sound ?_ accepted refused
  cases job with
  | join => cases other
  | _ => trivial

theorem confirmingSound {confirmed : Touch → Touch × Rest} (sound : Sound s)
    (goes : ∀ {s}, Sound s → Sound (confirmed s).1) : Sound (confirming btn confirmed s).1 := by
  unfold confirming
  dsimp only
  split
  · exact goes ⟨sound.typed,sound.queued⟩
  · exact ⟨sound.typed,sound.queued⟩

theorem controlSound (sound : Sound s) : Sound (sendControl s) := by
  obtain ⟨jobs,sent,items⟩ := controlCases s
  rw [sent]
  refine ⟨sound.typed,fun job mem => ?_⟩
  rcases items with same | behind
  · exact sound.queued job (same ▸ mem)
  · rcases List.mem_append.mp (behind ▸ mem) with before | last
    · exact sound.queued job before
    · rw [List.mem_singleton.mp last]
      trivial

theorem wifiOpenSound (sound : Sound s) : Sound (onWifiOpen s).1 := by
  have cleaned : Sound {s with aps := s.aps.clean, panel := .wifi} := ⟨sound.typed,sound.queued⟩
  exact otherSound .wifiScan rfl cleaned ..

theorem scanSound (sound : Sound s) : Sound (onScan s).1 := by
  unfold onScan
  split
  · exact wifiOpenSound sound
  · exact otherSound .scan rfl sound ..

theorem shareSound (sound : Sound s) (attached : Bool) : Sound (beginShare attached s).1 := by
  unfold beginShare
  split
  · exact sound
  · have shown : Sound {s with panel := .share} := ⟨sound.typed,sound.queued⟩
    exact otherSound .share rfl shown ..

theorem pickSound (sound : Sound s) (idx : Fin 8) : Sound (onPick idx s).1 := by
  unfold onPick
  split
  · exact sound
  · exact ⟨typedNil,sound.queued⟩

theorem wifiPickSound (sound : Sound s) (idx : Fin 12) : Sound (onWifiPick idx s).1 := by
  unfold onWifiPick
  split
  · exact sound
  · exact ⟨sound.typed,sound.queued⟩

theorem okSound (sound : Sound s) : Sound (onKeypadOk s).1 := by
  unfold onKeypadOk
  split
  · rename_i nine
    exact queueingSound sound (show CodeOf (.join s.target s.code) from ⟨nine,sound.typed.digits⟩) ..
  · exact sound

theorem digitSound (sound : Sound s) (d : Fin 10) : Sound (onKeypadDigit d s).1 := by
  unfold onKeypadDigit
  split
  · rename_i room
    exact ⟨digitTyped sound.typed room d,sound.queued⟩
  · exact sound

theorem qrSound (sound : Sound s) : Sound (onQrOpen s).1 := by
  unfold onQrOpen
  split
  · exact sound
  · rcases queueCases .qr {s with qrAbort := false} with none | ⟨t,some,_,jobs,sent,rfl⟩
    · rw [none]
      exact ⟨sound.typed,sound.queued⟩
    · rw [some]
      refine ⟨sound.typed,fun job mem => ?_⟩
      change job ∈ jobs.items at mem
      rw [BoundedQueue.sendItems sent] at mem
      rcases List.mem_append.mp mem with before | last
      · exact sound.queued job before
      · rw [List.mem_singleton.mp last]
        trivial

theorem nameSound (sound : Sound s) (saved : Bool) : Sound (onNameReady saved s).1 := by
  unfold onNameReady
  split
  · exact controlSound sound
  · exact sound

theorem dsqrSound (sound : Sound s) (stored : Bool) : Sound (onDsqrOpen stored s).1 := by
  unfold onDsqrOpen
  split
  · exact sound
  · exact sound

theorem pressSound (sound : Sound s) (yes : Bool) : Sound (press btn yes s).1 := by
  cases btn with
  | homeJoin | listRescan => exact scanSound sound
  | wifiRow | wifiRescan => exact wifiOpenSound sound
  | create | forget | leave | factoryReset =>
    exact confirmingSound sound fun sound => otherSound _ rfl sound ..
  | reboot => exact confirmingSound sound fun sound => sound
  | cameraRow | cameraRepeat => exact otherSound .cameraPreview rfl sound ..
  | wpassReady => exact otherSound (.wifiJoin _) rfl sound ..
  | share | newCode => exact shareSound sound yes
  | ap place =>
    unfold press
    dsimp only
    split
    · exact wifiPickSound sound _
    · exact sound
  | ba place =>
    unfold press
    dsimp only
    split
    · exact pickSound sound _
    · exact sound
  | digit d => exact digitSound sound d
  | backspace => exact ⟨backTyped sound.typed,sound.queued⟩
  | ok => exact okSound sound
  | qrOpen | qrRetry => exact qrSound sound
  | qrCancel => exact ⟨sound.typed,sound.queued⟩
  | close => exact controlSound sound
  | nameReady => exact nameSound sound yes
  | dataset => exact dsqrSound sound yes
  | refreshMesh | other panel => exact sound
  | manage | settings | screenRow | powerRow | threadRow | nameRow | aboutRow | settingsBack | screenBack | powerBack
  | tsetBack | aboutBack | nameCancel | activity | netBack | activityBack | dsqrBack | wifiBack | wpassCancel | listBack
  | keypadBack | cameraBack | done => exact sound

theorem pressedWorker (pressed : Pressed s btn t rest) : t.worker = s.worker := by
  cases pressed with
  | plain _ quiet =>
    obtain ⟨arm,panel,_,rfl⟩ := quiet
    rfl
  | queued _ quiet _ queues =>
    obtain ⟨arm,panel,_,rfl⟩ := quiet
    obtain ⟨_,jobs,_,rfl⟩ := queues
    rfl
  | control =>
    obtain ⟨jobs,sent,_⟩ := controlCases s
    rw [sent]
  | scan _ _ queues | wifiScan _ _ queues | join _ _ queues | wifiJoin _ _ queues | qrOpen _ _ queues =>
    obtain ⟨_,jobs,_,rfl⟩ := queues
    rfl
  | wifiOpen | pick | pickNone | wifiPick | wifiPickNone | edit | qrFull | qrCancel => rfl

theorem finishSame (done : finishHandler s = some t) : t.code = s.code ∧ t.jobs = s.jobs ∧ t.worker = s.worker := by
  cases handlerStepped done with
  | stayed | showed | listed | cancelled => exact ⟨rfl,rfl,rfl⟩

theorem receivedCodes {jobs : BoundedQueue Job 4} (codes : Codes s) (items : s.jobs.items = job :: jobs.items) :
    Codes {s with jobs := jobs, worker := .received job} := by
  refine ⟨codes.typed,fun other mem => ?_,fun other held => ?_,fun digits at_ => ?_⟩
  · exact codes.queued other (items ▸ List.mem_cons_of_mem _ mem)
  · have same : job = other := Option.some.inj ((receivedHeld job).symm.trans held)
    exact codes.queued other (items ▸ same ▸ List.mem_cons_self)
  · cases job <;> cases at_

theorem heldCodes (codes : Codes s) (code : t.code = s.code) (jobs : t.jobs = s.jobs) (held : t.worker.held = s.worker.held)
    (copies : ∀ digits, t.worker = .qrCopy digits → NineDigits digits) : Codes t :=
  ⟨code ▸ codes.typed,jobs ▸ codes.queued,fun job there => codes.held job (held.symm.trans there),copies⟩

theorem polledCodes {i : Nat} (codes : Codes s) (before : s.worker = .qrPoll i) (payload : List UInt8) :
    Codes {s with worker :=
      if (digitsFromPayload payload).2 then .qrCopy (digitsFromPayload payload).1 else .qrFrame (i + 1)} := by
  refine heldCodes codes rfl rfl ?_ fun digits there => ?_
  · rw [before]
    split <;> rfl
  · split at there
    · rename_i nine
      cases there
      exact payloadNine nine
    · cases there

theorem workCodes (codes : Codes s) (stepped : work w s = some t) : Codes t := by
  unfold work at stepped
  split at stepped
  · obtain ⟨⟨job,jobs⟩,taken,after⟩ := Option.map_eq_some_iff.mp stepped
    cases after
    exact receivedCodes codes (BoundedQueue.receiveItems taken)
  · cases Option.some.inj stepped
    exact ⟨codes.typed,codes.queued,codes.held,codes.copied⟩
  · rename_i before
    cases Option.some.inj stepped
    exact heldCodes codes rfl rfl (by rw [before]; rfl) nofun
  · rename_i before
    cases Option.some.inj stepped
    exact heldCodes codes rfl rfl (by rw [before]; rfl) nofun
  · cases Option.some.inj stepped
    exact ⟨codes.typed,codes.queued,codes.held,codes.copied⟩
  · rename_i before
    cases Option.some.inj stepped
    exact heldCodes codes rfl rfl (by rw [before]; rfl) nofun
  · rename_i before
    cases Option.some.inj stepped
    exact heldCodes codes rfl rfl (by rw [before]; rfl) nofun
  · rename_i ok before
    cases Option.some.inj stepped
    cases ok <;> exact heldCodes codes rfl rfl (by rw [before]; rfl) nofun
  · rename_i before
    cases Option.some.inj stepped
    split <;> exact heldCodes codes rfl rfl (by rw [before]; rfl) nofun
  · rename_i before
    cases Option.some.inj stepped
    exact heldCodes codes rfl rfl (by rw [before]; rfl) nofun
  · rename_i before
    cases Option.some.inj stepped
    exact polledCodes codes before _
  · rename_i digits before
    cases Option.some.inj stepped
    refine ⟨nineTyped (codes.copied digits before),codes.queued,fun job there => codes.held job ?_,nofun⟩
    rw [before]
    exact there
  · rename_i before
    cases Option.some.inj stepped
    exact heldCodes codes rfl rfl (by rw [before]; rfl) nofun
  · rename_i before
    cases Option.some.inj stepped
    exact heldCodes codes rfl rfl (by rw [before]; rfl) nofun
  · rename_i before
    cases Option.some.inj stepped
    exact heldCodes codes rfl rfl (by rw [before]; rfl) nofun
  · rename_i before
    cases Option.some.inj stepped
    exact heldCodes codes rfl rfl (by rw [before]; rfl) nofun
  · cases Option.some.inj stepped
    exact ⟨codes.typed,codes.queued,nofun,nofun⟩
  · cases stepped

theorem soundCodes (sound : Sound t) (codes : Codes s) (worker : t.worker = s.worker) : Codes t :=
  ⟨sound.typed,sound.queued,worker ▸ codes.held,worker ▸ codes.copied⟩

theorem stepCodes {l : Label} (codes : Codes s) (taken : step s l = some t) : Codes t := by
  have sound : Sound s := ⟨codes.typed,codes.queued⟩
  cases l with
  | tap btn yes =>
    obtain ⟨ready,same⟩ := Option.ite_none_right_eq_some.mp taken
    cases Option.some.inj same
    have pressed : Sound (press btn yes s).1 := pressSound sound yes
    have worker : (press btn yes s).1.worker = s.worker := pressedWorker (TouchUi.pressed ready.2.1 yes)
    exact soundCodes ⟨pressed.typed,pressed.queued⟩ codes worker
  | handler =>
    obtain ⟨code,jobs,worker⟩ := finishSame taken
    exact soundCodes ⟨code ▸ sound.typed,jobs ▸ sound.queued⟩ codes worker
  | work w => exact workCodes codes (Option.ite_none_left_eq_some.mp taken).2
  | control =>
    obtain ⟨_,same⟩ := Option.ite_none_right_eq_some.mp taken
    cases Option.some.inj same
    refine soundCodes (controlSound sound) codes ?_
    obtain ⟨jobs,sent,_⟩ := controlCases s
    rw [sent]
  | expire | dataset =>
    obtain ⟨_,same⟩ := Option.ite_none_right_eq_some.mp taken
    cases Option.some.inj same
    exact ⟨codes.typed,codes.queued,codes.held,codes.copied⟩
  | wait | wifi =>
    cases Option.some.inj taken
    exact ⟨codes.typed,codes.queued,codes.held,codes.copied⟩

/- A join that is queued or at work has nine ASCII digits, whether they were typed or read by the
camera, and in whatever order these came. -/
theorem joinsNineDigits (reached : touchUi.Reachable s) : Typed s.code ∧ ∀ target code,
    .join target code ∈ s.jobs.items ∨ s.worker.held = some (.join target code) → NineDigits code := by
  have codes : Codes s := by
    refine reachableInvariant Codes ?_ (fun s l t codes taken => stepCodes codes taken) reached
    rintro s ⟨created,rfl⟩
    exact ⟨typedNil,nofun,nofun,nofun⟩
  exact ⟨codes.typed,fun target code there =>
    there.elim (fun queued => codes.queued _ queued) (fun held => codes.held _ held)⟩

def afterOk : Touch := (touchUi.run (boot true) (typed ++ [.tap .ok true])).getD (boot true)

theorem joinsNineDigitsSevens : NineDigits sevens := by
  have ran : touchUi.run (boot true) (typed ++ [.tap .ok true]) = some afterOk := rfl
  have queued : .join agent sevens ∈ afterOk.jobs.items := List.mem_singleton.mpr rfl
  exact (joinsNineDigits (reachableRun (.start ⟨true,rfl⟩) ran)).2 agent sevens (.inl queued)

end EpskcCommissioner.TouchUi
