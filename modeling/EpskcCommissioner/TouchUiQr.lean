import EpskcCommissioner.TouchUiSteps

/-! A QR job that is cancelled. The abort flag stops its loop, but a code that the camera has
already given it is still copied and shown; where the cancel and the code do not meet, nothing
comes behind the cancel. -/
namespace EpskcCommissioner.TouchUi

/- The cancel does not come while the worker has a code, and no code comes behind it. -/
def Timely (s : Touch) : Label → Prop
  | .tap .qrCancel _ => s.worker.holdsCode = false
  | .work (.poll (some payload)) => s.qrAbort = true → (digitsFromPayload payload).2 = false
  | _ => True

instance (s : Touch) (l : Label) : Decidable (Timely s l) := by
  unfold Timely
  split <;> infer_instance

/- A QR job that was cancelled has its abort flag set until it is given back. -/
structure Stopping (s : Touch) : Prop where
  leaving : s.rest = some .cancels → s.qrAbort = true
  stopped : s.past.cancelled = true → s.qrAbort = true ∧ (.qr ∈ s.jobs.items ∨ s.worker.held = some .qr)

variable {s t u : Touch} {btn : Button} {rest : Rest} {l : Label} {w : Work} {job : Job}

theorem notedCancelled (btn : Button) (s : Touch) (past : Past) : (noted btn s past).cancelled = past.cancelled := by
  unfold noted
  split <;> rfl

theorem controlMore (queued : job ∈ s.jobs.items) : job ∈ (sendControl s).jobs.items := by
  obtain ⟨jobs,sent,items⟩ := controlCases s
  rw [sent]
  dsimp only
  rcases items with same | behind
  · rw [same]
    exact queued
  · rw [behind]
    exact List.mem_append_left _ queued

/- What a tap leaves of a QR job, and of its abort flag where the flag is needed. -/
structure TapKeeps (s u : Touch) (rest : Rest) : Prop where
  abort : s.past.cancelled = true → u.qrAbort = true
  leaving : rest = .cancels → u.qrAbort = true
  queued : .qr ∈ s.jobs.items → .qr ∈ u.jobs.items
  worker : u.worker = s.worker
  past : u.past = s.past

theorem queuesKeeps (queues : Queues job t u) (onTheWay : rest ≠ .cancels) (jobs : t.jobs = s.jobs)
    (worker : t.worker = s.worker) (past : t.past = s.past) (abort : s.past.cancelled = true → t.qrAbort = true) :
    TapKeeps s u rest := by
  obtain ⟨_,more,sent,rfl⟩ := queues
  refine ⟨abort,fun cancels => absurd cancels onTheWay,fun queued => ?_,worker,past⟩
  dsimp only
  rw [BoundedQueue.sendItems sent, jobs]
  exact List.mem_append_left _ queued

theorem plainNotCancels (plain : Plain rest) : rest ≠ .cancels := by
  rintro rfl
  exact plain

theorem tapKeeps (flag : Flag s) (stopping : Stopping s) (tapped : Pressed s btn u rest) : TapKeeps s u rest := by
  have abort : s.past.cancelled = true → s.qrAbort = true := fun cancelled => (stopping.stopped cancelled).1
  cases tapped with
  | plain _ quiet plain =>
    obtain ⟨arm,panel,_,rfl⟩ := quiet
    exact ⟨abort,fun cancels => absurd cancels (plainNotCancels plain),id,rfl,rfl⟩
  | queued _ quiet _ queues plain =>
    obtain ⟨arm,panel,_,rfl⟩ := quiet
    exact queuesKeeps queues (plainNotCancels plain) rfl rfl rfl abort
  | control _ plain =>
    have queued : .qr ∈ s.jobs.items → .qr ∈ (sendControl s).jobs.items := controlMore
    obtain ⟨jobs,sent,_⟩ := controlCases s
    rw [sent] at queued ⊢
    exact ⟨abort,fun cancels => absurd cancels (plainNotCancels plain),queued,rfl,rfl⟩
  | scan _ _ queues | join _ _ queues | wifiJoin _ _ queues =>
    exact queuesKeeps queues Rest.noConfusion rfl rfl rfl abort
  | wifiScan _ _ queues => exact queuesKeeps queues Rest.noConfusion rfl rfl rfl abort
  | qrOpen _ _ queues =>
    -- the flag of the UI's jobs is clear, so no QR job is under way and none is cancelled
    obtain ⟨queued,held⟩ := freeIdle flag queues.1 (rfl : isUiJob .qr = true)
    refine queuesKeeps queues Rest.noConfusion rfl rfl rfl fun cancelled => ?_
    exact (stopping.stopped cancelled).2.elim (fun waiting => absurd waiting queued) (fun running => absurd running held)
  | qrFull | qrCancel => exact ⟨fun _ => rfl,fun _ => rfl,id,rfl,rfl⟩
  | wifiOpen | pick | pickNone | wifiPick | wifiPickNone | edit => exact ⟨abort,Rest.noConfusion,id,rfl,rfl⟩

theorem tapStopping (flag : Flag s) (stopping : Stopping s) (tapped : Pressed s btn u rest) :
    Stopping {u with rest := some rest, past := noted btn s u.past} := by
  obtain ⟨abort,leaving,queued,worker,past⟩ := tapKeeps flag stopping tapped
  refine ⟨fun cancels => leaving (Option.some.inj cancels),fun cancelled => ?_⟩
  dsimp only at cancelled ⊢
  rw [notedCancelled, past] at cancelled
  rw [worker]
  exact ⟨abort cancelled,(stopping.stopped cancelled).2.imp_left queued⟩

theorem receivedQr {jobs : BoundedQueue Job 4} (items : s.jobs.items = job :: jobs.items)
    (under : .qr ∈ s.jobs.items ∨ s.worker.held = some .qr) (idle : s.worker = .idle) :
    .qr ∈ jobs.items ∨ (Worker.received job).held = some .qr := by
  rw [idle, items, List.mem_cons] at under
  rcases under with (same | later) | none
  · exact .inr (same ▸ receivedHeld .qr)
  · exact .inl later
  · cases none

theorem workedStopping (stopping : Stopping s) (worked : Worked s w t) : Stopping t := by
  obtain ⟨leaving,stopped⟩ := stopping
  cases worked with
  | received idle job jobs items =>
    exact ⟨leaving,fun cancelled => ⟨(stopped cancelled).1,receivedQr items (stopped cancelled).2 idle⟩⟩
  | qr before after =>
    exact ⟨leaving,fun cancelled => ⟨(stopped cancelled).1,.inr after⟩⟩
  | table before after | apTable before after =>
    refine ⟨leaving,fun cancelled => ⟨(stopped cancelled).1,?_⟩⟩
    rw [before] at stopped
    rcases after with rfl | rfl <;> exact (stopped cancelled).2
  | built before | apsBuilt before | copied before | shown before | left before | finished before =>
    rw [before] at stopped
    exact ⟨leaving,stopped⟩
  | @gaveBack job before =>
    refine ⟨leaving,fun cancelled => ?_⟩
    dsimp only at cancelled ⊢
    split at cancelled
    · cases cancelled
    · rename_i other
      obtain ⟨abort,under⟩ := stopped cancelled
      rw [before] at under
      exact ⟨abort,under.imp_right fun held => absurd (Option.some.inj held) other⟩

theorem steppedStopping (flag : Flag s) (stopping : Stopping s) (step : Stepped s l t) : Stopping t := by
  cases step with
  | tapped _ _ _ pressed => exact tapStopping flag stopping pressed
  | worked _ worked => exact workedStopping stopping worked
  | cancelled was =>
    refine ⟨nofun,fun under => ⟨stopping.leaving was,?_⟩⟩
    exact (of_decide_eq_true under).imp_right heldJob
  | control =>
    have queued : .qr ∈ s.jobs.items → .qr ∈ (sendControl s).jobs.items := controlMore
    obtain ⟨jobs,sent,_⟩ := controlCases s
    rw [sent] at queued ⊢
    refine ⟨stopping.leaving,fun cancelled => ?_⟩
    exact ⟨(stopping.stopped cancelled).1,(stopping.stopped cancelled).2.imp_left queued⟩
  | stayed | showed | listed => exact ⟨nofun,stopping.stopped⟩
  | expired | waited | wifi | dataset => exact ⟨stopping.leaving,stopping.stopped⟩

theorem stoppingUnder {meets : Touch → Label → Prop} (under : touchUi.Under meets s) : Stopping s := by
  refine underInvariantWith Flag Stopping (fun s => flagUnder) ?_ ?_ under
  · rintro s ⟨created,rfl⟩
    exact ⟨nofun,nofun⟩
  · intro s l t flag stopping _ taken
    exact steppedStopping flag stopping (stepped taken)

/- No code is on its way where the abort flag is set. -/
def NoCode (s : Touch) : Prop := s.qrAbort = true → s.worker.holdsCode = false

theorem holdsQr {worker : Worker} (holds : worker.holdsCode = true) : worker.job = some .qr := by
  cases worker with
  | qrCopy _ | qrStop _ | qrShow _ => rfl
  | _ => cases holds

theorem queuesNoCode (queues : Queues job t u) (noCode : t.qrAbort = true → t.worker.holdsCode = false) : NoCode u := by
  obtain ⟨_,jobs,_,rfl⟩ := queues
  exact noCode

theorem tapNoCode (flag : Flag s) (noCode : NoCode s) {yes : Bool} (timely : Timely s (.tap btn yes))
    (tapped : Pressed s btn u rest) : NoCode u := by
  cases tapped with
  | plain _ quiet =>
    obtain ⟨arm,panel,_,rfl⟩ := quiet
    exact noCode
  | queued _ quiet _ queues =>
    obtain ⟨arm,panel,_,rfl⟩ := quiet
    exact queuesNoCode queues noCode
  | control =>
    obtain ⟨jobs,sent,_⟩ := controlCases s
    rw [sent]
    exact noCode
  | scan _ _ queues | join _ _ queues | wifiJoin _ _ queues => exact queuesNoCode queues noCode
  | wifiScan _ _ queues => exact queuesNoCode queues noCode
  | qrOpen _ _ queues => exact queuesNoCode queues nofun
  | qrFull _ free =>
    obtain ⟨_,held⟩ := freeIdle flag free (rfl : isUiJob .qr = true)
    exact fun _ => eq_false_of_ne_true fun holds => held (heldJob (holdsQr holds))
  | qrCancel => exact fun _ => timely
  | wifiOpen | pick | pickNone | wifiPick | wifiPickNone | edit => exact noCode

theorem workedNoCode (noCode : NoCode s) (timely : Timely s (.work w)) (worked : Worked s w t) : NoCode t := by
  cases worked with
  | received _ job => exact fun _ => by cases job <;> rfl
  | table _ after | apTable _ after => exact fun _ => by rcases after with rfl | rfl <;> rfl
  | @qr w _ worker _ code =>
    refine fun abort => eq_false_of_ne_true fun holds => ?_
    rcases code holds with before | ⟨payload,rfl,nine⟩
    · rw [noCode abort] at before
      cases before
    · have none := timely abort
      rw [nine] at none
      cases none
  | copied before =>
    refine fun abort => absurd (noCode abort) ?_
    rw [before]
    nofun
  | built | apsBuilt | shown | left | finished | gaveBack => exact fun _ => rfl

theorem noCodeUnder (under : touchUi.Under Timely s) : NoCode s := by
  refine underInvariantWith Flag NoCode (fun s => flagUnder) ?_ ?_ under
  · rintro s ⟨created,rfl⟩
    nofun
  · intro s l t flag noCode timely taken
    cases stepped taken with
    | tapped _ _ _ pressed =>
      have kept := tapNoCode flag noCode timely pressed
      exact kept
    | worked _ worked => exact workedNoCode noCode timely worked
    | control =>
      obtain ⟨jobs,sent,_⟩ := controlCases s
      rw [sent]
      exact noCode
    | stayed | showed | listed | cancelled | expired | waited | wifi | dataset => exact noCode

theorem workedAlone (noCode : s.worker.holdsCode = false) (worked : Worked s w t) : t.code = s.code ∧ t.panel = s.panel := by
  cases worked with
  | copied before =>
    rw [before] at noCode
    cases noCode
  | @shown got before =>
    rw [before] at noCode
    cases got with
    | true => cases noCode
    | false => exact ⟨rfl,rfl⟩
  | received | table | built | apTable | apsBuilt | qr | left | finished | gaveBack => exact ⟨rfl,rfl⟩

theorem steppedCancelled (flag : Flag s) (stopping : Stopping s) (cancelled : s.past.cancelled = true)
    (step : Stepped s l t) (under : pending .qr t = true) : t.past.cancelled = true := by
  cases step with
  | tapped _ _ _ pressed =>
    dsimp only
    rw [notedCancelled, (tapKeeps flag stopping pressed).past]
    exact cancelled
  | worked _ worked =>
    cases worked with
    | @gaveBack job before =>
      dsimp only
      split
      · rename_i same
        have held : s.worker.held = some .qr := by rw [before, same]; rfl
        have alone : .qr ∉ s.jobs.items := heldAlone flag held rfl rfl
        exact ((of_decide_eq_true under).elim alone nofun).elim
      · exact cancelled
    | received | table | built | apTable | apsBuilt | qr | copied | shown | left | finished => exact cancelled
  | cancelled => exact under
  | control =>
    obtain ⟨jobs,sent,_⟩ := controlCases s
    rw [sent]
    exact cancelled
  | stayed | showed | listed | expired | waited | wifi | dataset => exact cancelled

/- Every run in which a code and the cancel do not meet: from the return of `on_qr_cancel` to the
end of the job no step of the worker changes the passcode or the panel. -/
theorem cancelledLeavesAlone (s : Touch) (under : touchUi.Under Timely s) (cancelled : s.past.cancelled = true) :
    (∀ w t, touchUi.step s (.work w) = some t → t.code = s.code ∧ t.panel = s.panel) ∧
    ∀ l t, touchUi.step s l = some t → pending .qr t = true → t.past.cancelled = true := by
  have stopping := stoppingUnder under
  have noCode := noCodeUnder under (stopping.stopped cancelled).1
  constructor
  · intro w t taken
    cases stepped (l := .work w) taken with
    | worked _ worked => exact workedAlone noCode worked
  · intro l t taken
    exact steppedCancelled (flagUnder under) stopping cancelled (stepped taken)

/- QR is opened for the one border agent; the camera is cancelled between two frames, or while it
decodes one. -/
def nineDigits : List UInt8 := [0x31,0x32,0x33,0x34,0x35,0x36,0x37,0x38,0x39]

def toCamera : List Label :=
  pickAgent ++ [.tap .qrOpen true,.handler,.work .receive,.work (.start true),.work .check]

def atKeypad (worker : Worker) : Touch :=
  {boot true with
    panel := .keypad
    haveWifi := true
    uiJobBusy := true
    worker := worker
    found := agentFound
    target := agent
    qrAbort := true
    past := ⟨some agent,none,some (.qrCancel,0),true⟩}

theorem cancelledLeavesAloneBetween : (∀ w t, touchUi.step (atKeypad (.qrFrame 1)) (.work w) = some t →
    t.code = [] ∧ t.panel = .keypad) ∧ (atKeypad (.qrFrame 1)).past.cancelled = true := by
  have ran : touchUi.run (boot true) (toCamera ++ [.work (.poll none),.tap .qrCancel true,.handler]) =
    some (atKeypad (.qrFrame 1)) := rfl
  have start : touchUi.Under Timely (boot true) := .start ⟨true,rfl⟩
  have under := underRun start (show touchUi.Meets Timely (boot true) _ by decide) ran
  exact ⟨(cancelledLeavesAlone _ under rfl).1,rfl⟩

/- A code that is decoded as the cancel comes is copied behind it. -/
theorem copiedAfterCancel : ¬ ∀ s, touchUi.Reachable s → s.past.cancelled = true → ∀ w t, s.worker.job = some .qr →
    touchUi.step s (.work w) = some t → t.code = s.code ∧ t.panel = s.panel := by
  intro claimed
  have ran : touchUi.run (boot true) (toCamera ++ [.tap .qrCancel true,.handler,.work (.poll (some nineDigits))]) =
    some (atKeypad (.qrCopy nineDigits)) := rfl
  obtain ⟨same,_⟩ := claimed _ (reachableRun (.start ⟨true,rfl⟩) ran) rfl .copy _ rfl rfl
  cases same

end EpskcCommissioner.TouchUi
