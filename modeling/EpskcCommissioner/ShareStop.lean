import EpskcCommissioner.ShareScreen

/-! Closing the share screen takes its key back. A stop that is promised, queued or in
the worker's hands covers the last Close until no share can hold a key any more; a
generation that is published and then taken back may break that cover. -/
namespace EpskcCommissioner.ShareStop
open WorkerJobs ShareScreen

variable {Fn Arg : Type}

/- The shares and stops that are queued or in the worker's hands, in order. -/
inductive Mark where
  | share (n : Nat)
  | stop (closed : Nat)
  deriving DecidableEq, Repr

def Mark.number : Mark → Nat
  | .share n | .stop n => n

def mark (job : Queued Fn Arg) : Option Mark :=
  match job.msg with
  | .share _ _ => some (.share job.request)
  | .shareStop _ => some (.stop job.request)
  | _ => none

def workerMarks : Worker Fn Arg → List Mark
  | .replace n _ | .start n _ | .compare n _ _ | .cancel n => [.share n]
  | .stopCompare closed _ | .stopKey closed => [.stop closed]
  | .idle | .finish | .other _ => []

def marks (s : Screen Fn Arg) : List Mark := workerMarks s.worker ++ s.jobs.items.filterMap mark

/- A stop stands behind the shares accepted before its Close and ahead of the others. -/
def Follows : Mark → Mark → Prop
  | .share n, .stop closed => n ≤ closed
  | .stop closed, .share n => closed < n
  | _, _ => True

/- The generation that stands once `begin_share` is through or has taken its own back. -/
def effective (s : Screen Fn Arg) : UInt32 := (window s.ui).getD s.shareRequestId

/- Somebody on the UI thread is still going to queue the stop of the last Close. -/
def promised (s : Screen Fn Arg) : Bool :=
  match s.ui with
  | .sendStop | .setPending => true
  | .testBusy o | .setBusy o | .send o | .unbusy o | .restoreId o | .restorePending o =>
    o.previousStopPending
  | .retryClear => false
  | _ => s.shareStopPending

/- What the locals of `begin_share` say of the globals it saved. -/
def Saved (s : Screen Fn Arg) : Prop :=
  match s.ui with
  | .publishId o =>
    o.previousId = s.shareRequestId ∧ o.previousStopPending = s.shareStopPending
  | .clearPending o =>
    o.previousId + 1 = s.shareRequestId ∧ o.previousStopPending = s.shareStopPending
  | .testBusy o | .setBusy o | .send o | .unbusy o | .restoreId o =>
    o.previousId + 1 = s.shareRequestId ∧ s.shareStopPending = false
  | .restorePending _ => s.shareStopPending = false
  | .otherBusy msg | .otherSend msg => isShare msg = false ∧ isStop msg = false
  | _ => True

/- The queue keeps shares and stops in the order of the taps that made them. -/
structure Ordered (s : Screen Fn Arg) : Prop where
  line : (marks s).Pairwise Follows
  bound : ∀ x ∈ marks s, x.number ≤ s.opened
  key : ∀ n, s.key = .share n → n ≤ s.opened ∧ ∀ closed, .stop closed ∈ marks s → n ≤ closed
  closed : s.closedAt ≤ s.opened
  recent : promised s = true ∨ s.last = .closed → s.closedAt = s.opened

/- What stands between the last Close and a key that outlives it. -/
inductive Covered (s : Screen Fn Arg) : Prop where
  | promise (promise : promised s = true)
  | queued (job : Queued Fn Arg) (mem : job ∈ s.jobs.items) (msg : job.msg = .shareStop (effective s))
      (request : job.request = s.opened)
  | comparing (worker : s.worker = .stopCompare s.opened (effective s))
  | stopping (worker : s.worker = .stopKey s.opened)
  | clean (key : s.key.isShare = false) (shares : ∀ n, .share n ∉ marks s)
  | passed (inside : (window s.ui).isSome = true) (passed : s.passed = true)

def settled : UiPc Fn Arg → Bool
  | .idle | .retryClear | .otherBusy _ | .otherSend _ | .otherUnbusy => true
  | _ => false

/- Nothing is queued, running, pending or half way, and Close was the last action. -/
structure Closed (s : Screen Fn Arg) : Prop where
  jobs : s.jobs.items = []
  worker : s.worker = .idle
  pending : s.shareStopPending = false
  ui : settled s.ui = true
  last : s.last = .closed

/- A settled Close leaves no key of a share, and a stop that the worker carries out
finds at most the key of a share accepted before its Close. -/
structure Revoked (s : Screen Fn Arg) : Prop where
  gone : Closed s → s.key.isShare = false
  older : ∀ closed n, s.worker = .stopKey closed → s.key = .share n → n ≤ closed

/- The enqueue of `begin_share` fails and it takes its generation back, after the
worker has passed over a stop of the one it restores with a share's key active. -/
def regrets (s : Screen Fn Arg) : Label Fn Arg → Bool
  | .ui =>
    match s.ui with
    | .restoreId _ => s.passed
    | _ => false
  | _ => false

def Heeded (s : Screen Fn Arg) (l : Label Fn Arg) : Prop := regrets s l = false
instance (s : Screen Fn Arg) (l) : Decidable (Heeded s l) := inferInstanceAs (Decidable (_ = _))

structure Aside (s t : Screen Fn Arg) : Prop where
  jobs : t.jobs = s.jobs
  worker : t.worker = s.worker
  key : t.key = s.key
  opened : t.opened = s.opened
  closedAt : t.closedAt = s.closedAt

theorem asideMarks {s t : Screen Fn Arg} (aside : Aside s t) : marks t = marks s := by
  rw [marks,marks,aside.worker,aside.jobs]

theorem orderedAside {s t : Screen Fn Arg} (h : Ordered s) (aside : Aside s t)
    (recent : promised t = true ∨ t.last = .closed → promised s = true ∨ s.last = .closed) :
    Ordered t := by
  have same := asideMarks aside
  refine ⟨same ▸ h.line,?_,?_,?_,fun undone => ?_⟩
  · rw [same,aside.opened]
    exact h.bound
  · rw [same,aside.opened,aside.key]
    exact h.key
  · rw [aside.opened,aside.closedAt]
    exact h.closed
  · rw [aside.opened,aside.closedAt]
    exact h.recent (recent undone)

theorem coveredAside {s t : Screen Fn Arg} (h : Covered s) (aside : Aside s t)
    (promise : promised s = true → promised t = true) (standing : effective t = effective s)
    (passed : (window s.ui).isSome = true → s.passed = true →
      (window t.ui).isSome = true ∧ t.passed = true) : Covered t := by
  cases h with
  | promise given => exact .promise (promise given)
  | queued job mem msg request =>
    exact .queued job (aside.jobs ▸ mem) (standing ▸ msg) (request.trans aside.opened.symm)
  | comparing worker =>
    rw [← aside.worker,← aside.opened,← standing] at worker
    exact .comparing worker
  | stopping worker =>
    rw [← aside.worker,← aside.opened] at worker
    exact .stopping worker
  | clean key shares => exact .clean (aside.key ▸ key) (asideMarks aside ▸ shares)
  | passed inside gone =>
    obtain ⟨inside,gone⟩ := passed inside gone
    exact .passed inside gone

structure Kept (s : Screen Fn Arg) : Prop where
  saved : Saved s
  ordered : Ordered s
  covered : s.last = .closed → Covered s

theorem keptAside {s t : Screen Fn Arg} (h : Kept s) (aside : Aside s t) (saved : Saved t)
    (promise : promised t = promised s) (last : t.last = s.last)
    (standing : effective t = effective s)
    (passed : (window s.ui).isSome = true → s.passed = true →
      (window t.ui).isSome = true ∧ t.passed = true) : Kept t := by
  refine ⟨saved,orderedAside h.ordered aside ?_,fun closed => ?_⟩
  · rw [promise,last]
    exact id
  · exact coveredAside (h.covered (last ▸ closed)) aside (fun given => promise.trans given) standing passed

theorem sendMarks {s t : Screen Fn Arg} {job} (sent : s.jobs.send job = some t.jobs)
    (worker : t.worker = s.worker) : marks t = marks s ++ (mark job).toList := by
  rw [marks,marks,worker,BoundedQueue.sendItems sent,List.filterMap_append,List.append_assoc]
  cases found : mark job <;> simp [found]

theorem orderedPlain {s t : Screen Fn Arg} {job} (h : Ordered s) (sent : s.jobs.send job = some t.jobs)
    (plain : mark job = none) (worker : t.worker = s.worker) (key : t.key = s.key)
    (opened : t.opened = s.opened) (closedAt : t.closedAt = s.closedAt)
    (recent : promised t = true ∨ t.last = .closed → promised s = true ∨ s.last = .closed) :
    Ordered t := by
  have same : marks t = marks s := by
    rw [sendMarks sent worker,plain]
    exact List.append_nil _
  refine ⟨same ▸ h.line,?_,?_,?_,fun undone => ?_⟩
  · rw [same,opened]
    exact h.bound
  · rw [same,opened,key]
    exact h.key
  · rw [opened,closedAt]
    exact h.closed
  · rw [opened,closedAt]
    exact h.recent (recent undone)

theorem coveredSent {s t : Screen Fn Arg} {job} (h : Covered s) (sent : s.jobs.send job = some t.jobs)
    (shareless : ∀ n, mark job ≠ some (.share n)) (worker : t.worker = s.worker)
    (key : t.key = s.key) (opened : t.opened = s.opened)
    (promise : promised s = true → promised t = true) (standing : effective t = effective s)
    (passed : (window s.ui).isSome = true → s.passed = true →
      (window t.ui).isSome = true ∧ t.passed = true) : Covered t := by
  cases h with
  | promise given => exact .promise (promise given)
  | queued old mem msg request =>
    refine .queued old ?_ (standing ▸ msg) (request.trans opened.symm)
    rw [BoundedQueue.sendItems sent]
    exact List.mem_append_left _ mem
  | comparing found =>
    rw [← worker,← opened,← standing] at found
    exact .comparing found
  | stopping found =>
    rw [← worker,← opened] at found
    exact .stopping found
  | clean none shares =>
    refine .clean (key ▸ none) (fun n mem => ?_)
    rw [sendMarks sent worker] at mem
    rcases List.mem_append.mp mem with old | new
    · exact shares n old
    · exact shareless n (Option.mem_toList.mp new)
  | passed inside gone =>
    obtain ⟨inside,gone⟩ := passed inside gone
    exact .passed inside gone

theorem followsBehind {l : List Mark} {x} (line : l.Pairwise Follows) (behind : ∀ y ∈ l, Follows y x) :
    (l ++ [x]).Pairwise Follows := by
  refine List.pairwise_append.mpr ⟨line,List.pairwise_singleton _ _,fun y mem z last => ?_⟩
  rw [List.mem_singleton.mp last]
  exact behind y mem

theorem keptStop {s t : Screen Fn Arg} (h : Kept s) (sent : s.jobs.send (stopMsg s) = some t.jobs)
    (promise : promised s = true) (worker : t.worker = s.worker) (key : t.key = s.key)
    (opened : t.opened = s.opened) (closedAt : t.closedAt = s.closedAt) (saved : Saved t)
    (standing : effective t = s.shareRequestId) : Kept t := by
  have recent : s.closedAt = s.opened := h.ordered.recent (.inl promise)
  have line : marks t = marks s ++ [.stop s.closedAt] := sendMarks sent worker
  refine ⟨saved,⟨?_,?_,?_,?_,fun _ => ?_⟩,fun _ => ?_⟩
  · rw [line]
    refine followsBehind h.ordered.line (fun y mem => ?_)
    have bound := h.ordered.bound y mem
    cases y with
    | share n => exact recent ▸ bound
    | stop closed => trivial
  · rw [line,opened]
    intro x mem
    rcases List.mem_append.mp mem with old | new
    · exact h.ordered.bound x old
    · rw [List.mem_singleton.mp new]
      exact Nat.le_of_eq recent
  · rw [line,opened,key]
    intro n found
    obtain ⟨bound,ahead⟩ := h.ordered.key n found
    refine ⟨bound,fun closed mem => ?_⟩
    rcases List.mem_append.mp mem with old | new
    · exact ahead closed old
    · cases List.mem_singleton.mp new
      exact recent ▸ bound
  · rw [opened,closedAt]
    exact h.ordered.closed
  · rw [opened,closedAt]
    exact recent
  · refine .queued (stopMsg s) ?_ (by rw [standing]; rfl) (recent.trans opened.symm)
    rw [BoundedQueue.sendItems sent]
    exact List.mem_append_right _ (List.mem_singleton.mpr rfl)

theorem keptShare {s : Screen Fn Arg} {o jobs} (h : Kept s) (here : s.ui = .send o)
    (sent : s.jobs.send ⟨.share o.lifetimeMs (o.previousId + 1),s.opened + 1⟩ = some jobs) :
    Kept {s with jobs := jobs, ui := .idle, opened := s.opened + 1, last := .opened} := by
  have saved := h.saved
  simp only [Saved,here] at saved
  have line := sendMarks (t := {s with jobs := jobs, ui := .idle, opened := s.opened + 1, last := .opened})
    sent rfl
  have line : _ = marks s ++ [.share (s.opened + 1)] := line
  refine ⟨trivial,⟨?_,?_,?_,?_,?_⟩,nofun⟩
  · rw [line]
    refine followsBehind h.ordered.line (fun y mem => ?_)
    have bound := h.ordered.bound y mem
    cases y with
    | share n => trivial
    | stop closed => exact Nat.lt_succ_of_le bound
  · rw [line]
    intro x mem
    rcases List.mem_append.mp mem with old | new
    · exact Nat.le_succ_of_le (h.ordered.bound x old)
    · rw [List.mem_singleton.mp new]
      exact Nat.le_refl _
  · rw [line]
    intro n found
    obtain ⟨bound,ahead⟩ := h.ordered.key n found
    refine ⟨Nat.le_succ_of_le bound,fun closed mem => ?_⟩
    rcases List.mem_append.mp mem with old | new
    · exact ahead closed old
    · cases List.mem_singleton.mp new
  · exact Nat.le_succ_of_le h.ordered.closed
  · rintro (promise | closed)
    · simp [promised,saved.2] at promise
    · exact nomatch closed

theorem keptPlain {s t : Screen Fn Arg} {job} (h : Kept s) (sent : s.jobs.send job = some t.jobs)
    (plain : mark job = none) (worker : t.worker = s.worker) (key : t.key = s.key)
    (opened : t.opened = s.opened) (closedAt : t.closedAt = s.closedAt) (last : t.last = s.last)
    (saved : Saved t) (promise : promised t = promised s) (standing : effective t = effective s)
    (passed : (window s.ui).isSome = true → s.passed = true →
      (window t.ui).isSome = true ∧ t.passed = true) : Kept t := by
  refine ⟨saved,orderedPlain h.ordered sent plain worker key opened closedAt ?_,fun closed => ?_⟩
  · rw [promise,last]
    exact id
  · exact coveredSent (h.covered (last ▸ closed)) sent (by rw [plain]; exact nofun) worker key opened
      (fun given => promise.trans given) standing passed

theorem keptBump {s : Screen Fn Arg} (h : Kept s) :
    Kept {s with shareRequestId := s.shareRequestId + 1, closedAt := s.opened, ui := .sendStop} :=
  ⟨trivial,⟨h.ordered.line,h.ordered.bound,h.ordered.key,Nat.le_refl _,fun _ => rfl⟩,
    fun _ => .promise rfl⟩

theorem plainMark {msg : UiJobMsg Fn Arg} {n} (shareless : isShare msg = false)
    (stopless : isStop msg = false) : mark ⟨msg,n⟩ = none := by
  cases msg <;> first | rfl | contradiction

theorem keptOpening {s t : Screen Fn Arg} {o} (h : Kept s) (heeded : Heeded s .ui)
    (opening : s.ui = .publishId o ∨ s.ui = .clearPending o ∨ s.ui = .testBusy o ∨ s.ui = .setBusy o ∨
      s.ui = .send o ∨ s.ui = .unbusy o ∨ s.ui = .restoreId o ∨ s.ui = .restorePending o)
    (stepped : uiStep s = some t) : Kept t := by
  have saved := h.saved
  rcases opening with here | here | here | here | here | here | here | here
  all_goals simp only [Saved,here] at saved
  all_goals simp only [uiStep,here] at stepped
  · cases Option.some.inj stepped
    refine keptAside h ⟨rfl,rfl,rfl,rfl,rfl⟩ ⟨rfl,saved.2⟩ ?_ rfl ?_ ?_
    · simp [promised,here]
    · simp [effective,window,here,saved.1]
    · simp [window,here]
  · cases Option.some.inj stepped
    refine keptAside h ⟨rfl,rfl,rfl,rfl,rfl⟩ ⟨saved.1,rfl⟩ ?_ rfl ?_ ?_
    · simp [promised,here,saved.2]
    · simp [effective,window,here]
    · simp [window,here]
  · cases Option.some.inj stepped
    refine keptAside h ⟨rfl,rfl,rfl,rfl,rfl⟩ ?_ ?_ rfl ?_ ?_
    all_goals cases s.uiJobBusy <;> simp [Saved,promised,effective,window,here,saved]
  · cases Option.some.inj stepped
    refine keptAside h ⟨rfl,rfl,rfl,rfl,rfl⟩ saved ?_ rfl ?_ ?_
    all_goals simp [promised,effective,window,here]
  · split at stepped
    · rename_i jobs sent
      cases Option.some.inj stepped
      exact keptShare h here sent
    · cases Option.some.inj stepped
      refine keptAside h ⟨rfl,rfl,rfl,rfl,rfl⟩ saved ?_ rfl ?_ ?_
      all_goals simp [promised,effective,window,here]
  · cases Option.some.inj stepped
    refine keptAside h ⟨rfl,rfl,rfl,rfl,rfl⟩ saved ?_ rfl ?_ ?_
    all_goals simp [promised,effective,window,here]
  · cases Option.some.inj stepped
    have heard : s.passed = false := by simpa [Heeded,regrets,here] using heeded
    refine keptAside h ⟨rfl,rfl,rfl,rfl,rfl⟩ saved.2 ?_ rfl ?_ ?_
    · simp [promised,here]
    · simp [effective,window,here]
    · simp [heard]
  · cases Option.some.inj stepped
    refine keptAside h ⟨rfl,rfl,rfl,rfl,rfl⟩ trivial ?_ rfl ?_ ?_
    all_goals simp [promised,effective,window,here]

theorem keptClosing {s t : Screen Fn Arg} (h : Kept s)
    (closing : s.ui = .bump ∨ s.ui = .sendStop ∨ s.ui = .setPending)
    (stepped : uiStep s = some t) : Kept t := by
  rcases closing with here | here | here
  all_goals simp only [uiStep,here] at stepped
  · cases Option.some.inj stepped
    exact keptBump h
  · have promise : promised s = true := by simp [promised,here]
    split at stepped
    · rename_i jobs sent
      cases Option.some.inj stepped
      exact keptStop h sent promise rfl rfl rfl rfl trivial rfl
    · cases Option.some.inj stepped
      refine keptAside h ⟨rfl,rfl,rfl,rfl,rfl⟩ trivial ?_ rfl ?_ ?_
      all_goals simp [promised,effective,window,here]
  · have promise : promised s = true := by simp [promised,here]
    cases Option.some.inj stepped
    exact ⟨trivial,orderedAside h.ordered ⟨rfl,rfl,rfl,rfl,rfl⟩ (fun _ => .inl promise),
      fun _ => .promise rfl⟩

theorem keptOther {s t : Screen Fn Arg} (msg) (h : Kept s)
    (other : s.ui = .retryClear ∨ s.ui = .otherBusy msg ∨ s.ui = .otherSend msg ∨ s.ui = .otherUnbusy)
    (stepped : uiStep s = some t) : Kept t := by
  have saved := h.saved
  rcases other with here | here | here | here
  all_goals simp only [Saved,here] at saved
  all_goals simp only [uiStep,here] at stepped
  · cases Option.some.inj stepped
    refine keptAside h ⟨rfl,rfl,rfl,rfl,rfl⟩ trivial ?_ rfl ?_ ?_
    all_goals simp [promised,effective,window,here]
  · cases Option.some.inj stepped
    refine keptAside h ⟨rfl,rfl,rfl,rfl,rfl⟩ saved ?_ rfl ?_ ?_
    all_goals simp [promised,effective,window,here]
  · split at stepped
    · rename_i jobs sent
      cases Option.some.inj stepped
      refine keptPlain h sent (plainMark saved.1 saved.2) rfl rfl rfl rfl rfl trivial ?_ ?_ ?_
      all_goals simp [promised,effective,window,here]
    · cases Option.some.inj stepped
      refine keptAside h ⟨rfl,rfl,rfl,rfl,rfl⟩ trivial ?_ rfl ?_ ?_
      all_goals simp [promised,effective,window,here]
  · cases Option.some.inj stepped
    refine keptAside h ⟨rfl,rfl,rfl,rfl,rfl⟩ trivial ?_ rfl ?_ ?_
    all_goals simp [promised,effective,window,here]

theorem keptUi {s t : Screen Fn Arg} (h : Kept s) (heeded : Heeded s .ui)
    (stepped : uiStep s = some t) : Kept t := by
  cases here : s.ui with
  | idle => simp [uiStep,here] at stepped
  | publishId o | clearPending o | testBusy o | setBusy o | send o | unbusy o | restoreId o
  | restorePending o => exact keptOpening (o := o) h heeded (by simp [here]) stepped
  | bump | sendStop | setPending => exact keptClosing h (by simp [here]) stepped
  | retryClear => exact keptOther .scan h (.inl here) stepped
  | otherBusy msg => exact keptOther msg h (.inr (.inl here)) stepped
  | otherSend msg => exact keptOther msg h (.inr (.inr (.inl here))) stepped
  | otherUnbusy => exact keptOther .scan h (.inr (.inr (.inr here))) stepped

theorem keptTapOpen {s t : Screen Fn Arg} {attached minutes} (h : Kept s)
    (stepped : step s (.tapOpen attached minutes) = some t) : Kept t := by
  simp only [step] at stepped
  split at stepped <;> try contradiction
  rename_i here
  split at stepped
  · cases Option.some.inj stepped
    refine keptAside h ⟨rfl,rfl,rfl,rfl,rfl⟩ ⟨rfl,rfl⟩ ?_ rfl ?_ ?_
    all_goals simp [promised,effective,window,here]
  · cases Option.some.inj stepped
    exact h

theorem keptTapClose {s t : Screen Fn Arg} (h : Kept s) (stepped : step s .tapClose = some t) :
    Kept t := by
  simp only [step] at stepped
  split at stepped <;> try contradiction
  rename_i here
  cases Option.some.inj stepped
  refine keptAside h ⟨rfl,rfl,rfl,rfl,rfl⟩ trivial ?_ rfl ?_ ?_
  all_goals simp [promised,effective,window,here]

theorem keptRoleTimer {s t : Screen Fn Arg} (h : Kept s) (stepped : step s .roleTimer = some t) :
    Kept t := by
  simp only [step] at stepped
  split at stepped <;> try contradiction
  rename_i here
  split at stepped
  · rename_i pending
    have promise : promised s = true := by simpa [promised,here] using pending
    split at stepped
    · rename_i jobs sent
      cases Option.some.inj stepped
      exact keptStop h sent promise rfl rfl rfl rfl trivial rfl
    · cases Option.some.inj stepped
      exact h
  · cases Option.some.inj stepped
    exact h

theorem keptTapOther {s t : Screen Fn Arg} {msg} (h : Kept s)
    (stepped : step s (.tapOther msg) = some t) : Kept t := by
  simp only [step] at stepped
  split at stepped <;> try contradiction
  rename_i here
  split at stepped <;> try contradiction
  rename_i allowed
  have plain : isShare msg = false ∧ isStop msg = false := by
    cases msg <;> simp_all [isUiJob,isShare,isStop]
  cases Option.some.inj stepped
  refine keptAside h ⟨rfl,rfl,rfl,rfl,rfl⟩ plain ?_ rfl ?_ ?_
  all_goals simp [promised,effective,window,here]

theorem keptEnqueue {s t : Screen Fn Arg} {msg} (h : Kept s)
    (stepped : step s (.enqueue msg) = some t) : Kept t := by
  simp only [step] at stepped
  split at stepped <;> try contradiction
  rename_i allowed
  have plain : isShare msg = false ∧ isStop msg = false := by
    cases msg <;> simp_all [isUiJob,isShare,isStop]
  obtain ⟨jobs,sent,rfl⟩ := Option.map_eq_some_iff.mp stepped
  exact keptPlain h sent (plainMark plain.1 plain.2) rfl rfl rfl rfl rfl h.saved rfl rfl
    (fun inside gone => ⟨inside,gone⟩)

theorem keptOutside {s : Screen Fn Arg} {key : Key} (h : Kept s) (free : key.isShare = false) :
    Kept {s with key := key} := by
  have none : ∀ n, key ≠ .share n := fun n found => by simp [found,Key.isShare] at free
  refine ⟨h.saved,⟨h.ordered.line,h.ordered.bound,fun n found => absurd found (none n),
    h.ordered.closed,h.ordered.recent⟩,fun closed => ?_⟩
  cases h.covered closed with
  | promise given => exact .promise given
  | queued job mem msg request => exact .queued job mem msg request
  | comparing worker => exact .comparing worker
  | stopping worker => exact .stopping worker
  | clean key shares => exact .clean free shares
  | passed inside gone => exact .passed inside gone

structure Behind (s t : Screen Fn Arg) : Prop where
  ui : t.ui = s.ui
  id : t.shareRequestId = s.shareRequestId
  pending : t.shareStopPending = s.shareStopPending
  opened : t.opened = s.opened
  closedAt : t.closedAt = s.closedAt
  last : t.last = s.last

theorem promisedBehind {s t : Screen Fn Arg} (behind : Behind s t) : promised t = promised s := by
  rw [promised,promised,behind.ui,behind.pending]

theorem effectiveBehind {s t : Screen Fn Arg} (behind : Behind s t) : effective t = effective s := by
  rw [effective,effective,behind.ui,behind.id]

theorem keptBehind {s t : Screen Fn Arg} (h : Kept s) (behind : Behind s t)
    (line : (marks t).Sublist (marks s))
    (key : ∀ n, t.key = .share n → n ≤ s.opened ∧ ∀ closed, .stop closed ∈ marks t → n ≤ closed)
    (covered : Covered s → Covered t) : Kept t := by
  refine ⟨?_,⟨h.ordered.line.sublist line,?_,?_,?_,?_⟩,fun closed => ?_⟩
  · have saved := h.saved
    simpa only [Saved,behind.ui,behind.id,behind.pending] using saved
  · rw [behind.opened]
    exact fun x mem => h.ordered.bound x (line.subset mem)
  · rw [behind.opened]
    exact key
  · rw [behind.opened,behind.closedAt]
    exact h.ordered.closed
  · rw [behind.opened,behind.closedAt,promisedBehind behind,behind.last]
    exact h.ordered.recent
  · exact covered (h.covered (behind.last ▸ closed))

theorem keySame {s t : Screen Fn Arg} (h : Kept s) (line : (marks t).Sublist (marks s))
    (key : t.key = s.key) (n : Nat) (found : t.key = .share n) :
    n ≤ s.opened ∧ ∀ closed, .stop closed ∈ marks t → n ≤ closed := by
  obtain ⟨bound,ahead⟩ := h.ordered.key n (key ▸ found)
  exact ⟨bound,fun closed mem => ahead closed (line.subset mem)⟩

theorem receiveMarks {s : Screen Fn Arg} {job jobs} (idle : s.worker = .idle)
    (received : s.jobs.receive = some (job,jobs)) :
    marks s = (mark job).toList ++ jobs.items.filterMap mark := by
  rw [marks,idle,BoundedQueue.receiveItems received]
  cases found : mark job <;> simp [workerMarks,found]

theorem keptReceive {s : Screen Fn Arg} {job jobs worker} (h : Kept s) (idle : s.worker = .idle)
    (received : s.jobs.receive = some (job,jobs)) (same : workerMarks worker = (mark job).toList)
    (taken : ∀ id, job.msg = .shareStop id → worker = .stopCompare job.request id) :
    Kept {s with jobs := jobs, worker := worker} := by
  have line : marks {s with jobs := jobs, worker := worker} = marks s := by
    rw [receiveMarks idle received,marks,same]
  have sub : (marks {s with jobs := jobs, worker := worker}).Sublist (marks s) :=
    line ▸ List.Sublist.refl _
  refine keptBehind h ⟨rfl,rfl,rfl,rfl,rfl,rfl⟩ sub (keySame h sub rfl) (fun covered => ?_)
  cases covered with
  | promise given => exact .promise given
  | queued one mem msg request =>
    rw [BoundedQueue.receiveItems received] at mem
    rcases List.mem_cons.mp mem with rfl | rest
    · refine .comparing ?_
      rw [← request]
      exact taken _ msg
    · exact .queued one rest msg request
  | comparing worker => exact nomatch idle.symm.trans worker
  | stopping worker => exact nomatch idle.symm.trans worker
  | clean key shares => exact .clean key (line ▸ shares)
  | passed inside gone => exact .passed inside gone

/- While a share is in the worker's hands, only what waits behind it covers a Close. -/
theorem coveredSharing {s t : Screen Fn Arg} {n} (covered : Covered s) (behind : Behind s t)
    (jobs : t.jobs = s.jobs) (passed : t.passed = s.passed) (sharing : workerMarks s.worker = [.share n]) :
    Covered t := by
  cases covered with
  | promise given => exact .promise ((promisedBehind behind).trans given)
  | queued job mem msg request =>
    exact .queued job (jobs ▸ mem) (effectiveBehind behind ▸ msg) (request.trans behind.opened.symm)
  | comparing worker => simp [worker,workerMarks] at sharing
  | stopping worker => simp [worker,workerMarks] at sharing
  | clean key shares => exact absurd (by simp [marks,sharing]) (shares n)
  | passed inside gone => exact .passed (behind.ui ▸ inside) (passed.trans gone)

theorem keptReplace {s : Screen Fn Arg} {n id} (h : Kept s) (here : s.worker = .replace n id) :
    Kept {s with key := .none, worker := .start n id} := by
  have line : marks {s with key := .none, worker := .start n id} = marks s := by
    simp [marks,here,workerMarks]
  exact keptBehind h ⟨rfl,rfl,rfl,rfl,rfl,rfl⟩ (line ▸ List.Sublist.refl _) nofun
    (fun covered => coveredSharing covered ⟨rfl,rfl,rfl,rfl,rfl,rfl⟩ rfl rfl (by rw [here]; rfl))

/- A share that starts is ahead of every stop in the line, so none of them is older. -/
theorem keptStart {s : Screen Fn Arg} {n id ok} (h : Kept s) (here : s.worker = .start n id) :
    Kept {s with key := if ok then .share n else s.key, worker := .compare n id ok} := by
  have line : marks {s with key := if ok then .share n else s.key, worker := .compare n id ok} =
      marks s := by simp [marks,here,workerMarks]
  have sub : (marks {s with key := if ok then .share n else s.key, worker := .compare n id ok}).Sublist
      (marks s) := line ▸ List.Sublist.refl _
  refine keptBehind h ⟨rfl,rfl,rfl,rfl,rfl,rfl⟩ sub ?_
    (fun covered => coveredSharing covered ⟨rfl,rfl,rfl,rfl,rfl,rfl⟩ rfl rfl (by rw [here]; rfl))
  cases ok with
  | false => exact keySame h sub rfl
  | true =>
    intro m found
    cases Key.share.inj found
    have split : marks s = .share n :: s.jobs.items.filterMap mark := by
      simp [marks,here,workerMarks]
    refine ⟨h.ordered.bound (.share n) (by simp [split]),fun closed mem => ?_⟩
    have ordered := h.ordered.line
    rw [split] at ordered
    rw [line,split] at mem
    rcases List.mem_cons.mp mem with same | rest
    · exact nomatch same
    · exact (List.pairwise_cons.mp ordered).1 _ rest

theorem keptCompare {s : Screen Fn Arg} {n id ok} (h : Kept s) (here : s.worker = .compare n id ok) :
    Kept {s with worker := if id ≠ s.shareRequestId ∧ ok then .cancel n else .finish} := by
  have sub : (marks {s with worker := if id ≠ s.shareRequestId ∧ ok then .cancel n else .finish}).Sublist
      (marks s) := by
    simp only [marks,here]
    split <;> simp [workerMarks]
  exact keptBehind h ⟨rfl,rfl,rfl,rfl,rfl,rfl⟩ sub (keySame h sub rfl)
    (fun covered => coveredSharing covered ⟨rfl,rfl,rfl,rfl,rfl,rfl⟩ rfl rfl (by rw [here]; rfl))

theorem keptCancel {s : Screen Fn Arg} {n} (h : Kept s) (here : s.worker = .cancel n) :
    Kept {s with key := .none, worker := .finish} := by
  have sub : (marks {s with key := .none, worker := .finish}).Sublist (marks s) := by
    simp [marks,here,workerMarks]
  exact keptBehind h ⟨rfl,rfl,rfl,rfl,rfl,rfl⟩ sub nofun
    (fun covered => coveredSharing covered ⟨rfl,rfl,rfl,rfl,rfl,rfl⟩ rfl rfl (by rw [here]; rfl))

theorem keptEnd {s : Screen Fn Arg} {busy} (h : Kept s) (free : workerMarks s.worker = []) :
    Kept {s with uiJobBusy := busy, worker := .idle} := by
  have line : marks {s with uiJobBusy := busy, worker := .idle} = marks s := by
    rw [marks,marks,free]
    rfl
  have sub : (marks {s with uiJobBusy := busy, worker := .idle}).Sublist (marks s) :=
    line ▸ List.Sublist.refl _
  refine keptBehind h ⟨rfl,rfl,rfl,rfl,rfl,rfl⟩ sub (keySame h sub rfl) (fun covered => ?_)
  cases covered with
  | promise given => exact .promise given
  | queued job mem msg request => exact .queued job mem msg request
  | comparing worker => simp [worker,workerMarks] at free
  | stopping worker => simp [worker,workerMarks] at free
  | clean key shares => exact .clean key (line ▸ shares)
  | passed inside gone => exact .passed inside gone

/- Behind a stop of the last Close there is no share: one accepted later would be the
last action, and one accepted before stands ahead of it. -/
theorem noShareBehind {s : Screen Fn Arg} (h : Ordered s) (here : workerMarks s.worker = [.stop s.opened])
    (n : Nat) : .share n ∉ s.jobs.items.filterMap mark := by
  intro mem
  have split : marks s = .stop s.opened :: s.jobs.items.filterMap mark := by rw [marks,here]; rfl
  have line := h.line
  rw [split] at line
  have newer : s.opened < n := (List.pairwise_cons.mp line).1 _ mem
  have older : n ≤ s.opened := h.bound (.share n) (by rw [split]; exact List.mem_cons_of_mem _ mem)
  omega

theorem keptStopKey {s : Screen Fn Arg} {closed} (h : Kept s) (here : s.worker = .stopKey closed) :
    Kept {s with key := .none, worker := .idle} := by
  have sub : (marks {s with key := .none, worker := .idle}).Sublist (marks s) := by
    simp [marks,here,workerMarks]
  refine keptBehind h ⟨rfl,rfl,rfl,rfl,rfl,rfl⟩ sub nofun (fun covered => ?_)
  cases covered with
  | promise given => exact .promise given
  | queued job mem msg request => exact .queued job mem msg request
  | comparing worker => exact nomatch here.symm.trans worker
  | stopping worker =>
    have shares := noShareBehind h.ordered (by rw [worker]; rfl)
    exact .clean rfl shares
  | clean key shares => exact .clean rfl (fun n mem => shares n (sub.subset mem))
  | passed inside gone => exact .passed inside gone

theorem keptStopMatch {s : Screen Fn Arg} {closed} (h : Kept s)
    (here : s.worker = .stopCompare closed s.shareRequestId) :
    Kept {s with worker := .stopKey closed} := by
  have line : marks {s with worker := .stopKey closed} = marks s := by simp [marks,here,workerMarks]
  have sub : (marks {s with worker := .stopKey closed}).Sublist (marks s) := line ▸ List.Sublist.refl _
  refine keptBehind h ⟨rfl,rfl,rfl,rfl,rfl,rfl⟩ sub (keySame h sub rfl) (fun covered => ?_)
  cases covered with
  | promise given => exact .promise given
  | queued job mem msg request => exact .queued job mem msg request
  | comparing worker =>
    obtain ⟨same,_⟩ := Worker.stopCompare.inj (here.symm.trans worker)
    exact .stopping (by rw [same])
  | stopping worker => exact nomatch here.symm.trans worker
  | clean key shares => exact .clean key (line ▸ shares)
  | passed inside gone => exact .passed inside gone

/- The stop of the last Close is passed gone only while another generation is
published; with a share's key active that is what `passed` remembers. -/
theorem keptStopSkip {s : Screen Fn Arg} {closed id passed} (h : Kept s)
    (here : s.worker = .stopCompare closed id) (other : id ≠ s.shareRequestId)
    (noted : passed = (s.passed || (window s.ui == some id && s.key.isShare))) :
    Kept {s with worker := .idle, passed := passed} := by
  have sub : (marks {s with worker := .idle, passed := passed}).Sublist (marks s) := by
    simp [marks,here,workerMarks]
  refine keptBehind h ⟨rfl,rfl,rfl,rfl,rfl,rfl⟩ sub (keySame h sub rfl) (fun covered => ?_)
  cases covered with
  | promise given => exact .promise given
  | queued job mem msg request => exact .queued job mem msg request
  | stopping worker => exact nomatch here.symm.trans worker
  | clean key shares => exact .clean key (fun n mem => shares n (sub.subset mem))
  | passed inside gone => exact .passed inside (by simp [noted,gone])
  | comparing worker =>
    obtain ⟨_,standing⟩ := Worker.stopCompare.inj (here.symm.trans worker)
    have inside : window s.ui = some id := by
      cases found : window s.ui with
      | none => exact absurd (by simp [standing,effective,found]) other
      | some p => simp [standing,effective,found]
    cases active : s.key.isShare with
    | true => exact .passed (by simp [inside]) (by simp [noted,inside,active])
    | false =>
      have shares := noShareBehind h.ordered (by rw [worker]; rfl)
      exact .clean active shares

theorem keptWork {s t : Screen Fn Arg} {ok} (h : Kept s) (stepped : workStep ok s = some t) :
    Kept t := by
  cases here : s.worker with
  | idle =>
    simp only [workStep,here] at stepped
    split at stepped <;> try contradiction
    rename_i job jobs received
    split at stepped
    · rename_i lifetime id msg
      cases Option.some.inj stepped
      exact keptReceive h here received (by simp [mark,msg,workerMarks]) (by simp [msg])
    · rename_i id msg
      cases Option.some.inj stepped
      exact keptReceive h here received (by simp [mark,msg,workerMarks]) (by simp [msg])
    · rename_i shareless stopless
      cases Option.some.inj stepped
      have plain : mark job = none := by
        unfold mark
        split
        · rename_i lifetime id msg
          exact absurd msg (shareless lifetime id)
        · rename_i id msg
          exact absurd msg (stopless id)
        · rfl
      exact keptReceive h here received (by rw [plain]; rfl)
        (fun id msg => absurd msg (stopless id))
  | replace n id =>
    simp only [workStep,here] at stepped
    cases Option.some.inj stepped
    exact keptReplace h here
  | start n id =>
    simp only [workStep,here] at stepped
    cases Option.some.inj stepped
    exact keptStart h here
  | compare n id started =>
    simp only [workStep,here] at stepped
    cases Option.some.inj stepped
    exact keptCompare h here
  | cancel n =>
    simp only [workStep,here] at stepped
    cases Option.some.inj stepped
    exact keptCancel h here
  | finish =>
    simp only [workStep,here] at stepped
    cases Option.some.inj stepped
    exact keptEnd h (by rw [here]; rfl)
  | stopCompare closed id =>
    simp only [workStep,here] at stepped
    split at stepped
    · rename_i same
      cases Option.some.inj stepped
      exact keptStopMatch h (same ▸ here)
    · rename_i other
      cases Option.some.inj stepped
      exact keptStopSkip h here other rfl
  | stopKey closed =>
    simp only [workStep,here] at stepped
    cases Option.some.inj stepped
    exact keptStopKey h here
  | other msg =>
    simp only [workStep,here] at stepped
    cases Option.some.inj stepped
    exact keptEnd h (by rw [here]; rfl)

theorem keptStep {s t : Screen Fn Arg} {l} (h : Kept s) (heeded : Heeded s l)
    (stepped : step s l = some t) : Kept t := by
  cases l with
  | tapOpen attached minutes => exact keptTapOpen h stepped
  | tapClose => exact keptTapClose h stepped
  | roleTimer => exact keptRoleTimer h stepped
  | tapOther msg => exact keptTapOther h stepped
  | ui => exact keptUi h heeded stepped
  | work ok => exact keptWork h stepped
  | enqueue msg => exact keptEnqueue h stepped
  | outside foreign =>
    cases Option.some.inj stepped
    exact keptOutside h (by cases foreign <;> rfl)

theorem keptRun {s : Screen Fn Arg} (reached : screen.Under Heeded s) : Kept s := by
  refine underInvariant Kept ?_ (fun s l t h heeded stepped => keptStep h heeded stepped) reached
  rintro s rfl
  refine ⟨trivial,⟨List.Pairwise.nil,nofun,nofun,Nat.le_refl _,?_⟩,nofun⟩
  rintro (promise | closed)
  · exact nomatch promise
  · exact nomatch closed

theorem settledPromise {s : Screen Fn Arg} (ui : settled s.ui = true)
    (pending : s.shareStopPending = false) : promised s = false ∧ window s.ui = none := by
  cases here : s.ui <;> simp_all [settled,promised,window]

theorem shareRevoked {s : Screen Fn Arg} (reached : screen.Under Heeded s) : Revoked s := by
  have kept := keptRun reached
  refine ⟨fun closed => ?_,fun closed n stopping key => ?_⟩
  · obtain ⟨promise,outside⟩ := settledPromise closed.ui closed.pending
    cases kept.covered closed.last with
    | promise given => exact absurd given (ne_true_of_eq_false promise)
    | queued job mem msg request =>
      rw [closed.jobs] at mem
      exact absurd mem List.not_mem_nil
    | comparing worker => exact nomatch closed.worker.symm.trans worker
    | stopping worker => exact nomatch closed.worker.symm.trans worker
    | clean key shares => exact key
    | passed inside gone =>
      rw [outside] at inside
      exact absurd inside (by decide)
  · refine (kept.ordered.key n key).2 closed ?_
    rw [marks,stopping]
    exact List.mem_append_left _ (List.mem_singleton.mpr rfl)

def handlers (n : Nat) : List (Label Unit Unit) := List.replicate n .ui
def worked (n : Nat) : List (Label Unit Unit) := List.replicate n (.work true)

def isClosed (s : Screen Unit Unit) : Bool :=
  s.jobs.items = [] && s.worker = .idle && !s.shareStopPending && s.ui = .idle && s.last = .closed

theorem isClosedClosed {s : Screen Unit Unit} (h : isClosed s = true) : Closed s := by
  obtain ⟨⟨⟨⟨jobs,worker⟩,pending⟩,ui⟩,last⟩ := by
    simpa only [isClosed,Bool.and_eq_true,decide_eq_true_eq] using h
  exact ⟨jobs,worker,by simpa using pending,by rw [ui]; rfl,last⟩

/- A share is opened, served and closed; its stop is queued at the second attempt. -/
def closedShare : List (Label Unit Unit) :=
  .tapOpen true 5 :: handlers 5 ++ worked 5 ++ List.replicate 4 (.enqueue .brStart) ++
    .tapClose :: handlers 3 ++ worked 2 ++ .roleTimer :: handlers 1 ++ worked 9

theorem closedShareRevoked : ∃ s : Screen Unit Unit, screen.Under Heeded s ∧ Closed s ∧
    s.key.isShare = false := by
  have ran : (screen.run boot closedShare).any isClosed = true := by decide
  obtain ⟨s,reached,ends⟩ := underEnds Heeded rfl (by decide) ran
  have closed := isClosedClosed ends
  exact ⟨s,reached,closed,(shareRevoked reached).gone closed⟩

/- The stop of a Close is compared while the next `begin_share`, whose enqueue is
about to fail, has its generation published. -/
def lostStop : List (Label Unit Unit) :=
  .tapOpen true 5 :: handlers 5 ++ worked 5 ++ .tapClose :: handlers 2 ++
    List.replicate 3 (.enqueue .brStart) ++ .tapOpen true 5 :: handlers 1 ++ worked 2 ++
    .enqueue .brStart :: handlers 7 ++ worked 8

theorem lostStopKeepsKey : ∃ s : Screen Unit Unit, screen.Reachable s ∧ Closed s ∧
    s.ui = .idle ∧ s.key = .share 1 := by
  have ran : (screen.run boot lostStop).any
      (fun s => isClosed s && s.ui = .idle && s.key = .share 1) = true := by decide
  obtain ⟨s,reached,ends⟩ := runEnds rfl ran
  obtain ⟨⟨closed,ui⟩,key⟩ := by simpa only [Bool.and_eq_true,decide_eq_true_eq] using ends
  exact ⟨s,reached,isClosedClosed closed,ui,key⟩

end EpskcCommissioner.ShareStop
