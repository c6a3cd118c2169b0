import EpskcCommissioner.TouchUiSteps

/-! The rows of the two lists and the records behind them. A row keeps an index only; it can be
tapped only while the table is the one that it was made from, and what is joined is the record
that it showed. -/
namespace EpskcCommissioner.TouchUi

section Results
variable {α : Type} {n : Nat} {r : Results α n}

def Results.Matches (r : Results α n) : Prop :=
  ∀ row ∈ r.rows, row.1.val < r.count.val ∧ r.table row.1 = row.2

def Results.Lists (r : Results α n) (a : α) : Prop := ∃ i : Fin n, i.val < r.count.val ∧ r.table i = a

theorem buildMatches (r : Results α n) : r.build.Matches := by
  intro row shown
  obtain ⟨i,kept,rfl⟩ := List.mem_map.mp shown
  exact ⟨of_decide_eq_true (List.mem_filter.mp kept).2,rfl⟩

theorem cleanMatches (r : Results α n) : r.clean.Matches := fun _ shown => absurd shown List.not_mem_nil

theorem rowShown {place : Nat} {row : Fin n × α} (tapped : r.row place = some row) : r.hidden = false ∧ row ∈ r.rows := by
  unfold Results.row at tapped
  split at tapped
  · cases tapped
  · rename_i shown
    exact ⟨eq_false_of_ne_true shown,List.mem_of_getElem? tapped⟩

end Results

variable {s t u : Touch} {btn : Button} {rest : Rest} {l : Label} {w : Work} {job : Job}

/- The rows of the border agents: hidden, or about to be, while a scan is under way, and
otherwise those of the table. -/
structure AgentRows (s : Touch) : Prop where
  away : pending .scan s = true → s.found.hidden = true ∨ s.rest = some .lists
  shown : pending .scan s = false → s.found.Matches

/- The rows of the Wi-Fi networks, which go before a scan is queued. -/
structure ApRows (s : Touch) : Prop where
  away : pending .wifiScan s = true → s.aps.rows = []
  shown : pending .wifiScan s = false → s.aps.Matches

def Job.special : Job → Bool
  | .scan | .wifiScan | .qr => true
  | _ => false

theorem receivedJob (job : Job) : (Worker.received job).job = some job := by
  cases job <;> rfl

theorem pendingSame {k : Job} (jobs : k ∈ t.jobs.items ↔ k ∈ s.jobs.items)
    (worker : t.worker.job = some k ↔ s.worker.job = some k) : pending k t = pending k s :=
  decide_eq_decide.mpr (or_congr jobs worker)

theorem pendingQueued {k : Job} (queues : Queues job u t) (other : k ≠ job) (jobs : u.jobs = s.jobs)
    (worker : u.worker = s.worker) : pending k t = pending k s := by
  obtain ⟨_,more,sent,rfl⟩ := queues
  refine pendingSame ?_ (by rw [← worker])
  dsimp only
  rw [BoundedQueue.sendItems sent, jobs, List.mem_append, List.mem_singleton]
  exact or_iff_left other

theorem specialOther {k : Job} (special : k.special = true) (not : job.special = false) : k ≠ job := by
  rintro rfl
  rw [special] at not
  cases not

theorem ordinaryNotSpecial (ordinary : job.ordinary = true) : job.special = false := by
  cases job with
  | scan | wifiScan | qr => cases ordinary
  | _ => rfl

theorem pendingControl {k : Job} (other : k ≠ .control) : pending k (sendControl s) = pending k s := by
  obtain ⟨jobs,sent,items⟩ := controlCases s
  rw [sent]
  refine pendingSame ?_ Iff.rfl
  dsimp only
  rcases items with same | behind
  · rw [same]
  · rw [behind, List.mem_append, List.mem_singleton]
    exact or_iff_left other

/- Which taps put one of these jobs into the queue, and where. -/
inductive Requests (s u : Touch) (rest : Rest) : Job → Prop where
  | same {k} (same : pending k u = pending k s) : Requests s u rest k
  | scan (free : s.uiJobBusy = false) (aside : Aside s.panel) (here : u.panel = s.panel) (lists : rest = .lists) :
      Requests s u rest .scan
  | wifiScan (free : s.uiJobBusy = false) (aside : Aside s.panel) (there : u.panel = .wifi) (clean : u.aps = s.aps.clean)
      (stays : rest = .stay) : Requests s u rest .wifiScan
  | qr (free : s.uiJobBusy = false) (here : s.panel = .keypad ∨ s.panel = .qr) : Requests s u rest .qr

theorem requests {k : Job} (special : k.special = true) (tapped : Pressed s btn u rest) : Requests s u rest k := by
  cases tapped with
  | plain _ quiet =>
    obtain ⟨arm,panel,_,rfl⟩ := quiet
    exact .same rfl
  | queued _ quiet ordinary queues =>
    obtain ⟨arm,panel,_,rfl⟩ := quiet
    exact .same (pendingQueued queues (specialOther special (ordinaryNotSpecial ordinary)) rfl rfl)
  | control => exact .same (pendingControl (specialOther special rfl))
  | scan _ aside queues =>
    by_cases same : k = .scan
    · subst same
      obtain ⟨free,jobs,sent,rfl⟩ := queues
      exact .scan free aside rfl rfl
    · exact .same (pendingQueued queues same rfl rfl)
  | wifiScan _ aside queues =>
    by_cases same : k = .wifiScan
    · subst same
      obtain ⟨free,jobs,sent,rfl⟩ := queues
      exact .wifiScan free aside rfl rfl rfl
    · exact .same (pendingQueued queues same rfl rfl)
  | qrOpen _ here queues =>
    by_cases same : k = .qr
    · subst same
      exact .qr queues.1 here
    · exact .same (pendingQueued queues same rfl rfl)
  | join _ _ queues | wifiJoin _ _ queues => exact .same (pendingQueued queues (specialOther special rfl) rfl rfl)
  | wifiOpen | pick | pickNone | wifiPick | wifiPickNone | edit | qrFull | qrCancel => exact .same rfl

/- What a tap on anything but a row leaves as it is, and where it leads. -/
structure Leads (s u : Touch) (rest : Rest) : Prop where
  found : u.found = s.found
  target : u.target = s.target
  ssid : u.joinSsid = s.joinSsid
  past : u.past = s.past
  aps : u.aps = s.aps ∨ u.aps = s.aps.clean ∧ Aside s.panel
  panel : u.panel = s.panel ∨ Aside u.panel
  rest : Plain rest ∨ rest = .lists ∨ (rest = .shows .qr ∨ rest = .cancels) ∧ (s.panel = .keypad ∨ s.panel = .qr)

theorem leads (noRow : btn.isRow = false) (tapped : Pressed s btn u rest) : Leads s u rest := by
  cases tapped with
  | plain _ quiet plain =>
    obtain ⟨arm,panel,still,rfl⟩ := quiet
    exact ⟨rfl,rfl,rfl,rfl,.inl rfl,still,.inl plain⟩
  | queued _ quiet _ queues plain =>
    obtain ⟨arm,panel,still,rfl⟩ := quiet
    obtain ⟨_,jobs,_,rfl⟩ := queues
    exact ⟨rfl,rfl,rfl,rfl,.inl rfl,still,.inl plain⟩
  | control _ plain =>
    obtain ⟨jobs,same,_⟩ := controlCases s
    rw [same]
    exact ⟨rfl,rfl,rfl,rfl,.inl rfl,.inl rfl,.inl plain⟩
  | scan _ _ queues =>
    obtain ⟨_,jobs,_,rfl⟩ := queues
    exact ⟨rfl,rfl,rfl,rfl,.inl rfl,.inl rfl,.inr (.inl rfl)⟩
  | wifiOpen _ aside => exact ⟨rfl,rfl,rfl,rfl,.inr ⟨rfl,aside⟩,.inr (show Aside .wifi by decide),.inl trivial⟩
  | wifiScan _ aside queues =>
    obtain ⟨_,jobs,_,rfl⟩ := queues
    exact ⟨rfl,rfl,rfl,rfl,.inr ⟨rfl,aside⟩,.inr (show Aside .wifi by decide),.inl trivial⟩
  | edit => exact ⟨rfl,rfl,rfl,rfl,.inl rfl,.inl rfl,.inl trivial⟩
  | join _ _ queues =>
    obtain ⟨_,jobs,_,rfl⟩ := queues
    exact ⟨rfl,rfl,rfl,rfl,.inl rfl,.inl rfl,.inl (show Aside .result by decide)⟩
  | wifiJoin _ _ queues =>
    obtain ⟨_,jobs,_,rfl⟩ := queues
    exact ⟨rfl,rfl,rfl,rfl,.inl rfl,.inl rfl,.inl (show Aside .main by decide)⟩
  | qrOpen _ here queues =>
    obtain ⟨_,jobs,_,rfl⟩ := queues
    exact ⟨rfl,rfl,rfl,rfl,.inl rfl,.inl rfl,.inr (.inr ⟨.inl rfl,here⟩)⟩
  | qrFull => exact ⟨rfl,rfl,rfl,rfl,.inl rfl,.inl rfl,.inl trivial⟩
  | qrCancel here => exact ⟨rfl,rfl,rfl,rfl,.inl rfl,.inl rfl,.inr (.inr ⟨.inr rfl,.inr here⟩)⟩
  | pick | pickNone | wifiPick | wifiPickNone => cases noRow

inductive Picked (s : Touch) : Button → Touch → Rest → Prop where
  | agent {place idx shown} (there : s.found.row place = some (idx,shown)) :
      Picked s (.ba place) {s with target := s.found.table idx, code := []} (.shows .keypad)
  | agentNone {place idx shown} (there : s.found.row place = some (idx,shown)) (outside : s.found.count.val ≤ idx.val) :
      Picked s (.ba place) s .stay
  | ap {place idx shown} (there : s.aps.row place = some (idx,shown)) :
      Picked s (.ap place) {s with joinSsid := (s.aps.table idx).1.ssid.take 32} (.shows .wpass)
  | apNone {place idx shown} (there : s.aps.row place = some (idx,shown)) (outside : s.aps.count.val ≤ idx.val) :
      Picked s (.ap place) s .stay

theorem picked (row : btn.isRow = true) (tapped : Pressed s btn u rest) : Picked s btn u rest := by
  cases tapped with
  | pick there => exact .agent there
  | pickNone there outside => exact .agentNone there outside
  | wifiPick there => exact .ap there
  | wifiPickNone there outside => exact .apNone there outside
  | plain noRow | queued noRow | control noRow | scan noRow | wifiOpen noRow | wifiScan noRow | edit noRow | join noRow
  | wifiJoin noRow | qrOpen noRow | qrFull noRow =>
    exact Bool.noConfusion (noRow.symm.trans row)
  | qrCancel => cases row

theorem doingPending {k : Job} (doing : t.worker.job = some k) : pending k t = true := decide_eq_true (.inr doing)

theorem receivedPending {k : Job} {jobs : BoundedQueue Job 4} (idle : s.worker = .idle)
    (items : s.jobs.items = job :: jobs.items) : pending k {s with jobs := jobs, worker := .received job} = pending k s := by
  have nothing : Worker.idle.job ≠ some k := nofun
  unfold pending
  refine decide_eq_decide.mpr ?_
  dsimp only
  rw [receivedJob, idle, items, List.mem_cons, Option.some.injEq, or_iff_left nothing, or_comm, eq_comm]

theorem workedOther {k : Job} (other : s.worker.job ≠ some k) (worked : Worked s w t) : pending k t = pending k s := by
  cases worked with
  | received idle job jobs items => exact receivedPending idle items
  | @qr _ here worker after =>
    refine pendingSame Iff.rfl ⟨fun doing => ?_,fun doing => absurd doing other⟩
    exact absurd (here.trans (after.symm.trans (heldJob doing))) other
  | table here after | apTable here after =>
    refine pendingSame Iff.rfl ?_
    rw [here]
    rcases after with rfl | rfl <;> exact Iff.rfl
  | copied here =>
    refine pendingSame Iff.rfl ?_
    rw [here]
    exact Iff.rfl
  | built | apsBuilt | shown | left | finished | gaveBack =>
    exact pendingSame Iff.rfl ⟨nofun,fun doing => absurd doing other⟩

theorem bodyOther {k : Job} (staged : k.staged = true) {job : {job : Job // job.staged = false}}
    (before : s.worker = .body job) : s.worker.job ≠ some k := by
  rw [before]
  intro same
  have not := job.2
  rw [Option.some.inj same, staged] at not
  cases not

theorem agentRowsSame (rows : AgentRows s) (same : pending .scan t = pending .scan s) (found : t.found = s.found)
    (rest : t.rest = s.rest) : AgentRows t := by
  refine ⟨?_,?_⟩
  · rw [same, found, rest]
    exact rows.away
  · rw [same, found]
    exact rows.shown

theorem workedAgentRows (flag : Flag s) (rows : AgentRows s) (worked : Worked s w t) : AgentRows t := by
  have other : s.worker.job ≠ some .scan → pending .scan t = pending .scan s := fun other => workedOther other worked
  cases worked with
  | received idle job jobs items => exact agentRowsSame rows (receivedPending idle items) rfl rfl
  | @table w before worker after found _ hidden =>
    have under : pending .scan s = true := doingPending (by rw [before]; rfl)
    have still : pending .scan {s with found := found, worker := worker} = true :=
      doingPending (by rcases after with rfl | rfl <;> rfl)
    refine ⟨fun _ => ?_,fun ended => absurd (still.symm.trans ended) nofun⟩
    rw [hidden]
    exact rows.away under
  | built before =>
    have held : s.worker.held = some .scan := by rw [before]; rfl
    have alone : .scan ∉ s.jobs.items := heldAlone flag held rfl rfl
    refine ⟨fun under => ?_,fun _ => buildMatches _⟩
    exact ((of_decide_eq_true under).elim alone nofun).elim
  | apTable before | apsBuilt before | copied before | shown before | left before | gaveBack before =>
    exact agentRowsSame rows (other (by rw [before]; nofun)) rfl rfl
  | qr before => exact agentRowsSame rows (other (by rw [before]; nofun)) rfl rfl
  | finished before => exact agentRowsSame rows (other (bodyOther rfl before)) rfl rfl

theorem workedLess {k : Job} (worked : Worked s w t) (under : pending k t = true) : pending k s = true := by
  by_cases doing : s.worker.job = some k
  · exact doingPending doing
  · rw [← workedOther doing worked]
    exact under

theorem apRowsSame (rows : ApRows s) (same : pending .wifiScan t = pending .wifiScan s) (shown : t.aps.rows = s.aps.rows)
    (kept : s.aps.Matches → t.aps.Matches) : ApRows t := by
  refine ⟨?_,?_⟩
  · rw [same, shown]
    exact rows.away
  · rw [same]
    exact fun ended => kept (rows.shown ended)

theorem workedApRows (flag : Flag s) (rows : ApRows s) (worked : Worked s w t) : ApRows t := by
  have other : s.worker.job ≠ some .wifiScan → pending .wifiScan t = pending .wifiScan s :=
    fun other => workedOther other worked
  cases worked with
  | received idle job jobs items => exact apRowsSame rows (receivedPending idle items) rfl id
  | @apTable w before worker after aps same =>
    have under : pending .wifiScan s = true := doingPending (by rw [before]; rfl)
    have still : pending .wifiScan {s with aps := aps, worker := worker} = true :=
      doingPending (by rcases after with rfl | rfl <;> rfl)
    refine ⟨fun _ => ?_,fun ended => absurd (still.symm.trans ended) nofun⟩
    rw [same]
    exact rows.away under
  | apsBuilt before =>
    have held : s.worker.held = some .wifiScan := by rw [before]; rfl
    have alone : .wifiScan ∉ s.jobs.items := heldAlone flag held rfl rfl
    refine ⟨fun under => ?_,fun _ => buildMatches _⟩
    exact ((of_decide_eq_true under).elim alone nofun).elim
  | left before ok =>
    refine apRowsSame rows (other (by rw [before]; nofun)) ?_ ?_
    · cases ok <;> rfl
    · cases ok <;> exact id
  | table before | built before | copied before | shown before | gaveBack before =>
    exact apRowsSame rows (other (by rw [before]; nofun)) rfl id
  | qr before => exact apRowsSame rows (other (by rw [before]; nofun)) rfl id
  | finished before => exact apRowsSame rows (other (bodyOther rfl before)) rfl id

theorem tapFound (tapped : Pressed s btn u rest) : u.found = s.found := by
  cases row : btn.isRow with
  | false => exact (leads row tapped).found
  | true =>
    cases picked row tapped with
    | agent | agentNone | ap | apNone => rfl

theorem tapAps (tapped : Pressed s btn u rest) : u.aps = s.aps ∨ u.aps = s.aps.clean := by
  cases row : btn.isRow with
  | false => exact (leads row tapped).aps.imp_right And.left
  | true =>
    cases picked row tapped with
    | agent | agentNone | ap | apNone => exact .inl rfl

theorem tapAgentRows (flag : Flag s) (idle : s.rest = none) (rows : AgentRows s) (tapped : Pressed s btn u rest)
    {past : Past} : AgentRows {u with rest := some rest, past := past} := by
  have same := tapFound tapped
  have shown : pending .scan s = false → u.found.Matches := fun ended => same ▸ rows.shown ended
  cases requests (k := .scan) rfl tapped with
  | same unchanged =>
    refine ⟨fun under => .inl ?_,fun ended => shown (unchanged.symm.trans ended)⟩
    dsimp only
    rw [same]
    refine (rows.away (unchanged.symm.trans under)).resolve_right ?_
    rw [idle]
    nofun
  | scan free _ _ lists =>
    exact ⟨fun _ => .inr (congrArg some lists),fun _ => shown (freeNotPending flag free rfl)⟩

theorem tapApRows (rows : ApRows s) (tapped : Pressed s btn u rest) {past : Past} :
    ApRows {u with rest := some rest, past := past} := by
  cases requests (k := .wifiScan) rfl tapped with
  | same unchanged =>
    rcases tapAps tapped with same | clean
    · refine ⟨fun under => ?_,fun ended => ?_⟩
      · dsimp only
        rw [same]
        exact rows.away (unchanged.symm.trans under)
      · dsimp only
        rw [same]
        exact rows.shown (unchanged.symm.trans ended)
    · refine ⟨fun _ => ?_,fun _ => ?_⟩
      · dsimp only
        rw [clean]
        rfl
      · dsimp only
        rw [clean]
        exact cleanMatches _
  | wifiScan _ _ _ clean =>
    refine ⟨fun _ => ?_,fun _ => ?_⟩
    · dsimp only
      rw [clean]
      rfl
    · dsimp only
      rw [clean]
      exact cleanMatches _

theorem steppedAgentRows (flag : Flag s) (rows : AgentRows s) (step : Stepped s l t) : AgentRows t := by
  cases step with
  | tapped idle _ _ pressed => exact tapAgentRows flag idle rows pressed
  | worked _ worked => exact workedAgentRows flag rows worked
  | listed => exact ⟨fun _ => .inl rfl,rows.shown⟩
  | stayed was | showed was | cancelled was =>
    refine ⟨fun under => .inl ((rows.away under).resolve_right ?_),rows.shown⟩
    rw [was]
    nofun
  | control =>
    have same : pending .scan (sendControl s) = pending .scan s := pendingControl nofun
    obtain ⟨jobs,sent,_⟩ := controlCases s
    rw [sent] at same ⊢
    exact agentRowsSame rows same rfl rfl
  | expired | waited | wifi | dataset => exact ⟨rows.away,rows.shown⟩

theorem steppedApRows (flag : Flag s) (rows : ApRows s) (step : Stepped s l t) : ApRows t := by
  cases step with
  | tapped _ _ _ pressed => exact tapApRows rows pressed
  | worked _ worked => exact workedApRows flag rows worked
  | control =>
    have same : pending .wifiScan (sendControl s) = pending .wifiScan s := pendingControl nofun
    obtain ⟨jobs,sent,_⟩ := controlCases s
    rw [sent] at same ⊢
    exact apRowsSame rows same rfl id
  | stayed | showed | listed | cancelled | expired | waited | wifi | dataset => exact ⟨rows.away,rows.shown⟩

theorem rowsUnder {meets : Touch → Label → Prop} (under : touchUi.Under meets s) : AgentRows s ∧ ApRows s := by
  refine underInvariantWith Flag (fun s => AgentRows s ∧ ApRows s) (fun s => flagUnder) ?_ ?_ under
  · rintro s ⟨created,rfl⟩
    exact ⟨⟨nofun,fun _ _ shown => absurd shown List.not_mem_nil⟩,⟨nofun,fun _ _ shown => absurd shown List.not_mem_nil⟩⟩
  · intro s l t flag rows _ taken
    exact ⟨steppedAgentRows flag rows.1 (stepped taken),steppedApRows flag rows.2 (stepped taken)⟩

theorem agentRow {place : Nat} {idx : Fin 8} {shown : BaEntry} (rows : AgentRows s) (idle : s.rest = none)
    (row : s.found.row place = some (idx,shown)) :
    pending .scan s = false ∧ idx.val < s.found.count.val ∧ s.found.table idx = shown := by
  obtain ⟨visible,listed⟩ := rowShown row
  have ended : pending .scan s = false := by
    refine eq_false_of_ne_true fun under => ?_
    rcases rows.away under with hidden | lists
    · rw [visible] at hidden
      cases hidden
    · rw [idle] at lists
      cases lists
  exact ⟨ended,rows.shown ended _ listed⟩

theorem apRow {place : Nat} {idx : Fin 12} {shown : ApEntry} (rows : ApRows s) (row : s.aps.row place = some (idx,shown)) :
    pending .wifiScan s = false ∧ idx.val < s.aps.count.val ∧ s.aps.table idx = shown := by
  obtain ⟨_,listed⟩ := rowShown row
  have ended : pending .wifiScan s = false := by
    refine eq_false_of_ne_true fun under => ?_
    rw [rows.away under] at listed
    exact List.not_mem_nil listed
  exact ⟨ended,rows.shown ended _ listed⟩

end EpskcCommissioner.TouchUi
