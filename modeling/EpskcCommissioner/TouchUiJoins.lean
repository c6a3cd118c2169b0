import EpskcCommissioner.TouchUiRows

/-! What the two join jobs carry: the record of the row that was tapped last, which is still in
the table of the last scan. -/
namespace EpskcCommissioner.TouchUi

/- The keypad is shown, or may be shown without another tap on a row. -/
inductive ToKeypad (s : Touch) : Prop where
  | keypad (here : s.panel = .keypad)
  | scanner (here : s.panel = .qr)
  | showsKeypad (next : s.rest = some (.shows .keypad))
  | showsScanner (next : s.rest = some (.shows .qr))
  | cancels (next : s.rest = some .cancels)
  | running (under : pending .qr s = true)

def ToWpass (s : Touch) : Prop := s.panel = .wpass ∨ s.rest = some (.shows .wpass)

/- The target is the record on the row that was tapped last, and still in the table. -/
def Targets (s : Touch) : Prop :=
  ToKeypad s → pending .scan s = false ∧ s.past.row = some s.target ∧ s.found.Lists s.target

def Ssids (s : Touch) : Prop :=
  ToWpass s → pending .wifiScan s = false ∧ ∃ ap : ApEntry, s.past.ap = some ap ∧ s.joinSsid = ap.1.ssid ∧ s.aps.Lists ap

inductive Sent (s : Touch) : Job → Prop where
  | ordinary {job : Job} (ordinary : job.ordinary = true) : Sent s job
  | control : Sent s .control
  | scan : Sent s .scan
  | wifiScan : Sent s .wifiScan
  | qr : Sent s .qr
  | join (here : s.panel = .keypad) : Sent s (.join s.target s.code)
  | wifiJoin (here : s.panel = .wpass) : Sent s (.wifiJoin (s.joinSsid.take 32))

variable {s t u : Touch} {btn : Button} {rest : Rest} {l : Label} {w : Work} {job : Job}

theorem leadsKeypad (leads : Leads s u rest) (requests : Requests s u rest .qr) {past : Past}
    (there : ToKeypad {u with rest := some rest, past := past}) : ToKeypad s := by
  have near : s.panel = .keypad ∨ s.panel = .qr → ToKeypad s := fun here => here.elim .keypad .scanner
  have panel : u.panel = .keypad ∨ u.panel = .qr → ToKeypad s := by
    intro here
    rcases leads.panel with same | aside
    · exact near (same ▸ here)
    · exact (here.elim aside.1 aside.2.1).elim
  have after : rest = .shows .keypad ∨ rest = .shows .qr ∨ rest = .cancels → ToKeypad s := by
    intro here
    rcases leads.rest with plain | lists | ⟨_,here⟩
    · rcases here with rfl | rfl | rfl
      · exact (plain.1 rfl).elim
      · exact (plain.2.1 rfl).elim
      · exact plain.elim
    · subst lists
      rcases here with same | same | same <;> cases same
    · exact near here
  cases there with
  | keypad here => exact panel (.inl here)
  | scanner here => exact panel (.inr here)
  | showsKeypad next => exact after (.inl (Option.some.inj next))
  | showsScanner next => exact after (.inr (.inl (Option.some.inj next)))
  | cancels next => exact after (.inr (.inr (Option.some.inj next)))
  | running under =>
    cases requests with
    | same same => exact .running (same.symm.trans under)
    | qr _ here => exact near here

theorem leadsWpass (leads : Leads s u rest) {past : Past} (there : ToWpass {u with rest := some rest, past := past}) :
    ToWpass s := by
  rcases there with here | here
  · rcases leads.panel with same | aside
    · exact .inl (same.symm.trans here)
    · exact (aside.2.2 here).elim
  · cases Option.some.inj here
    rcases leads.rest with plain | lists | ⟨same | same,_⟩
    · exact (plain.2.2 rfl).elim
    · cases lists
    · cases same
    · cases same

theorem notedOther {past : Past} (noRow : btn.isRow = false) :
    (noted btn s past).row = past.row ∧ (noted btn s past).ap = past.ap := by
  cases btn with
  | ba | ap => cases noRow
  | _ => exact ⟨rfl,rfl⟩

theorem asideKeypad (flag : Flag s) (idle : s.rest = none) (free : s.uiJobBusy = false) (aside : Aside s.panel) :
    ¬ ToKeypad s := by
  intro there
  cases there with
  | keypad here => exact aside.1 here
  | scanner here => exact aside.2.1 here
  | showsKeypad next | showsScanner next | cancels next => cases idle.symm.trans next
  | running under => cases (freeNotPending flag free rfl).symm.trans under

theorem asideWpass (idle : s.rest = none) (aside : Aside s.panel) : ¬ ToWpass s := by
  unfold ToWpass
  rw [idle]
  rintro (here | here)
  · exact aside.2.2 here
  · cases here

theorem apKeypad {ssid : List UInt8} {past : Past}
    (there : ToKeypad {s with joinSsid := ssid, rest := some (.shows .wpass), past := past}) : ToKeypad s := by
  cases there with
  | keypad here => exact .keypad here
  | scanner here => exact .scanner here
  | showsKeypad next | showsScanner next | cancels next => cases next
  | running under => exact .running under

theorem tapTargets (flag : Flag s) (agents : AgentRows s) (aps : ApRows s) (idle : s.rest = none) (targets : Targets s)
    (tapped : Pressed s btn u rest) : Targets {u with rest := some rest, past := noted btn s u.past} := by
  intro there
  cases kind : btn.isRow with
  | false =>
    have leads := leads kind tapped
    have was := leadsKeypad leads (requests rfl tapped) there
    obtain ⟨ended,tappedRow,listed⟩ := targets was
    have still : pending .scan u = false := by
      cases requests (k := .scan) rfl tapped with
      | same same => exact same.trans ended
      | scan free aside => exact absurd was (asideKeypad flag idle free aside)
    refine ⟨still,?_,?_⟩
    · dsimp only
      rw [(notedOther kind).1, leads.past, leads.target]
      exact tappedRow
    · dsimp only
      rw [leads.found, leads.target]
      exact listed
  | true =>
    cases picked kind tapped with
    | @agent place idx shown row =>
      obtain ⟨ended,inside,same⟩ := agentRow agents idle row
      refine ⟨ended,?_,idx,inside,rfl⟩
      dsimp only [noted]
      rw [row, same]
      rfl
    | agentNone row outside => exact absurd (agentRow agents idle row).2.1 (Nat.not_lt_of_le outside)
    | ap => exact targets (apKeypad there)
    | apNone row outside => exact absurd (apRow aps row).2.1 (Nat.not_lt_of_le outside)

theorem agentWpass {target : BaEntry} {code : List UInt8} {past : Past}
    (there : ToWpass {s with target := target, code := code, rest := some (.shows .keypad), past := past}) : ToWpass s := by
  rcases there with here | here
  · exact .inl here
  · cases here

theorem tapSsids (agents : AgentRows s) (aps : ApRows s) (idle : s.rest = none) (ssids : Ssids s)
    (tapped : Pressed s btn u rest) : Ssids {u with rest := some rest, past := noted btn s u.past} := by
  intro there
  cases kind : btn.isRow with
  | false =>
    have leads := leads kind tapped
    have was := leadsWpass leads there
    obtain ⟨ended,ap,tappedRow,same,listed⟩ := ssids was
    have still : pending .wifiScan u = false := by
      cases requests (k := .wifiScan) rfl tapped with
      | same same => exact same.trans ended
      | wifiScan _ aside => exact absurd was (asideWpass idle aside)
    refine ⟨still,ap,?_,leads.ssid.trans same,?_⟩
    · dsimp only
      rw [(notedOther kind).2, leads.past]
      exact tappedRow
    · dsimp only
      rcases leads.aps with same | ⟨_,aside⟩
      · rw [same]
        exact listed
      · exact absurd was (asideWpass idle aside)
  | true =>
    cases picked kind tapped with
    | @ap place idx shown row =>
      obtain ⟨ended,inside,same⟩ := apRow aps row
      refine ⟨ended,s.aps.table idx,?_,List.take_of_length_le (s.aps.table idx).2,idx,inside,rfl⟩
      dsimp only [noted]
      rw [row, same]
      rfl
    | apNone row outside => exact absurd (apRow aps row).2.1 (Nat.not_lt_of_le outside)
    | agent => exact ssids (agentWpass there)
    | agentNone row outside => exact absurd (agentRow agents idle row).2.1 (Nat.not_lt_of_le outside)

/- What a step of the worker leaves of all this as it is. Only a scan writes its table. -/
structure Leaves (s t : Touch) : Prop where
  target : t.target = s.target
  ssid : t.joinSsid = s.joinSsid
  row : t.past.row = s.past.row
  ap : t.past.ap = s.past.ap
  rest : t.rest = s.rest
  panel : t.panel = s.panel ∨ t.panel = .keypad ∧ pending .qr s = true
  found : pending .scan s = false → t.found = s.found
  aps : pending .wifiScan s = false → t.aps = s.aps ∨ t.aps = s.aps.hide

theorem scanNotOver (doing : s.worker.job = some job) (ended : pending job s = false) : False :=
  absurd (ended.symm.trans (doingPending doing)) Bool.false_ne_true

theorem workedLeaves (worked : Worked s w t) : Leaves s t := by
  cases worked with
  | table before | built before =>
    have doing : s.worker.job = some .scan := by rw [before]; rfl
    exact ⟨rfl,rfl,rfl,rfl,rfl,.inl rfl,fun ended => (scanNotOver doing ended).elim,fun _ => .inl rfl⟩
  | apTable before | apsBuilt before =>
    have doing : s.worker.job = some .wifiScan := by rw [before]; rfl
    exact ⟨rfl,rfl,rfl,rfl,rfl,.inl rfl,fun _ => rfl,fun ended => (scanNotOver doing ended).elim⟩
  | @shown got before =>
    refine ⟨rfl,rfl,rfl,rfl,rfl,?_,fun _ => rfl,fun _ => .inl rfl⟩
    cases got with
    | false => exact .inl rfl
    | true => exact .inr ⟨rfl,doingPending (by rw [before]; rfl)⟩
  | left before ok =>
    refine ⟨rfl,rfl,rfl,rfl,rfl,.inl rfl,fun _ => rfl,fun _ => ?_⟩
    cases ok with
    | false => exact .inl rfl
    | true => exact .inr rfl
  | received | qr | copied | finished | gaveBack =>
    exact ⟨rfl,rfl,rfl,rfl,rfl,.inl rfl,fun _ => rfl,fun _ => .inl rfl⟩

theorem workedStill (worked : Worked s w t) (ended : pending job s = false) : pending job t = false :=
  eq_false_of_ne_true fun under => absurd (ended.symm.trans (workedLess worked under)) Bool.false_ne_true

theorem workedKeypad (worked : Worked s w t) (there : ToKeypad t) : ToKeypad s := by
  have left := workedLeaves worked
  have same : t.panel = .keypad ∨ t.panel = .qr → ToKeypad s := by
    intro here
    rcases left.panel with same | ⟨_,under⟩
    · rw [same] at here
      exact here.elim .keypad .scanner
    · exact .running under
  cases there with
  | keypad here => exact same (.inl here)
  | scanner here => exact same (.inr here)
  | showsKeypad next => exact .showsKeypad (left.rest.symm.trans next)
  | showsScanner next => exact .showsScanner (left.rest.symm.trans next)
  | cancels next => exact .cancels (left.rest.symm.trans next)
  | running under => exact .running (workedLess worked under)

theorem workedWpass (worked : Worked s w t) (there : ToWpass t) : ToWpass s := by
  have left := workedLeaves worked
  rcases there with here | here
  · rcases left.panel with same | ⟨keypad,_⟩
    · exact .inl (same.symm.trans here)
    · cases keypad.symm.trans here
  · exact .inr (left.rest.symm.trans here)

theorem workedTargets (targets : Targets s) (worked : Worked s w t) : Targets t := by
  intro there
  have left := workedLeaves worked
  obtain ⟨ended,row,listed⟩ := targets (workedKeypad worked there)
  refine ⟨workedStill worked ended,?_,?_⟩
  · rw [left.row, left.target]
    exact row
  · rw [left.found ended, left.target]
    exact listed

theorem workedSsids (ssids : Ssids s) (worked : Worked s w t) : Ssids t := by
  intro there
  have left := workedLeaves worked
  obtain ⟨ended,ap,row,same,listed⟩ := ssids (workedWpass worked there)
  refine ⟨workedStill worked ended,ap,left.ap.trans row,left.ssid.trans same,?_⟩
  rcases left.aps ended with kept | hidden
  · rw [kept]
    exact listed
  · rw [hidden]
    exact listed

theorem keypadSame (there : ToKeypad t) (panel : t.panel = s.panel) (rest : t.rest = s.rest)
    (under : pending .qr t = pending .qr s) : ToKeypad s := by
  cases there with
  | keypad here => exact .keypad (panel.symm.trans here)
  | scanner here => exact .scanner (panel.symm.trans here)
  | showsKeypad next => exact .showsKeypad (rest.symm.trans next)
  | showsScanner next => exact .showsScanner (rest.symm.trans next)
  | cancels next => exact .cancels (rest.symm.trans next)
  | running running => exact .running (under.symm.trans running)

theorem steppedTargets (flag : Flag s) (agents : AgentRows s) (aps : ApRows s) (targets : Targets s)
    (step : Stepped s l t) : Targets t := by
  cases step with
  | tapped idle _ _ pressed => exact tapTargets flag agents aps idle targets pressed
  | worked _ worked => exact workedTargets targets worked
  | stayed =>
    intro there
    cases there with
    | keypad here => exact targets (.keypad here)
    | scanner here => exact targets (.scanner here)
    | showsKeypad next | showsScanner next | cancels next => cases next
    | running under => exact targets (.running under)
  | showed was =>
    intro there
    cases there with
    | keypad here => exact targets (.showsKeypad (here ▸ was))
    | scanner here => exact targets (.showsScanner (here ▸ was))
    | showsKeypad next | showsScanner next | cancels next => cases next
    | running under => exact targets (.running under)
  | listed =>
    intro there
    cases there with
    | keypad here | scanner here => cases here
    | showsKeypad next | showsScanner next | cancels next => cases next
    | running under => exact targets (.running under)
  | cancelled was => exact fun _ => targets (.cancels was)
  | control =>
    have scan : pending .scan (sendControl s) = pending .scan s := pendingControl nofun
    have qr : pending .qr (sendControl s) = pending .qr s := pendingControl nofun
    obtain ⟨jobs,sent,_⟩ := controlCases s
    rw [sent] at scan qr ⊢
    intro there
    obtain ⟨ended,kept⟩ := targets (keypadSame there rfl rfl qr)
    exact ⟨scan.trans ended,kept⟩
  | dataset idle =>
    intro there
    cases there with
    | keypad here | scanner here => cases here
    | showsKeypad next | showsScanner next | cancels next => cases idle.symm.trans next
    | running under => exact targets (.running under)
  | expired | waited | wifi => exact fun there => targets (keypadSame there rfl rfl rfl)

theorem steppedSsids (agents : AgentRows s) (aps : ApRows s) (ssids : Ssids s) (step : Stepped s l t) : Ssids t := by
  cases step with
  | tapped idle _ _ pressed => exact tapSsids agents aps idle ssids pressed
  | worked _ worked => exact workedSsids ssids worked
  | stayed => exact fun there => ssids (there.elim .inl nofun)
  | showed was => exact fun there => ssids (there.elim (fun here => .inr (here ▸ was)) nofun)
  | listed | cancelled => exact fun there => ssids (there.elim nofun nofun)
  | control =>
    have scan : pending .wifiScan (sendControl s) = pending .wifiScan s := pendingControl nofun
    obtain ⟨jobs,sent,_⟩ := controlCases s
    unfold Ssids ToWpass at ssids ⊢
    rw [scan, sent]
    exact ssids
  | dataset => exact fun there => ssids (there.elim nofun .inr)
  | expired | waited | wifi => exact ssids

theorem joinsUnder {meets : Touch → Label → Prop} (under : touchUi.Under meets s) : Targets s ∧ Ssids s := by
  refine underInvariantWith (fun s => Flag s ∧ AgentRows s ∧ ApRows s) (fun s => Targets s ∧ Ssids s) ?_ ?_ ?_ under
  · exact fun s under => ⟨flagUnder under,rowsUnder under⟩
  · rintro s ⟨created,rfl⟩
    constructor
    · intro there
      cases there with
      | keypad here | scanner here => cases here
      | showsKeypad next | showsScanner next | cancels next => cases next
      | running under => cases under
    · exact fun there => Or.elim there nofun nofun
  · intro s l t ⟨flag,agents,aps⟩ joins _ taken
    have step := stepped taken
    exact ⟨steppedTargets flag agents aps joins.1 step,steppedSsids agents aps joins.2 step⟩

theorem queuesSent {k : Job} (queues : Queues k u t) (jobs : u.jobs = s.jobs)
    (behind : t.jobs.items = s.jobs.items ++ [job]) : job = k := by
  obtain ⟨_,more,sent,rfl⟩ := queues
  have added := BoundedQueue.sendItems sent
  rw [jobs] at added
  have same : s.jobs.items ++ [job] = s.jobs.items ++ [k] := behind.symm.trans added
  exact List.singleton_injective (List.append_cancel_left same)

theorem sameNotSent (jobs : t.jobs.items = s.jobs.items) : t.jobs.items ≠ s.jobs.items ++ [job] := by
  rw [jobs]
  intro behind
  cases List.self_eq_append_right.mp behind

theorem controlSent (behind : (sendControl s).jobs.items = s.jobs.items ++ [job]) : job = .control := by
  obtain ⟨jobs,sent,items⟩ := controlCases s
  rw [sent] at behind
  rcases items with same | added
  · exact (sameNotSent (t := {s with jobs := jobs}) same behind).elim
  · exact List.singleton_injective (List.append_cancel_left (behind.symm.trans added))

theorem tapSent (tapped : Pressed s btn u rest) (behind : u.jobs.items = s.jobs.items ++ [job]) : Sent s job := by
  cases tapped with
  | queued _ quiet ordinary queues =>
    obtain ⟨arm,panel,_,rfl⟩ := quiet
    cases queuesSent queues rfl behind
    exact .ordinary ordinary
  | control =>
    cases controlSent behind
    exact .control
  | scan _ _ queues =>
    cases queuesSent queues rfl behind
    exact .scan
  | wifiScan _ _ queues =>
    cases queuesSent queues rfl behind
    exact .wifiScan
  | qrOpen _ _ queues =>
    cases queuesSent queues rfl behind
    exact .qr
  | join _ here queues =>
    cases queuesSent queues rfl behind
    exact .join here
  | wifiJoin _ here queues =>
    cases queuesSent queues rfl behind
    exact .wifiJoin here
  | plain _ quiet =>
    obtain ⟨arm,panel,_,rfl⟩ := quiet
    exact (sameNotSent rfl behind).elim
  | wifiOpen | pick | pickNone | wifiPick | wifiPickNone | edit | qrFull | qrCancel => exact (sameNotSent rfl behind).elim

theorem workedSent (worked : Worked s w t) : t.jobs.items ≠ s.jobs.items ++ [job] := by
  cases worked with
  | received _ _ jobs items =>
    intro behind
    have length := congrArg List.length behind
    rw [items, List.length_append, List.length_cons] at length
    dsimp only at length
    omega
  | table | built | apTable | apsBuilt | qr | copied | shown | left | finished | gaveBack => exact sameNotSent rfl

theorem steppedSent (step : Stepped s l t) (behind : t.jobs.items = s.jobs.items ++ [job]) : Sent s job := by
  cases step with
  | tapped _ _ _ pressed => exact tapSent pressed behind
  | worked _ worked => exact (workedSent worked behind).elim
  | control =>
    cases controlSent behind
    exact .control
  | stayed | showed | listed | cancelled | expired | waited | wifi | dataset => exact (sameNotSent rfl behind).elim

/- Whatever runs beside it, a join is queued with the record of the row that was tapped last, and
a Wi-Fi join with the SSID of such a row; no scan is under way then, and the record is one of the
last scan's. -/
theorem joinsCarryShown (s : Touch) (reachable : touchUi.Reachable s) (l : Label) (t : Touch)
    (taken : touchUi.step s l = some t) :
    (∀ target code, t.jobs.items = s.jobs.items ++ [.join target code] →
      s.past.row = some target ∧ pending .scan s = false ∧ s.found.Lists target) ∧
    ∀ ssid, t.jobs.items = s.jobs.items ++ [.wifiJoin ssid] → ∃ ap : ApEntry,
      s.past.ap = some ap ∧ ssid = ap.1.ssid ∧ pending .wifiScan s = false ∧ s.aps.Lists ap := by
  obtain ⟨targets,ssids⟩ := joinsUnder reachable
  constructor
  · intro target code behind
    cases steppedSent (stepped taken) behind with
    | ordinary ordinary => cases ordinary
    | join here =>
      obtain ⟨ended,row,listed⟩ := targets (.keypad here)
      exact ⟨row,ended,listed⟩
  · intro ssid behind
    cases steppedSent (stepped taken) behind with
    | ordinary ordinary => cases ordinary
    | wifiJoin here =>
      obtain ⟨ended,ap,row,same,listed⟩ := ssids (.inl here)
      have whole : s.joinSsid.take 32 = ap.1.ssid := by
        rw [same]
        exact List.take_of_length_le ap.2
      exact ⟨ap,row,whole,ended,listed⟩

def sevens : List UInt8 := List.replicate 9 0x37

def typed : List Label := pickAgent ++ (List.replicate 9 [.tap (.digit 7) true,.handler]).flatten

def beforeOk : Touch :=
  {boot true with
    panel := .keypad
    haveWifi := true
    found := agentFound
    target := agent
    code := sevens
    past := ⟨some agent,none,some (.digit 7,0),false⟩}

theorem joinsCarryShownTyped : beforeOk.past.row = some agent ∧ pending .scan beforeOk = false ∧ beforeOk.found.Lists agent := by
  have ran : touchUi.run (boot true) typed = some beforeOk := rfl
  have reachable : touchUi.Reachable beforeOk := reachableRun (.start ⟨true,rfl⟩) ran
  exact (joinsCarryShown beforeOk reachable (.tap .ok true) _ rfl).1 agent sevens rfl

end EpskcCommissioner.TouchUi
