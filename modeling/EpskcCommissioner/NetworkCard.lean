import EpskcCommissioner.Machine
import EpskcCommissioner.WriteThrough

/-! The network that `ui.c` remembers for its home card: `network_save`, `network_load`,
`network_erase_nvs`, and `sync_network_from_stack`, which runs under the display's lock, beside
the worker's JOB_JOIN and JOB_FORM, which store what they joined without it. -/
namespace EpskcCommissioner.NetworkCard
open WriteThrough

/- "net_name", "net_ch", "net_pan" -/
inductive Key where
  | name | ch | pan
  deriving DecidableEq, Repr

inductive Value where
  | str (text : List UInt8)
  | i32 (n : Int)
  | u16 (n : UInt16)
  deriving DecidableEq, Repr

/- `char name[17]`. -/
abbrev Name := {text : List UInt8 // text.length < 17}

structure Summary where
  name : Name
  channel : Int
  panid : UInt16
  deriving DecidableEq

def Summary.value (d : Summary) : Key → Value
  | .name => .str d.name.1
  | .ch => .i32 d.channel
  | .pan => .u16 d.panid

/- The fields of `otOperationalDataset` that the card shows. -/
structure ActiveDataset where
  networkName : Option Name
  channel : Option UInt16
  panId : Option UInt16
  deriving DecidableEq

def noName : Name := ⟨[],by decide⟩

def threadNetworkInfo (ready : Bool) (active : Option ActiveDataset) : Option Summary :=
  if ready then
    active.map (fun ds => ⟨ds.networkName.getD noName,(ds.channel.getD 0).toNat,ds.panId.getD 0⟩)
  else none

/- What the variables are before `network_load`, and behind `network_erase_nvs`. -/
def empty : Key → Value := (⟨noName,0,0⟩ : Summary).value

/- `read` is what the `nvs_get` of a key gives. The other keys are read only behind a name. -/
def networkLoad (opened : Bool) (read : Key → Option Value) : (Key → Value) × Bool :=
  match opened,read .name with
  | true,some (.str text) =>
    if text.length < 17 then
      (fun
        | .name => .str text
        | .ch => match read .ch with
          | some (.i32 n) => .i32 n
          | _ => empty .ch
        | .pan => match read .pan with
          | some (.u16 n) => .u16 n
          | _ => empty .pan,!text.isEmpty)
    else (empty,false)
  | _,_ => (empty,false)

def networkSave : List (Op Key Value) := [.opens 4,.store .name,.store .ch,.store .pan,.commit]

def adopt (d : Summary) : List (Op Key Value) :=
  [.assign .name (d.value .name),.assign .ch (d.value .ch),.assign .pan (d.value .pan),.mark true] ++ networkSave

def networkEraseNvs : List (Op Key Value) :=
  [.opens 2,.erase,.commit,.assign .name (empty .name),.assign .ch (empty .ch),.assign .pan (empty .pan),.mark false]

/- `differs` is what the comparison with the variables finds. -/
def syncNetworkFromStack (live : Bool) (active : Option ActiveDataset) (shown differs : Bool) :
    List (Op Key Value) :=
  match threadNetworkInfo live active with
  | none => if live && shown then networkEraseNvs else []
  | some d =>
    if d.name.1 = [] then if live && shown then networkEraseNvs else []
    else if differs then adopt d else []

inductive Who where
  | holder | worker
  deriving DecidableEq, Repr

/- `content.marked` is `s_have_net`, and `live` is `s_ready` of `thread.c`. -/
structure Device where
  booted : Bool
  content : Content Key Value
  tasks : Who → List (Op Key Value)
  live : Bool
  active : Option ActiveDataset

def Holds (c : Content Key Value) (d : Summary) : Prop :=
  c.ram .name = d.value .name ∧ c.ram .ch = d.value .ch ∧ c.ram .pan = d.value .pan

instance (c : Content Key Value) (d : Summary) : Decidable (Holds c d) :=
  inferInstanceAs (Decidable (_ ∧ _ ∧ _))

/- `joined` is the worker's store of a network that it joined or formed, `forget` the
`network_erase_nvs` of JOB_FORGET and of `ui_forget_network`. `ok` is the result of the step's
call, if it makes one. -/
inductive Label where
  | boot (opened : Bool) (fails : Key → Bool)
  | stack (live : Bool) (active : Option ActiveDataset)
  | refresh (differs : Bool)
  | joined (d : Summary)
  | forget
  | work (who : Who) (ok : Bool)
  | cut (kept : Key → Bool)

def Device.takes (who : Who) (ops : List (Op Key Value)) (s : Device) : Device :=
  {s with tasks := Function.update s.tasks who ops}

/- A comparison finds the truth where the worker is not in the middle of a store. -/
def step (s : Device) : Label → Option Device
  | .boot opened fails =>
    if s.booted then none
    else
      let (ram,marked) := networkLoad opened (fun k => if fails k then none else s.content.flash.seen k)
      some {s with booted := true, content := {s.content with ram := ram, marked := marked}}
  | .stack live active => if s.booted then some {s with live := live, active := active} else none
  | .refresh differs =>
    if s.booted ∧ s.tasks .holder = [] ∧
        (s.tasks .worker = [] → ∀ d ∈ threadNetworkInfo s.live s.active, differs = decide (¬Holds s.content d)) then
      some (s.takes .holder (syncNetworkFromStack s.live s.active s.content.marked differs))
    else none
  | .joined d => if s.booted ∧ s.tasks .worker = [] then some (s.takes .worker (adopt d)) else none
  | .forget => if s.booted ∧ s.tasks .holder = [] then some (s.takes .holder networkEraseNvs) else none
  | .work who ok =>
    match s.tasks who with
    | [] => none
    | op :: rest =>
      let (content,left) := perform ok op rest s.content
      some ({s with content := content}.takes who left)
  | .cut kept => some ⟨false,⟨empty,false,s.content.flash.cut kept⟩,fun _ => [],false,none⟩

def off (content : Key → Option Value) : Device :=
  ⟨false,⟨empty,false,.settled content⟩,fun _ => [],false,none⟩

def device : Machine Device Label := ⟨fun s => ∃ content, s = off content,step⟩

def Succeeds (_ : Device) : Label → Prop
  | .boot opened fails => opened = true ∧ ∀ k, fails k = false
  | .work _ ok => ok = true
  | .stack _ _ | .refresh _ | .joined _ | .forget | .cut _ => True

def Fits : Key → Value → Prop
  | .name,.str text => text.length < 17
  | .ch,.i32 _ | .pan,.u16 _ => True
  | _,_ => False

theorem valueFits (d : Summary) (k : Key) : Fits k (d.value k) := by
  cases k with
  | name => exact d.name.2
  | ch | pan => trivial

theorem loadReflects (read : Key → Option Value) (k : Key) :
    Fits k ((networkLoad true read).1 k) ∧
      (read k = some ((networkLoad true read).1 k) ∨ (networkLoad true read).1 k = empty k) := by
  have blank : Fits k (empty k) ∧ (read k = some (empty k) ∨ empty k = empty k) := ⟨valueFits _ k,.inr rfl⟩
  unfold networkLoad
  split
  · rename_i text named
    split
    · rename_i short
      cases k with
      | name => exact ⟨short,.inl named⟩
      | ch =>
        dsimp only
        split
        · rename_i found
          exact ⟨trivial,.inl found⟩
        · exact ⟨trivial,.inr rfl⟩
      | pan =>
        dsimp only
        split
        · rename_i found
          exact ⟨trivial,.inl found⟩
        · exact ⟨trivial,.inr rfl⟩
    · exact blank
  · exact blank

/- Every value that the operations assign can be one of its key. -/
def Fitting (ops : List (Op Key Value)) : Prop := ∀ k v, .assign k v ∈ ops → Fits k v

theorem adoptGood (d : Summary) : Thorough empty (adopt d) ∧ Fitting (adopt d) := by
  constructor
  · simp [adopt,networkSave,Thorough]
  · intro k v mem
    simp only [adopt,networkSave,List.cons_append,List.nil_append,List.mem_cons,Op.assign.injEq,reduceCtorEq,
      List.not_mem_nil,or_false] at mem
    rcases mem with ⟨rfl,rfl⟩ | ⟨rfl,rfl⟩ | ⟨rfl,rfl⟩ <;> exact valueFits d _

theorem eraseGood : Thorough empty networkEraseNvs ∧ Fitting networkEraseNvs := by
  constructor
  · refine ⟨fun k => ?_,by decide,.inr rfl,.inr rfl,.inr rfl,trivial⟩
    cases k <;> decide
  · intro k v mem
    simp only [networkEraseNvs,List.mem_cons,Op.assign.injEq,reduceCtorEq,List.not_mem_nil,or_false,false_or] at mem
    rcases mem with ⟨rfl,rfl⟩ | ⟨rfl,rfl⟩ | ⟨rfl,rfl⟩ <;> exact valueFits _ _

theorem syncGood (live shown differs : Bool) (active : Option ActiveDataset) :
    Thorough empty (syncNetworkFromStack live active shown differs) ∧
      Fitting (syncNetworkFromStack live active shown differs) := by
  have nothing : Thorough empty ([] : List (Op Key Value)) ∧ Fitting [] := ⟨trivial,nofun⟩
  have erases : ∀ b : Bool, Thorough empty (if b then networkEraseNvs else []) ∧
      Fitting (if b then networkEraseNvs else []) := by
    intro b
    cases b with
    | true => exact eraseGood
    | false => exact nothing
  unfold syncNetworkFromStack
  split
  · exact erases _
  · split
    · exact erases _
    · split
      · exact adoptGood _
      · exact nothing

structure Inv (s : Device) : Prop where
  kept : Kept empty s.content s.tasks
  off : s.booted = false → ∀ who, s.tasks who = []
  fits : ∀ k, Fits k (s.content.ram k)
  fitting : ∀ who, Fitting (s.tasks who)

variable {s t : Device} {l : Label}

theorem invTakes {who : Who} {ops : List (Op Key Value)} (inv : Inv s) (up : s.booted = true)
    (idle : s.tasks who = []) (good : Thorough empty ops ∧ Fitting ops) : Inv (s.takes who ops) where
  kept := keptBegin inv.kept idle good.1
  off down := absurd (up.symm.trans down) (by decide)
  fits := inv.fits
  fitting := everyUpdate inv.fitting good.2

theorem performFits {op : Op Key Value} {rest : List (Op Key Value)} {c : Content Key Value}
    (fits : ∀ k, Fits k (c.ram k)) (fitting : Fitting (op :: rest)) (k : Key) :
    Fits k ((perform true op rest c).1.ram k) := by
  cases op with
  | assign k' v =>
    change Fits k (Function.update c.ram k' v k)
    by_cases same : k = k'
    · subst same
      rw [Function.update_self]
      exact fitting k v List.mem_cons_self
    · rw [Function.update_of_ne same]
      exact fits k
  | mark | opens | store | erase | commit => exact fits k

theorem performRest (op : Op Key Value) (rest : List (Op Key Value)) (c : Content Key Value) :
    (perform true op rest c).2 = rest := by
  cases op <;> rfl

theorem invStep (inv : Inv s) (succeeds : Succeeds s l) (taken : step s l = some t) : Inv t := by
  cases l with
  | boot opened fails =>
    obtain ⟨rfl,none⟩ := succeeds
    obtain ⟨down,same⟩ := Option.ite_none_left_eq_some.mp taken
    have quiet := inv.off (Bool.eq_false_iff.mpr down)
    have read : (fun k => if fails k then Option.none else s.content.flash.seen k) = s.content.flash.seen := by
      funext k
      rw [none k]
      rfl
    rw [read] at same
    cases Option.some.inj same
    have safe := fun k => (keptQuiet inv.kept quiet k).2
    refine ⟨⟨fun k => .inl ?_,fun k => .inl (safe k),inv.kept.thorough⟩,nofun,fun k => ?_,inv.fitting⟩
    · exact (loadReflects _ k).2
    · exact (loadReflects _ k).1
  | stack live active =>
    obtain ⟨_,same⟩ := Option.ite_none_right_eq_some.mp taken
    cases Option.some.inj same
    exact ⟨inv.kept,inv.off,inv.fits,inv.fitting⟩
  | refresh differs =>
    obtain ⟨⟨up,idle,_⟩,same⟩ := Option.ite_none_right_eq_some.mp taken
    cases Option.some.inj same
    exact invTakes inv up idle (syncGood ..)
  | joined d =>
    obtain ⟨⟨up,idle⟩,same⟩ := Option.ite_none_right_eq_some.mp taken
    cases Option.some.inj same
    exact invTakes inv up idle (adoptGood d)
  | forget =>
    obtain ⟨⟨up,idle⟩,same⟩ := Option.ite_none_right_eq_some.mp taken
    cases Option.some.inj same
    exact invTakes inv up idle eraseGood
  | work who ok =>
    cases show ok = true from succeeds
    dsimp only [step] at taken
    split at taken
    · cases taken
    · rename_i op rest here
      cases Option.some.inj taken
      have mine : Fitting (op :: rest) := here ▸ inv.fitting who
      have left : Fitting (perform true op rest s.content).2 := by
        rw [performRest]
        exact fun k v mem => mine k v (List.mem_cons_of_mem _ mem)
      refine ⟨keptNext inv.kept here,fun down => ?_,performFits inv.fits mine,everyUpdate inv.fitting left⟩
      have none := inv.off down who
      exact nomatch here.symm.trans none
  | cut kept =>
    cases Option.some.inj taken
    refine ⟨?_,fun _ _ => rfl,valueFits _,nofun⟩
    exact keptStart _ (fun _ => rfl) (fun _ => .inr rfl) rfl

theorem reachedInv (reached : device.Under Succeeds s) : Inv s := by
  refine underInvariant Inv ?_ ?_ reached
  · rintro s ⟨content,rfl⟩
    refine ⟨?_,fun _ _ => rfl,valueFits _,nofun⟩
    exact keptStart _ (fun _ => rfl) (fun _ => .inr rfl) rfl
  · exact fun s l t inv succeeds taken => invStep inv succeeds taken

theorem loadStored {read : Key → Option Value} {v : Key → Value} (stored : ∀ k, read k = some (v k))
    (fits : ∀ k, Fits k (v k)) (named : v .name ≠ empty .name) : networkLoad true read = (v,true) := by
  have name := fits .name
  have ch := fits .ch
  have pan := fits .pan
  cases text : v .name with
  | i32 | u16 =>
    rw [text] at name
    exact name.elim
  | str bytes =>
    rw [text] at name named
    have some : bytes.isEmpty = false := by
      rw [List.isEmpty_eq_false_iff]
      rintro rfl
      exact named rfl
    have short : bytes.length < 17 := name
    simp only [networkLoad,stored,text,if_pos short,some,Bool.not_false,Prod.mk.injEq,and_true]
    funext k
    cases k with
    | name => exact text.symm
    | ch =>
      cases number : v .ch with
      | i32 n => rfl
      | str | u16 =>
        rw [number] at ch
        exact ch.elim
    | pan =>
      cases number : v .pan with
      | u16 n => rfl
      | str | i32 =>
        rw [number] at pan
        exact pan.elim

/- Whoever is at it in whatever order, and whenever the power goes: with nobody at work the
flash has every value of the card that is not the empty one, and a card without empty values
comes back as it was. -/
theorem cardStored (reached : device.Under Succeeds s) (quiet : ∀ who, s.tasks who = []) :
    (∀ k, s.content.flash.Safe k ∧ Reflects empty s.content k) ∧
    ((∀ k, s.content.ram k ≠ empty k) → ∀ kept t,
      device.run s [.cut kept,.boot true fun _ => false] = some t →
        t.content.ram = s.content.ram ∧ t.content.marked = true) := by
  have inv := reachedInv reached
  have known := keptQuiet inv.kept quiet
  refine ⟨fun k => ⟨(known k).2,(known k).1⟩,fun whole kept t ran => ?_⟩
  have stored : ∀ k, (s.content.flash.cut kept).seen k = some (s.content.ram k) := by
    intro k
    obtain ⟨reflects,safe⟩ := known k
    rw [Durable.cutSafe safe]
    exact reflects.resolve_right (whole k)
  have loaded := loadStored stored inv.fits (whole .name)
  have back : step ⟨false,⟨empty,false,s.content.flash.cut kept⟩,fun _ => [],false,none⟩
      (.boot true fun _ => false) =
        some ⟨true,⟨s.content.ram,true,s.content.flash.cut kept⟩,fun _ => [],false,none⟩ := by
    simp [step,loaded]
  have same := Option.some.inj (back.symm.trans ran)
  rw [← same]
  exact ⟨rfl,rfl⟩

def coreS3 : Summary := ⟨⟨[0x43,0x6f,0x72,0x65,0x53,0x33],by decide⟩,15,0x1234⟩

def started : Device := ⟨true,⟨empty,false,.settled fun _ => none⟩,fun _ => [],false,none⟩

theorem startedUnder : device.Under Succeeds started :=
  .next (l := .boot true fun _ => false) (.start ⟨fun _ => none,rfl⟩)
    (show Succeeds _ (.boot true _) from ⟨rfl,fun _ => rfl⟩) rfl

theorem drained {who : Who} (ops : List (Op Key Value)) (reached : device.Under Succeeds s)
    (here : s.tasks who = ops) :
    ∃ t, device.run s (List.replicate ops.length (.work who true)) = some t ∧ device.Under Succeeds t ∧
      t.content = performAll ops s.content ∧ t.tasks = Function.update s.tasks who [] := by
  induction ops generalizing s with
  | nil => exact ⟨s,rfl,reached,rfl,by rw [← here, Function.update_eq_self]⟩
  | cons op rest ih =>
    have taken : step s (.work who true) =
        some ({s with content := (perform true op rest s.content).1}.takes who rest) := by
      unfold step
      dsimp only
      rw [here]
      dsimp only
      rw [performRest]
    have after : device.Under Succeeds _ := .next reached (show Succeeds s (.work who true) from rfl) taken
    obtain ⟨t,ran,under,content,tasks⟩ := ih after (Function.update_self ..)
    refine ⟨t,?_,under,content,tasks.trans (Function.update_idem ..)⟩
    rw [List.length_cons, List.replicate_succ, Machine.run, show device.step = step from rfl, taken]
    exact ran

theorem adoptHolds (d : Summary) (c : Content Key Value) : (performAll (adopt d) c).ram = d.value := by
  funext k
  cases k <;> rfl

theorem holdsAll {c : Content Key Value} {d : Summary} (holds : Holds c d) : c.ram = d.value := by
  obtain ⟨name,ch,pan⟩ := holds
  funext k
  cases k with
  | name => exact name
  | ch => exact ch
  | pan => exact pan

theorem joinedUnder : ∃ s, device.Under Succeeds s ∧ (∀ who, s.tasks who = []) ∧ s.content.ram = coreS3.value := by
  have begun : device.Under Succeeds (started.takes .worker (adopt coreS3)) :=
    .next startedUnder (show Succeeds started (.joined coreS3) from trivial) rfl
  obtain ⟨s,_,under,content,tasks⟩ := drained (adopt coreS3) begun (Function.update_self ..)
  refine ⟨s,under,fun who => ?_,content ▸ adoptHolds coreS3 _⟩
  rw [tasks]
  cases who <;> rfl

theorem cardStoredJoined : ∃ s, device.Under Succeeds s ∧ s.content.ram = coreS3.value ∧
    ∀ kept t, device.run s [.cut kept,.boot true fun _ => false] = some t → t.content.ram = coreS3.value := by
  obtain ⟨s,under,quiet,shown⟩ := joinedUnder
  have whole : ∀ k, s.content.ram k ≠ empty k := by
    intro k
    rw [shown]
    cases k <;> decide
  refine ⟨s,under,shown,fun kept t ran => ?_⟩
  exact ((cardStored under quiet).2 whole kept t ran).1.trans shown

/- A refresh that nobody disturbs shows the network of the stack, and the flash has it. -/
theorem refreshTrue {d : Summary} {differs : Bool} (reached : device.Under Succeeds s)
    (quiet : ∀ who, s.tasks who = []) (info : threadNetworkInfo s.live s.active = some d) (named : d.name.1 ≠ [])
    (begun : step s (.refresh differs) = some t) :
    ∃ n u, device.run t (List.replicate n (.work .holder true)) = some u ∧ (∀ who, u.tasks who = []) ∧
      u.content.ram = d.value ∧ ∀ k, d.value k ≠ empty k → u.content.flash.safe k = some (d.value k) := by
  have after : device.Under Succeeds t := .next reached (show Succeeds s (.refresh differs) from trivial) begun
  obtain ⟨⟨_,_,truth⟩,same⟩ := Option.ite_none_right_eq_some.mp begun
  have found : differs = decide (¬Holds s.content d) := truth (quiet .worker) d info
  have sync : syncNetworkFromStack s.live s.active s.content.marked differs = if differs then adopt d else [] := by
    simp [syncNetworkFromStack,info,named]
  rw [sync] at same
  cases Option.some.inj same
  obtain ⟨u,ran,under,content,tasks⟩ := drained _ after (Function.update_self ..)
  have idle : ∀ who, u.tasks who = [] := by
    intro who
    rw [tasks]
    cases who with
    | holder => exact Function.update_self ..
    | worker => exact quiet .worker
  have shown : u.content.ram = d.value := by
    rw [content]
    by_cases holds : Holds s.content d
    · rw [found, decide_eq_false (not_not.mpr holds)]
      exact holdsAll holds
    · rw [found, decide_eq_true holds]
      exact adoptHolds d s.content
  refine ⟨_,u,ran,idle,shown,fun k some => ?_⟩
  obtain ⟨reflects,safe⟩ := keptQuiet (reachedInv under).kept idle k
  rw [safe]
  rw [← shown] at some ⊢
  exact reflects.resolve_right some

def attached : Option ActiveDataset := some ⟨some coreS3.name,some 15,some 0x1234⟩

theorem refreshTrueStarted : ∃ s t n u, device.Under Succeeds s ∧ step s (.refresh true) = some t ∧
    device.run t (List.replicate n (.work .holder true)) = some u ∧ u.content.ram = coreS3.value := by
  have live : device.Under Succeeds {started with live := true, active := attached} :=
    .next startedUnder (show Succeeds started (.stack true attached) from trivial) rfl
  have info : threadNetworkInfo true attached = some coreS3 := rfl
  have begun : step {started with live := true, active := attached} (.refresh true) =
      some ({started with live := true, active := attached}.takes .holder (adopt coreS3)) := rfl
  obtain ⟨n,u,ran,_,shown,_⟩ := refreshTrue live (fun _ => rfl) info (by decide) begun
  exact ⟨_,_,n,u,live,begun,ran,shown⟩

theorem succeedsAll (labels : List Label) (all : ∀ l ∈ labels, ∀ s, Succeeds s l) (s : Device) :
    device.Meets Succeeds s labels := by
  induction labels generalizing s with
  | nil => trivial
  | cons l rest ih =>
    exact ⟨all l List.mem_cons_self s,fun t _ => ih (fun m mem => all m (List.mem_cons_of_mem l mem)) t⟩

/- A card of before is erased, and the worker stores a new one before the last step of it. -/
def hidingRun : List Label :=
  [.boot true (fun _ => false),.joined coreS3] ++ List.replicate 9 (.work .worker true) ++
  [.stack true none,.refresh false] ++ List.replicate 6 (.work .holder true) ++ [.joined coreS3] ++
  List.replicate 9 (.work .worker true) ++ [.work .holder true,.stack true attached]

/- In that run the network is the stack's and stands in the variables and in the flash, but the card is
not shown, and as a refresh finds no difference, it stays so. -/
theorem hiddenCard : ∃ s, device.Under Succeeds s ∧ threadNetworkInfo s.live s.active = some coreS3 ∧
    s.content.ram = coreS3.value ∧ s.content.marked = false ∧ ∃ t, step s (.refresh false) = some t ∧
      ∀ who, t.tasks who = [] := by
  have first : device.start (off fun _ => none) := ⟨_,rfl⟩
  have all : device.Meets Succeeds (off fun _ => none) hidingRun := by
    apply succeedsAll
    intro l mem s
    simp only [hidingRun,List.mem_append,List.mem_cons,List.mem_replicate,List.not_mem_nil,or_false] at mem
    rcases mem with ((((((rfl | rfl) | ⟨_,rfl⟩) | rfl | rfl) | ⟨_,rfl⟩) | rfl) | ⟨_,rfl⟩) | rfl | rfl <;>
      simp [Succeeds]
  have ran : (device.run (off fun _ => none) hidingRun).any (fun s =>
      threadNetworkInfo s.live s.active == some coreS3 && decide (Holds s.content coreS3) &&
      !s.content.marked && (s.tasks .holder).isEmpty && (s.tasks .worker).isEmpty && s.booted) = true := by
    decide +kernel
  obtain ⟨s,under,ends⟩ := underEnds Succeeds first all ran
  simp only [Bool.and_eq_true,beq_iff_eq,decide_eq_true_eq,Bool.not_eq_true',List.isEmpty_iff] at ends
  obtain ⟨⟨⟨⟨⟨info,holds⟩,hidden⟩,holder⟩,worker⟩,up⟩ := ends
  refine ⟨s,under,info,holdsAll holds,hidden,s.takes .holder [],?_,fun who => ?_⟩
  · have same : s.booted ∧ s.tasks .holder = [] ∧ (s.tasks .worker = [] →
        ∀ d ∈ threadNetworkInfo s.live s.active, false = decide (¬Holds s.content d)) := by
      refine ⟨up,holder,fun _ d mem => ?_⟩
      cases Option.some.inj (info.symm.trans mem)
      exact (decide_eq_false (not_not.mpr holds)).symm
    refine (if_pos same).trans ?_
    rw [syncNetworkFromStack, info]
    rfl
  · cases who with
    | holder => rfl
    | worker => exact worker

end EpskcCommissioner.NetworkCard
