import Mathlib.Logic.Function.Basic
import EpskcCommissioner.CameraFrame
import EpskcCommissioner.Machine

/-! The camera between its starts and stops: `qrscan_start`, `qrscan_stop` and `qrscan_poll`
against a V4L2 driver of which any call may fail. -/
namespace EpskcCommissioner.CameraPipeline
open CameraFrame

/- What the sensor reports, always the same, and the length of the buffers of its driver: a frame
fits into them, and its picture into the preview. -/
structure Format where
  w : Nat
  h : Nat
  fourcc : Fourcc
  length : Nat
  wide : 0 < w
  tall : 0 < h
  fits : pw w h ≤ previewW
  enough : bytesPerPixel fourcc * (w * h) ≤ length

/- The results of the calls that `qrscan_start` may make. -/
structure Answers where
  bspCameraStart : Bool
  opened : Bool
  gFmt : Bool
  reqbufs : Bool
  querybuf : Fin 3 → Bool
  mmap : Fin 3 → Bool
  qbuf : Fin 3 → Bool
  streamon : Bool
  quircNew : Bool
  quircResize : Bool
  lastGrey : Bool
  streamoff : Bool

/- The statics of `qrscan.c`; `registered` and `queued` are the driver's own, `lost` is history: a
buffer was not handed back since the last start. -/
structure Camera where
  fd : Bool
  buf : Fin 3 → Bool
  bufLen : Nat
  fourcc : Fourcc
  w : Nat
  h : Nat
  quirc : Option (Nat × Nat)
  running : Bool
  videoInited : Bool
  lastGrey : Option Nat
  registered : Bool
  queued : Fin 3 → Bool
  lost : Bool

def noBuffers : Fin 3 → Bool := fun _ => false

/- `VIDIOC_QBUF`: a buffer that is queued already is refused. -/
def qbuf (ok : Bool) (i : Fin 3) (s : Camera) : Camera × Bool :=
  if ok ∧ s.queued i = false then ({s with queued := Function.update s.queued i true},true) else (s,false)

/- `VIDIOC_STREAMOFF` hands back all buffers. -/
def streamoff (ok : Bool) (s : Camera) : Camera := if ok then {s with queued := noBuffers} else s

def qrscanTeardown (ok : Bool) (s : Camera) : Camera :=
  {(if s.fd then streamoff ok s else s) with fd := false, quirc := none, buf := noBuffers, running := false}

def requeue (a : Answers) : List (Fin 3) → Camera → Camera × Bool
  | [], s => (s,true)
  | i :: rest, s =>
    let (s,ok) := qbuf (a.qbuf i) i s
    if ok then requeue a rest s else (s,false)

def openBuffers (f : Format) (a : Answers) : List (Fin 3) → Camera → Camera × Bool
  | [], s => (s,true)
  | i :: rest, s =>
    if a.querybuf i = false then (s,false)
    else if a.mmap i = false then ({s with buf := Function.update s.buf i false},false)
    else
      let (s,ok) := qbuf (a.qbuf i) i {s with buf := Function.update s.buf i true, bufLen := f.length}
      if ok then openBuffers f a rest s else (s,false)

def buffers : List (Fin 3) := List.finRange 3

def failing (a : Answers) (s : Camera) : Camera × Bool := (qrscanTeardown a.streamoff s,false)

def warmStart (a : Answers) (s : Camera) : Camera × Bool :=
  let (s,ok) := requeue a buffers s
  if ok ∧ a.streamon then ({s with running := true, lost := false},true) else failing a s

def startDecoder (a : Answers) (s : Camera) : Camera × Bool :=
  if a.quircNew = false then failing a s
  else if a.quircResize = false then failing a {s with quirc := some (0,0)}
  else
    let s := {s with quirc := some (s.w,s.h)}
    let lastGrey := if s.lastGrey.isNone ∧ a.lastGrey then some (s.w * s.h) else s.lastGrey
    ({s with lastGrey := lastGrey, running := true, lost := false},true)

def coldStart (f : Format) (a : Answers) (s : Camera) : Camera × Bool :=
  if a.opened = false then (s,false)
  else
    let s := {s with fd := true}
    if a.gFmt = false then failing a s
    else
      let s := {s with w := f.w, h := f.h, fourcc := f.fourcc}
      if a.reqbufs = false then failing a s
      else
        let (s,ok) := openBuffers f a buffers {s with queued := noBuffers}
        if ok ∧ a.streamon then startDecoder a s else failing a s

/- `qrscan_start`; the driver registers its devices once and refuses it from then on. -/
def qrscanStart (f : Format) (a : Answers) (s : Camera) : Camera × Bool :=
  if s.running then (s,true)
  else if s.fd then warmStart a s
  else if s.videoInited then coldStart f a s
  else if a.bspCameraStart ∧ s.registered = false then coldStart f a {s with registered := true, videoInited := true}
  else (s,false)

def qrscanStop (ok : Bool) (s : Camera) : Camera :=
  if s.running then {streamoff ok s with running := false, lost := s.lost || !ok} else s

/- A call of `qrscan_poll`: the buffer that the driver gives with its bytes, whether it takes it
back, and what quirc makes of each candidate. -/
structure Poll where
  cap : Nat
  preview : Bool
  dqbuf : Option (Fin 3)
  src : List UInt8
  qbuf : Bool
  codes : List (Option (List UInt8))

def copied (cap : Nat) (codes : List (Option (List UInt8))) : Option (List UInt8) :=
  (codes.findSome? id).map (List.take (cap - 1))

/- Nothing where it would read or store what is not there. -/
def qrscanPoll (p : Poll) (s : Camera) : Option (Camera × Option (List UInt8)) :=
  if s.running = false ∨ p.cap = 0 then some (s,none)
  else
    match p.dqbuf with
    | none => some (s,none)
    | some i =>
      match s.quirc with
      | none => none
      | some (qw,qh) =>
        if s.buf i = false ∨ qw * qh ≠ s.w * s.h then none
        else do
          let grey ← toGrey s.fourcc p.src (s.w * s.h)
          let _mean ← meanOf grey
          if p.preview ∧ (s.h = 0 ∨ previewW < pw s.w s.h) then none
          else if s.lastGrey.any (fun size => size < s.w * s.h) then none
          else
            let s := {s with queued := Function.update s.queued i p.qbuf, lost := s.lost || !p.qbuf}
            some (s,copied p.cap p.codes)

inductive Label where
  | start (a : Answers)
  | stop (ok : Bool)
  | poll (p : Poll)

/- The driver fills its buffers, and gives one that is queued. -/
def Driven (f : Format) (s : Camera) (p : Poll) : Prop :=
  p.src.length = f.length ∧ ∀ i, p.dqbuf = some i → s.queued i = true

instance (f : Format) (s : Camera) (p : Poll) : Decidable (Driven f s p) := by
  unfold Driven
  infer_instance

def step (f : Format) (s : Camera) : Label → Option Camera
  | .start a => some (qrscanStart f a s).1
  | .stop ok => some (qrscanStop ok s)
  | .poll p => if Driven f s p then (qrscanPoll p s).map Prod.fst else none

def cold : Camera := ⟨false,noBuffers,0,.other,0,0,none,false,false,none,false,noBuffers,false⟩

def camera (f : Format) : Machine Camera Label := ⟨fun s => s = cold,step f⟩

structure Same (s t : Camera) : Prop where
  fd : t.fd = s.fd
  size : t.fourcc = s.fourcc ∧ t.w = s.w ∧ t.h = s.h
  quirc : t.quirc = s.quirc
  lastGrey : t.lastGrey = s.lastGrey
  once : t.registered = s.registered ∧ t.videoInited = s.videoInited

/- The pipeline is whole where the device is open; a buffer that was not lost is queued. -/
structure Whole (f : Format) (s : Camera) : Prop where
  buf : s.fd = true → ∀ i, s.buf i = true
  quirc : s.fd = true → s.quirc = some (f.w,f.h)
  size : s.fd = true → s.fourcc = f.fourcc ∧ s.w = f.w ∧ s.h = f.h
  runs : s.running = true → s.fd = true
  full : s.running = true → s.lost = false → ∀ i, s.queued i = true
  grey : ∀ n, s.lastGrey = some n → n = f.w * f.h
  once : s.registered = s.videoInited

variable {f : Format} {a : Answers} {s t u : Camera} {ok : Bool} {i : Fin 3}

theorem sameRefl (s : Camera) : Same s s := ⟨rfl,⟨rfl,rfl,rfl⟩,rfl,rfl,⟨rfl,rfl⟩⟩

theorem qbufCases (ok : Bool) (i : Fin 3) (s : Camera) :
    qbuf ok i s = ({s with queued := Function.update s.queued i true},true) ∨ qbuf ok i s = (s,false) := by
  unfold qbuf
  split
  · exact .inl rfl
  · exact .inr rfl

structure Queued (is : List (Fin 3)) (s t : Camera) : Prop where
  done : ∀ i ∈ is, t.queued i = true
  kept : ∀ i, s.queued i = true → t.queued i = true

theorem queuedNext {is : List (Fin 3)} (i : Fin 3)
    (rest : Queued is {s with queued := Function.update s.queued i true} t) : Queued (i :: is) s t := by
  have here : t.queued i = true := rest.kept i (Function.update_self ..)
  refine ⟨fun j mem => ?_,fun j before => ?_⟩
  · rcases List.mem_cons.mp mem with rfl | later
    · exact here
    · exact rest.done j later
  · by_cases same : j = i
    · subst same
      exact here
    · exact rest.kept j ((Function.update_of_ne same ..).trans before)

theorem requeueSame (is : List (Fin 3)) (s : Camera) :
    Same s (requeue a is s).1 ∧ (requeue a is s).1.buf = s.buf ∧
      ((requeue a is s).2 = true → Queued is s (requeue a is s).1) := by
  induction is generalizing s with
  | nil => exact ⟨sameRefl s,rfl,fun _ => ⟨nofun,fun _ before => before⟩⟩
  | cons i is ih =>
    unfold requeue
    rcases qbufCases (a.qbuf i) i s with taken | refused
    · rw [taken]
      obtain ⟨same,buf,queued⟩ := ih {s with queued := Function.update s.queued i true}
      exact ⟨⟨same.fd,same.size,same.quirc,same.lastGrey,same.once⟩,buf,fun ok => queuedNext i (queued ok)⟩
    · rw [refused]
      exact ⟨sameRefl s,rfl,nofun⟩

structure Mapped (is : List (Fin 3)) (s t : Camera) : Prop where
  done : ∀ i ∈ is, t.buf i = true
  kept : ∀ i, s.buf i = true → t.buf i = true

theorem openSame (is : List (Fin 3)) (s : Camera) :
    Same s (openBuffers f a is s).1 ∧
      ((openBuffers f a is s).2 = true → Queued is s (openBuffers f a is s).1 ∧ Mapped is s (openBuffers f a is s).1) := by
  induction is generalizing s with
  | nil => exact ⟨sameRefl s,fun _ => ⟨⟨nofun,fun _ before => before⟩,⟨nofun,fun _ before => before⟩⟩⟩
  | cons i is ih =>
    unfold openBuffers
    split
    · exact ⟨sameRefl s,nofun⟩
    · split
      · exact ⟨⟨rfl,⟨rfl,rfl,rfl⟩,rfl,rfl,⟨rfl,rfl⟩⟩,nofun⟩
      · rcases qbufCases (a.qbuf i) i {s with buf := Function.update s.buf i true, bufLen := f.length} with taken | refused
        · rw [taken]
          obtain ⟨same,held⟩ := ih {s with
            buf := Function.update s.buf i true, bufLen := f.length, queued := Function.update s.queued i true}
          refine ⟨⟨same.fd,same.size,same.quirc,same.lastGrey,same.once⟩,fun ok => ?_⟩
          obtain ⟨queued,mapped⟩ := held ok
          have next := queuedNext (s := {s with buf := Function.update s.buf i true, bufLen := f.length}) i queued
          have here := mapped.kept i (Function.update_self ..)
          refine ⟨⟨next.done,next.kept⟩,⟨fun j mem => ?_,fun j before => ?_⟩⟩
          · rcases List.mem_cons.mp mem with rfl | later
            · exact here
            · exact mapped.done j later
          · by_cases same : j = i
            · subst same
              exact here
            · exact mapped.kept j ((Function.update_of_ne same ..).trans before)
        · rw [refused]
          exact ⟨⟨rfl,⟨rfl,rfl,rfl⟩,rfl,rfl,⟨rfl,rfl⟩⟩,nofun⟩

structure Down (s t : Camera) : Prop where
  fd : t.fd = false
  running : t.running = false
  lastGrey : t.lastGrey = s.lastGrey
  once : t.registered = s.registered ∧ t.videoInited = s.videoInited

theorem failingDown (a : Answers) (s : Camera) : Down s (failing a s).1 := by
  unfold failing qrscanTeardown streamoff
  cases s.fd <;> cases a.streamoff <;> exact ⟨rfl,rfl,rfl,⟨rfl,rfl⟩⟩

theorem downWhole (grey : ∀ n, s.lastGrey = some n → n = f.w * f.h) (once : s.registered = s.videoInited)
    (down : Down s t) : Whole f t where
  buf open_ := nomatch down.fd.symm.trans open_
  quirc open_ := nomatch down.fd.symm.trans open_
  size open_ := nomatch down.fd.symm.trans open_
  runs running := nomatch down.running.symm.trans running
  full running := nomatch down.running.symm.trans running
  grey n some := grey n (down.lastGrey.symm.trans some)
  once := down.once.1.trans (once.trans down.once.2.symm)

theorem downAfter (same : Same s t) (down : Down t u) : Down s u :=
  ⟨down.fd,down.running,down.lastGrey.trans same.lastGrey,
    ⟨down.once.1.trans same.once.1,down.once.2.trans same.once.2⟩⟩

theorem failingWhole (grey : ∀ n, s.lastGrey = some n → n = f.w * f.h) (once : s.registered = s.videoInited)
    (same : Same s t) (a : Answers) : Whole f (failing a t).1 :=
  downWhole grey once (downAfter same (failingDown a t))

theorem buffersAll (i : Fin 3) : i ∈ buffers := List.mem_finRange i

theorem warmWhole (whole : Whole f s) (open_ : s.fd = true) (a : Answers) : Whole f (warmStart a s).1 := by
  obtain ⟨same,buf,queued⟩ := requeueSame (a := a) buffers s
  unfold warmStart
  dsimp only
  split
  · rename_i ready
    refine ⟨fun _ => ?_,fun _ => ?_,fun _ => ?_,fun _ => ?_,fun _ _ i => ?_,?_,?_⟩
    · exact buf ▸ whole.buf open_
    · exact same.quirc.trans (whole.quirc open_)
    · obtain ⟨fourcc,w,h⟩ := whole.size open_
      exact ⟨same.size.1.trans fourcc,same.size.2.1.trans w,same.size.2.2.trans h⟩
    · exact same.fd.trans open_
    · exact (queued ready.1).done i (buffersAll i)
    · exact fun n some => whole.grey n (same.lastGrey.symm.trans some)
    · exact same.once.1.trans (whole.once.trans same.once.2.symm)
  · exact failingWhole whole.grey whole.once same a

structure Streams (f : Format) (s : Camera) : Prop where
  fd : s.fd = true
  buf : ∀ i, s.buf i = true
  queued : ∀ i, s.queued i = true
  size : s.fourcc = f.fourcc ∧ s.w = f.w ∧ s.h = f.h
  grey : ∀ n, s.lastGrey = some n → n = f.w * f.h
  once : s.registered = s.videoInited

theorem decoderWhole (streams : Streams f s) (a : Answers) : Whole f (startDecoder a s).1 := by
  unfold startDecoder
  split
  · exact failingWhole streams.grey streams.once (sameRefl s) a
  · split
    · exact failingWhole (s := {s with quirc := some (0,0)}) streams.grey streams.once (sameRefl _) a
    · obtain ⟨fourcc,w,h⟩ := streams.size
      refine ⟨fun _ => streams.buf,fun _ => ?_,fun _ => ⟨fourcc,w,h⟩,fun _ => streams.fd,fun _ _ => streams.queued,?_,streams.once⟩
      · dsimp only
        rw [w, h]
      · intro n some
        dsimp only at some
        split at some
        · cases some
          rw [w, h]
        · exact streams.grey n some

theorem coldWhole (whole : Whole f s) (a : Answers) : Whole f (coldStart f a s).1 := by
  unfold coldStart
  dsimp only
  split
  · exact whole
  · split
    · exact failingWhole (s := {s with fd := true}) whole.grey whole.once (sameRefl _) a
    · split
      · exact failingWhole (s := {s with fd := true, w := f.w, h := f.h, fourcc := f.fourcc}) whole.grey whole.once (sameRefl _) a
      · obtain ⟨same,held⟩ := openSame (f := f) (a := a) buffers
          {s with fd := true, w := f.w, h := f.h, fourcc := f.fourcc, queued := noBuffers}
        split
        · rename_i ready
          obtain ⟨queued,mapped⟩ := held ready.1
          exact decoderWhole ⟨same.fd,fun i => mapped.done i (buffersAll i),fun i => queued.done i (buffersAll i),same.size,
            fun n some => whole.grey n (same.lastGrey.symm.trans some),same.once.1.trans (whole.once.trans same.once.2.symm)⟩ a
        · exact failingWhole
            (s := {s with fd := true, w := f.w, h := f.h, fourcc := f.fourcc, queued := noBuffers}) whole.grey whole.once same a

theorem startWhole (whole : Whole f s) (a : Answers) : Whole f (qrscanStart f a s).1 := by
  unfold qrscanStart
  split
  · exact whole
  · rename_i stopped
    split
    · rename_i open_
      exact warmWhole whole open_ a
    · rename_i closed
      split
      · exact coldWhole whole a
      · split
        · refine coldWhole ?_ a
          exact ⟨whole.buf,whole.quirc,whole.size,whole.runs,whole.full,whole.grey,rfl⟩
        · exact whole

theorem stopWhole (whole : Whole f s) (ok : Bool) : Whole f (qrscanStop ok s) := by
  unfold qrscanStop streamoff
  split
  · cases ok <;> exact ⟨whole.buf,whole.quirc,whole.size,nofun,nofun,whole.grey,whole.once⟩
  · exact whole

/- In a run the poll has all that it needs: the buffer is mapped, the decoder has the size of the
frame, and so has the copy for the dump. -/
theorem pollCases (whole : Whole f s) {p : Poll} (driven : Driven f s p) :
    qrscanPoll p s = some (s,none) ∨ ∃ i, p.dqbuf = some i ∧ s.running = true ∧
      qrscanPoll p s = some ({s with queued := Function.update s.queued i p.qbuf, lost := s.lost || !p.qbuf},
        copied p.cap p.codes) := by
  unfold qrscanPoll
  split
  · exact .inl rfl
  · rename_i active
    have running : s.running = true := eq_true_of_ne_false fun stopped => active (.inl stopped)
    have open_ := whole.runs running
    obtain ⟨fourcc,w,h⟩ := whole.size open_
    cases gives : p.dqbuf with
    | none => exact .inl rfl
    | some i =>
      refine .inr ⟨i,rfl,running,?_⟩
      have enough : bytesPerPixel s.fourcc * (s.w * s.h) ≤ p.src.length := by
        rw [fourcc, w, h, driven.1]
        exact f.enough
      obtain ⟨grey,same,long,_⟩ := toGreyWhole enough
      have pixels : grey.length ≠ 0 := by
        rw [long, w, h]
        exact Nat.mul_ne_zero (Nat.ne_of_gt f.wide) (Nat.ne_of_gt f.tall)
      have mean : ∃ mean, meanOf grey = some mean := ⟨_,if_neg pixels⟩
      obtain ⟨mean,meanSame⟩ := mean
      have preview : ¬ (p.preview = true ∧ (s.h = 0 ∨ previewW < pw s.w s.h)) := by
        rw [w, h]
        exact fun bad => bad.2.elim (Nat.ne_of_gt f.tall) (Nat.not_lt.mpr f.fits)
      have dump : ¬ s.lastGrey.any (fun size => size < s.w * s.h) = true := by
        intro small
        obtain ⟨n,some,less⟩ := (Option.any_eq_true _ _).mp small
        have same := whole.grey n some
        rw [w, h, same] at less
        exact Nat.lt_irrefl _ (of_decide_eq_true less)
      rw [whole.quirc open_]
      dsimp only
      rw [if_neg (by rw [whole.buf open_ i, w, h]; exact fun bad => bad.elim Bool.noConfusion fun other => other rfl), same]
      change (meanOf grey).bind _ = _
      rw [meanSame]
      change (if p.preview = true ∧ (s.h = 0 ∨ previewW < pw s.w s.h) then none else _) = _
      rw [if_neg preview, if_neg dump]

theorem pollWhole (whole : Whole f s) {p : Poll} (driven : Driven f s p) {r : Camera × Option (List UInt8)}
    (polled : qrscanPoll p s = some r) : Whole f r.1 := by
  rcases pollCases whole driven with same | ⟨i,gives,running,same⟩
  · cases Option.some.inj (same.symm.trans polled)
    exact whole
  · cases Option.some.inj (same.symm.trans polled)
    refine ⟨whole.buf,whole.quirc,whole.size,whole.runs,fun _ kept j => ?_,whole.grey,whole.once⟩
    obtain ⟨before,back⟩ := Bool.or_eq_false_iff.mp kept
    by_cases here : j = i
    · subst here
      exact (Function.update_self ..).trans ((Bool.not_eq_false' _).mp back)
    · exact (Function.update_of_ne here ..).trans (whole.full running before j)

theorem wholeReachable (reached : (camera f).Reachable s) : Whole f s := by
  refine reachableInvariant (Whole f) ?_ ?_ reached
  · rintro s rfl
    exact ⟨nofun,nofun,nofun,nofun,nofun,nofun,rfl⟩
  · intro s l t whole taken
    cases l with
    | start a =>
      cases Option.some.inj taken
      exact startWhole whole a
    | stop ok =>
      cases Option.some.inj taken
      exact stopWhole whole ok
    | poll p =>
      obtain ⟨driven,polled⟩ := Option.ite_none_right_eq_some.mp taken
      obtain ⟨r,gives,rfl⟩ := Option.map_eq_some_iff.mp polled
      exact pollWhole whole driven gives

def good : Answers := ⟨true,true,true,true,fun _ => true,fun _ => true,fun _ => true,true,true,true,true,true⟩

theorem openGood {is : List (Fin 3)} (once : is.Nodup) (free : ∀ i ∈ is, s.queued i = false) :
    (openBuffers f good is s).2 = true := by
  induction is generalizing s with
  | nil => rfl
  | cons i is ih =>
    obtain ⟨fresh,once⟩ := List.nodup_cons.mp once
    have first : s.queued i = false := free i List.mem_cons_self
    have taken : qbuf true i {s with buf := Function.update s.buf i true, bufLen := f.length} =
        ({s with buf := Function.update s.buf i true, bufLen := f.length, queued := Function.update s.queued i true},true) :=
      if_pos ⟨rfl,first⟩
    have next : openBuffers f good (i :: is) s =
        openBuffers f good is {s with
          buf := Function.update s.buf i true, bufLen := f.length, queued := Function.update s.queued i true} := by
      change (match qbuf true i _ with | (t,ok) => if ok = true then openBuffers f good is t else (t,false)) = _
      rw [taken]
      rfl
    rw [next]
    refine ih once fun j mem => ?_
    have apart : j ≠ i := fun same => fresh (same ▸ mem)
    exact (Function.update_of_ne apart ..).trans (free j (List.mem_cons_of_mem _ mem))

theorem coldGood (s : Camera) : (coldStart f good s).2 = true ∧ (coldStart f good s).1.running = true := by
  let before : Camera := {s with fd := true, w := f.w, h := f.h, fourcc := f.fourcc, queued := noBuffers}
  have opened : (openBuffers f good buffers before).2 = true := openGood (List.nodup_finRange 3) fun _ _ => rfl
  have same : coldStart f good s =
      if (openBuffers f good buffers before).2 = true ∧ good.streamon = true then
        startDecoder good (openBuffers f good buffers before).1
      else failing good (openBuffers f good buffers before).1 := rfl
  rw [same, if_pos ⟨opened,rfl⟩]
  exact ⟨rfl,rfl⟩

theorem startGood (once : s.registered = s.videoInited) (closed : s.fd = false) (stopped : s.running = false) :
    (qrscanStart f good s).2 = true ∧ (qrscanStart f good s).1.running = true := by
  unfold qrscanStart
  rw [stopped, closed, if_neg Bool.false_ne_true, if_neg Bool.false_ne_true]
  split
  · exact coldGood s
  · rename_i fresh
    have fresh := eq_false_of_ne_true fresh
    rw [if_pos ⟨rfl,once.trans fresh⟩]
    exact coldGood _

theorem startRunning (running : s.running = true) (a : Answers) : qrscanStart f a s = (s,true) := if_pos running

/- A start that goes wrong leaves nothing that the next one could trip over. -/
theorem restartGood (whole : Whole f s) :
    (qrscanStart f good (qrscanStart f good s).1).2 = true ∧ (qrscanStart f good (qrscanStart f good s).1).1.running = true := by
  cases running : s.running with
  | true =>
    rw [startRunning running, startRunning running]
    exact ⟨rfl,running⟩
  | false =>
    cases open_ : s.fd with
    | false =>
      have started := (startGood (f := f) whole.once open_ running).2
      rw [startRunning started]
      exact ⟨rfl,started⟩
    | true =>
      have warm : qrscanStart f good s = warmStart good s := by
        unfold qrscanStart
        rw [running, open_, if_neg Bool.false_ne_true, if_pos rfl]
      obtain ⟨same,_,_⟩ := requeueSame (a := good) buffers s
      rw [warm]
      unfold warmStart
      dsimp only
      split
      · rw [startRunning rfl]
        exact ⟨rfl,rfl⟩
      · have down := failingDown good (requeue good buffers s).1
        have once : s.registered = s.videoInited := whole.once
        refine startGood ?_ down.fd down.running
        rw [down.once.1, down.once.2, same.once.1, same.once.2, once]

/- Whichever calls of the driver fail, a camera that runs has its device, its buffers and its
decoder, a poll reads and stores nothing out of place, every buffer that was taken back is with
the driver, and the camera starts again at the second attempt at the latest. -/
theorem cameraWhole (reached : (camera f).Reachable s) :
    (s.running = true → s.fd = true ∧ (∀ i, s.buf i = true) ∧ s.quirc = some (f.w,f.h)) ∧
    (s.running = true → s.lost = false → ∀ i, s.queued i = true) ∧
    (∀ p, Driven f s p → (qrscanPoll p s).isSome = true) ∧
    (qrscanStart f good (qrscanStart f good s).1).2 = true := by
  have whole := wholeReachable reached
  refine ⟨fun running => ?_,whole.full,fun p driven => ?_,(restartGood whole).1⟩
  · have open_ := whole.runs running
    exact ⟨open_,whole.buf open_,whole.quirc open_⟩
  · rcases pollCases whole driven with same | ⟨i,_,_,same⟩
    · rw [same]
      rfl
    · rw [same]
      rfl

/- A camera of the size that the code expects, started, and stopped with a failing call. -/
def qvga : Format := ⟨320,240,.yuyv,153600,by decide,by decide,by decide,by decide⟩

def stopped : Camera := qrscanStop false (qrscanStart qvga good cold).1

theorem cameraWholeStopped : (qrscanStart qvga good stopped).2 = false ∧
    (qrscanStart qvga good (qrscanStart qvga good stopped).1).2 = true := by
  have ran : (camera qvga).run cold [.start good,.stop false] = some stopped := rfl
  exact ⟨by decide,(cameraWhole (reachableRun (.start rfl) ran)).2.2.2⟩

end EpskcCommissioner.CameraPipeline
