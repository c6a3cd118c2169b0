import Mathlib.Data.List.FinRange
import EpskcCommissioner.CachedMemory
import EpskcCommissioner.LogText

/-! `log_ring.c`: two halves of 1024 slots in external memory, one written by the running
boot and one left by the boot before. The pending lines and the counters are in RAM that a
reset clears. A critical section is the list of the stores that it makes, in order. -/
namespace EpskcCommissioner.LogRing
open LogText

abbrev Half := Fin 2
abbrev Index := Fin 1024

/- `s_ring`, cell by cell; a slot's text is its bytes below `LOG_RING_TEXT`. -/
inductive Loc where
  | magic | layout | bootCount | active
  | halfMagic (h : Half) | halfBootCount (h : Half) | bootId (h : Half)
  | seq (h : Half) (i : Index) | uptimeMs (h : Half) (i : Index) | check (h : Half) (i : Index)
  | text (h : Half) (i : Index) (j : Nat)
  deriving DecidableEq, Repr

abbrev Cell : Loc → Type
  | .bootId _ => UInt64
  | .text _ _ _ => UInt8
  | _ => UInt32

/- Cache lines of 64 bytes: a slot is three of them, its numbers are in the first. -/
inductive Line where
  | ring
  | half (h : Half)
  | slot (h : Half) (i : Index) (part : Fin 3)
  deriving DecidableEq, Repr

def line : Loc → Line
  | .magic | .layout | .bootCount | .active => .ring
  | .halfMagic h | .halfBootCount h | .bootId h => .half h
  | .seq h i | .uptimeMs h i | .check h i => .slot h i 0
  | .text h i j => .slot h i (if j < 52 then 0 else if j < 116 then 1 else 2)

abbrev Cells := ∀ l, Cell l
abbrev Memory := CachedMemory Cell

/- `slot_t` -/
structure Slot where
  seq : UInt32
  uptimeMs : UInt32
  check : UInt32
  text : Nat → UInt8

def slotAt (cells : Cells) (h : Half) (i : Index) : Slot :=
  ⟨cells (.seq h i),cells (.uptimeMs h i),cells (.check h i),fun j => cells (.text h i j)⟩

def hasNul (text : Nat → UInt8) : Bool := (List.range logRingText).any (fun j => text j == 0)

def cString (text : Nat → UInt8) : List UInt8 :=
  ((List.range logRingText).map text).takeWhile (fun b => b != 0)

def littleEndian (w : UInt32) : List UInt8 :=
  [w.toUInt8,(w >>> 8).toUInt8,(w >>> 16).toUInt8,(w >>> 24).toUInt8]

def checkOf (seq uptimeMs : UInt32) (bootId : UInt64) (text : List UInt8) : UInt32 :=
  (littleEndian seq ++ littleEndian uptimeMs ++ littleEndian bootId.toUInt32 ++
    littleEndian (bootId >>> 32).toUInt32 ++ text).foldl
      (fun h b => (h ^^^ b.toUInt32) * 16777619) 2166136261

def slotCheck (s : Slot) (bootId : UInt64) : UInt32 :=
  checkOf s.seq s.uptimeMs bootId (cString s.text)

def slotValid (s : Slot) (bootId : UInt64) : Bool :=
  s.seq != 0 && hasNul s.text && s.check == slotCheck s bootId

/- `pending_t`; handle 0 is NULL and its text is its first `len` bytes. -/
structure Pending where
  task : Nat
  text : Text
  deriving DecidableEq, Repr

structure Ram where
  cur : Option Half
  prev : Option Half
  latest : UInt32
  lastMs : UInt32
  prevLatest : UInt32
  prevLastMs : UInt32
  pending : Fin 4 → Pending
  victim : Nat

def Ram.cleared : Ram := ⟨none,none,0,0,0,0,fun _ => ⟨0,.empty⟩,0⟩

/- A line as a critical section commits it: the pending text, if any, and what follows. -/
structure Commit where
  seq : UInt32
  uptimeMs : UInt32
  held : Option Text
  segment : List UInt8
  deriving DecidableEq, Repr

def Commit.start (c : Commit) : Text := c.held.getD .empty
def Commit.text (c : Commit) : Text := appendClean c.start c.segment

inductive Store where
  | seq (v : UInt32)
  | text (j : Nat) (b : UInt8)
  | uptimeMs (v : UInt32)
  | check
  deriving DecidableEq, Repr

def textStores (j : Nat) : List UInt8 → List Store
  | [] => []
  | b :: rest => .text j b :: textStores (j + 1) rest

/- The `memcpy` of a pending text, with its NUL. -/
def heldStores : Option Text → List Store
  | none => []
  | some t => textStores 0 t.bytes ++ [.text t.bytes.length 0]

/- `begin_locked` and the bytes of the text. -/
def Commit.body (c : Commit) : List Store :=
  [.seq 0,.text 0 0] ++ heldStores c.held ++
    textStores c.start.bytes.length (cleaned c.start.bytes.length 0 c.segment)

/- The NUL that ends `append_clean`, and `finish_locked`. -/
def Commit.finish (c : Commit) : List Store :=
  [.text c.text.bytes.length 0,.uptimeMs c.uptimeMs,.seq c.seq,.check]

def Commit.stores (c : Commit) : List Store := c.body ++ c.finish

def slotIndex (seq : UInt32) : Index := ⟨(seq - 1).toNat % 1024,Nat.mod_lt _ (by decide)⟩

def perform (h : Half) (i : Index) (m : Memory) : Store → Memory
  | .seq v => m.store (.seq h i) v
  | .text j b => m.store (.text h i j) b
  | .uptimeMs v => m.store (.uptimeMs h i) v
  | .check => m.store (.check h i) (slotCheck (slotAt m.view h i) (m.view (.bootId h)))

def Ram.setPending (k : Fin 4) (v : Pending) (ram : Ram) : Ram :=
  {ram with pending := Function.update ram.pending k v}

/- `commit_locked`, what it does to the RAM. -/
def commitLocked (p : Option (Fin 4)) (segment : List UInt8) (nowMs : UInt32) (ram : Ram) :
    Ram × Commit :=
  let seq := ram.latest + 1
  let emptied := match p with
    | none => ram
    | some k => ram.setPending k ⟨0,.empty⟩
  ({emptied with latest := seq, lastMs := nowMs},
    ⟨seq,nowMs,p.map (fun k => (ram.pending k).text),segment⟩)

def findPending (task : Nat) (ram : Ram) : Option (Fin 4) :=
  (List.finRange 4).find? (fun k => (ram.pending k).task == task)

def victimOf (ram : Ram) : Fin 4 := ⟨ram.victim % 4,Nat.mod_lt _ (by decide)⟩

def claimPending (task : Nat) (nowMs : UInt32) (ram : Ram) : Fin 4 × Ram × List Commit :=
  match findPending 0 ram with
  | some k => (k,ram.setPending k ⟨task,.empty⟩,[])
  | none =>
    let k := victimOf ram
    let (ram,c) := commitLocked (some k) [] nowMs {ram with victim := ram.victim + 1}
    (k,ram.setPending k ⟨task,.empty⟩,[c])

/- A pending slot that had nothing to commit when its newline came. -/
def freePending (p : Option (Fin 4)) (ram : Ram) : Ram :=
  match p with
  | none => ram
  | some k => ram.setPending k {ram.pending k with task := 0}

/- The loop of `ingest` over the rest of the text, with the segment read so far. -/
def ingestLoop (task : Nat) (nowMs : UInt32) :
    List UInt8 → List UInt8 → Option (Fin 4) → Ram → Ram × List Commit
  | [], segment, p, ram =>
    if segment = [] then (ram,[])
    else
      let (k,ram,commits) := match p with
        | some k => (k,ram,[])
        | none => claimPending task nowMs ram
      let text := appendClean (ram.pending k).text segment
      (ram.setPending k {ram.pending k with text := text},commits)
  | b :: rest, segment, p, ram =>
    if b ≠ 0x0a then ingestLoop task nowMs rest (segment ++ [b]) p ram
    else if segment ≠ [] ∨ p.any (fun k => (ram.pending k).text.bytes ≠ []) then
      let (ram,c) := commitLocked p segment nowMs ram
      let (ram,commits) := ingestLoop task nowMs rest [] none ram
      (ram,c :: commits)
    else ingestLoop task nowMs rest [] none (freePending p ram)

def ingest (task : Nat) (nowMs : UInt32) (text : List UInt8) (ram : Ram) : Ram × List Commit :=
  if ram.cur.isNone || text.isEmpty then (ram,[])
  else ingestLoop task nowMs text [] (findPending task ram) ram

def logRingLine (nowMs : UInt32) (text : List UInt8) (ram : Ram) : Ram × List Commit :=
  if ram.cur.isNone then (ram,[])
  else
    let (ram,c) := commitLocked none text nowMs ram
    (ram,[c])

/- `note_written` over the lines of one critical section. -/
def noteWritten (commits : List Commit) : UInt32 × UInt32 :=
  commits.foldl (fun written c => (if written.1 = 0 then c.seq else written.1,c.seq)) (0,0)

def slotLines (h : Half) (i : Index) : List Line := [.slot h i 0,.slot h i 1,.slot h i 2]

/- The cache lines that `write_back` pushes out, in order. -/
def writeBackLines (h : Half) (first last : UInt32) : List Line :=
  if first = 0 then []
  else if (last - first).toNat ≥ 1024 then (List.finRange 1024).flatMap (slotLines h)
  else (List.range ((last - first).toNat + 1)).flatMap (fun n =>
    slotLines h (slotIndex (first + UInt32.ofNat n)))

def ringMagic : UInt32 := 0x52474f4c
def halfMagic : UInt32 := 0x48474f4c

/- `sizeof(ring_t)` -/
def ringLayout : UInt32 := 64 + 2 * (64 + 1024 * 192)

def halfOf (active : UInt32) : Half := ⟨active.toNat % 2,Nat.mod_lt _ (by decide)⟩

/- `log_ring_init` trusts the header: its newest half is a boot's. -/
def trusted (cells : Cells) : Bool :=
  cells .magic == ringMagic && cells .layout == ringLayout && cells .active < 2 &&
    cells (.halfMagic (halfOf (cells .active))) == halfMagic &&
    cells (.halfBootCount (halfOf (cells .active))) == cells .bootCount

/- One slot of the loop of `recover_previous`. -/
def scanSlot (h : Half) (cells : Cells) (best : UInt32 × UInt32) (i : Index) : UInt32 × UInt32 :=
  let s := slotAt cells h i
  if s.seq > best.1 && slotValid s (cells (.bootId h)) then (s.seq,s.uptimeMs) else best

def scan (h : Half) (cells : Cells) : UInt32 × UInt32 :=
  (List.finRange 1024).foldl (scanSlot h cells) (0,0)

def Ram.setPrevious (h : Half) (best : UInt32 × UInt32) (ram : Ram) : Ram :=
  {ram with prev := some h, prevLatest := best.1, prevLastMs := best.2}

def recoverPrevious (h : Half) (cells : Cells) (ram : Ram) : Ram :=
  ram.setPrevious h (scan h cells)

/- The header of the ring that `log_ring_init` leaves. -/
def initRing (m : Memory) : Memory :=
  if trusted m.view then
    let m := m.store .bootCount (m.view .bootCount + 1)
    m.store .active (m.view .active ^^^ 1)
  else
    (((m.store .magic ringMagic).store .layout ringLayout).store .bootCount 1).store .active 0

def initHalf (bootId : UInt64) (m : Memory) : Memory :=
  let h := halfOf (m.view .active)
  (((m.store (.halfMagic h) 0).store (.halfBootCount h) (m.view .bootCount)).store
    (.bootId h) bootId).store (.halfMagic h) halfMagic

def initMemory (bootId : UInt64) (m : Memory) : Memory :=
  let m := initHalf bootId (initRing m)
  (m.writeBack line .ring).writeBack line (.half (halfOf (m.view .active)))

def Ram.start (h : Half) (ram : Ram) : Ram := {ram with latest := 0, cur := some h}

def initRam (m : Memory) (ram : Ram) : Ram :=
  (if trusted m.view then recoverPrevious (halfOf (m.view .active)) m.view ram else ram).start
    (halfOf ((initRing m).view .active))

inductive Which where
  | current | previous
  deriving DecidableEq, Repr

def halfFor (ram : Ram) : Which → Option Half
  | .current => ram.cur
  | .previous => ram.prev

theorem ringRuns {ram : Ram} (cur : ram.cur ≠ none) : ram.cur.isNone = false :=
  Option.isNone_eq_false_iff.mpr (Option.isSome_iff_ne_none.mpr cur)

/- `log_ring_line_t` -/
structure LineOut where
  seq : UInt32
  uptimeMs : UInt32
  text : Nat → UInt8

def logRingGet (boot : Which) (seq : UInt32) (cells : Cells) (ram : Ram) : Option LineOut :=
  match halfFor ram boot with
  | none => none
  | some h =>
    if seq = 0 then none
    else
      let latest := if some h = ram.cur then ram.latest else ram.prevLatest
      let copy := slotAt cells h (slotIndex seq)
      if !(seq ≤ latest && (latest - seq).toNat < 1024) then none
      else if copy.seq ≠ seq || !slotValid copy (cells (.bootId h)) then none
      else some ⟨seq,copy.uptimeMs,copy.text⟩

end EpskcCommissioner.LogRing
