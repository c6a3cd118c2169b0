import EpskcCommissioner.CBuffer
import EpskcCommissioner.FirstOfEach
import EpskcCommissioner.WifiDriver

/-! `app_wifi_scan`: the networks that the driver has found, each name once, for the Wi-Fi page;
and whose the driver's list is on every way out. -/
namespace EpskcCommissioner.WifiScan
open CBuffer (Stored)
open FirstOfEach WifiDriver

/- `wifi_ap_record_t`: the name is a string in a field of 33 bytes. `WIFI_AUTH_OPEN` is zero. -/
structure ApRecord where
  ssid : CString
  rssi : Int
  authmode : Nat
  fits : ssid.bytes.length ≤ 32

/- `wifi_scan_rec_t`, with the string in its `ssid`. -/
structure ScanRec where
  ssid : List UInt8
  rssi : Int
  secured : Bool
  deriving DecidableEq, Repr

/- What the driver, the heap and FreeRTOS answer. `s_wifi_op_lock` is NULL where there is no
answer to the take, and the driver counts what it has found in 16 bits. -/
structure Answers where
  take : Option Bool
  start : EspErr
  num : EspErr
  calloc : Bool
  records : EspErr
  found : List ApRecord
  counted : found.length < 65536

/- The driver's list of results and how often it was released, the operation lock, and the
blocks of the heap that are in use. -/
structure Radio where
  list : Option (List ApRecord)
  releases : Nat
  opLock : Bool
  heap : Nat

def espWifiClearApList (r : Radio) : Radio := {r with list := none, releases := r.releases + 1}

/- It gives up to `n` records and frees the list. -/
def espWifiScanGetApRecords (n : Nat) (r : Radio) : List ApRecord × Radio :=
  ((r.list.getD []).take n,espWifiClearApList r)

/- `out[m] = ..` -/
def storeRec (out : List ScanRec) (m : Nat) (rec : ScanRec) : Stored (List ScanRec) :=
  if m < out.length then .ok (out.set m rec) else .error .store

/- What is copied of a record; `snprintf` cuts the name to its field. -/
def ApRecord.scanned (ap : ApRecord) : ScanRec := ⟨ap.ssid.bytes.take 32,ap.rssi,ap.authmode != 0⟩

/- The loop over the records: the array and how much of it is in use. -/
def scanLoop (max : Nat) : List ApRecord → List ScanRec → Nat → Stored (List ScanRec × Nat)
  | [], out, m => .ok (out,m)
  | ap :: rest, out, m =>
    if max ≤ m then .ok (out,m)
    else if ap.ssid.bytes = [] then scanLoop max rest out m
    else if (out.take m).any (fun rec => rec.ssid = ap.ssid.bytes) then scanLoop max rest out m
    else do
      let out ← storeRec out m ap.scanned
      scanLoop max rest out (m + 1)

/- What stands behind `done:`. -/
def scanDone (owned allocated : Bool) (r : Radio) : Radio :=
  let r := if owned then espWifiClearApList r else r
  let r := if allocated then {r with heap := r.heap - 1} else r
  {r with opLock := false}

def appWifiScan (a : Answers) (max : Int) (out : Option (List ScanRec)) (r : Radio) :
    Stored (Nat × Option (List ScanRec) × Radio) :=
  match out with
  | none => .ok (0,out,r)
  | some recs =>
    if max ≤ 0 ∨ a.take ≠ some true then .ok (0,out,r)
    else
      let r := {r with opLock := true}
      if a.start ≠ espOk then .ok (0,out,scanDone false false r)
      else
        let r := {r with list := some a.found}
        if a.num ≠ espOk ∨ a.found.length = 0 then .ok (0,out,scanDone true false r)
        else if !a.calloc then .ok (0,out,scanDone true false r)
        else
          let r := {r with heap := r.heap + 1}
          if a.records ≠ espOk then .ok (0,out,scanDone true true r)
          else do
            let (found,r) := espWifiScanGetApRecords a.found.length r
            let (recs,m) ← scanLoop max.toNat found recs 0
            .ok (m,some recs,scanDone false true r)

def networks (found : List ApRecord) : List ApRecord :=
  firsts (fun ap => ap.ssid.bytes) (found.filter (fun ap => ap.ssid.bytes ≠ []))

variable {max m : Nat} {out : List ScanRec} {seen rest found : List ApRecord} {ap : ApRecord}

theorem scannedWhole (ap : ApRecord) : ap.scanned = ⟨ap.ssid.bytes,ap.rssi,ap.authmode != 0⟩ := by
  unfold ApRecord.scanned
  rw [List.take_of_length_le ap.fits]

theorem networksNil : networks [] = [] := rfl

theorem networksUnnamed (empty : ap.ssid.bytes = []) : networks (seen ++ [ap]) = networks seen := by
  unfold networks
  rw [List.filter_append, List.filter_cons_of_neg (by simp [empty]), List.filter_nil, List.append_nil]

theorem networksSeen (named : ap.ssid.bytes ≠ [])
    (taken : ap.ssid.bytes ∈ (networks seen).map (fun ap => ap.ssid.bytes)) : networks (seen ++ [ap]) = networks seen := by
  unfold networks at taken ⊢
  rw [List.filter_append, List.filter_cons_of_pos (by simp [named]), List.filter_nil]
  exact firstsSeen ((firstsKeys _).mp taken)

theorem networksNew (named : ap.ssid.bytes ≠ [])
    (new : ap.ssid.bytes ∉ (networks seen).map (fun ap => ap.ssid.bytes)) :
    networks (seen ++ [ap]) = networks seen ++ [ap] := by
  unfold networks at new ⊢
  rw [List.filter_append, List.filter_cons_of_pos (by simp [named]), List.filter_nil]
  exact firstsNew (fun taken => new ((firstsKeys _).mpr taken))

theorem networksPrefix (seen rest : List ApRecord) : networks seen <+: networks (seen ++ rest) := by
  unfold networks
  rw [List.filter_append]
  exact firstsPrefix _ _

/- The array after some records: full, or with all the networks that they bring. -/
structure Lists (max : Nat) (seen : List ApRecord) (out : List ScanRec) (m : Nat) : Prop where
  size : out.length = max
  count : m = ((networks seen).take max).length
  recs : out.take m = ((networks seen).take max).map ApRecord.scanned

theorem nameTaken (lists : Lists max seen out m) (room : m < max) (name : List UInt8) :
    (out.take m).any (fun rec => rec.ssid = name) = true ↔ name ∈ (networks seen).map (fun ap => ap.ssid.bytes) := by
  have all : (networks seen).take max = networks seen := by
    have count := lists.count
    rw [List.length_take] at count
    exact List.take_of_length_le (by omega)
  have names : (out.take m).map ScanRec.ssid = (networks seen).map (fun ap => ap.ssid.bytes) := by
    rw [lists.recs, all, List.map_map]
    exact List.map_congr_left fun ap _ => congrArg ScanRec.ssid (scannedWhole ap)
  rw [← names, List.any_eq_true, List.mem_map]
  exact exists_congr fun rec => and_congr_right fun _ => decide_eq_true_iff

theorem listsFull (lists : Lists max seen out m) (full : max ≤ m) (rest : List ApRecord) :
    Lists max (seen ++ rest) out m := by
  obtain ⟨size,count,recs⟩ := lists
  have long : max ≤ (networks seen).length := by
    rw [List.length_take] at count
    omega
  obtain ⟨more,whole⟩ := networksPrefix seen rest
  have same : (networks (seen ++ rest)).take max = (networks seen).take max := by
    rw [← whole, List.take_append_of_le_length long]
  exact ⟨size,same ▸ count,same ▸ recs⟩

theorem listsSame (lists : Lists max seen out m) (same : networks (seen ++ [ap]) = networks seen) :
    Lists max (seen ++ [ap]) out m := by
  obtain ⟨size,count,recs⟩ := lists
  exact ⟨size,same ▸ count,same ▸ recs⟩

theorem listsMore (lists : Lists max seen out m) (room : m < max)
    (more : networks (seen ++ [ap]) = networks seen ++ [ap]) :
    Lists max (seen ++ [ap]) (out.set m ap.scanned) (m + 1) := by
  obtain ⟨size,count,recs⟩ := lists
  rw [List.length_take] at count
  have all : (networks seen).take max = networks seen := List.take_of_length_le (by omega)
  have next : (networks (seen ++ [ap])).take max = networks seen ++ [ap] := by
    rw [more]
    refine List.take_of_length_le ?_
    rw [List.length_append, List.length_singleton]
    omega
  refine ⟨List.length_set.trans size,?_,?_⟩
  · rw [next, List.length_append, List.length_singleton]
    omega
  · rw [next, List.map_append, ← all, ← recs, List.map_singleton]
    have inside : m < out.length := by omega
    rw [List.take_succ_eq_append_getElem (by rwa [List.length_set]), List.getElem_set_self, List.take_set_of_le (Nat.le_refl m)]

theorem loopLists (lists : Lists max seen out m) (rest : List ApRecord) :
    ∃ after k, scanLoop max rest out m = .ok (after,k) ∧ Lists max (seen ++ rest) after k := by
  induction rest generalizing seen out m with
  | nil => exact ⟨out,m,rfl,by rwa [List.append_nil]⟩
  | cons ap rest ih =>
    rw [List.append_cons]
    unfold scanLoop
    split
    · rename_i full
      exact ⟨out,m,rfl,listsFull (listsFull lists full [ap]) full rest⟩
    · rename_i room
      have room : m < max := Nat.lt_of_not_le room
      split
      · rename_i empty
        exact ih (listsSame lists (networksUnnamed empty))
      · rename_i named
        split
        · rename_i taken
          exact ih (listsSame lists (networksSeen named ((nameTaken lists room _).mp taken)))
        · rename_i new
          have brings := networksNew named (fun taken => new ((nameTaken lists room _).mpr taken))
          have inside : m < out.length := lists.size ▸ room
          rw [storeRec, if_pos inside]
          exact ih (listsMore lists room brings)

/- A scan that the driver has started, and one that nothing has failed in. -/
def Answers.Started (a : Answers) (max : Int) : Prop := 0 < max ∧ a.take = some true ∧ a.start = espOk

def Answers.Succeeds (a : Answers) (max : Int) : Prop :=
  a.Started max ∧ a.num = espOk ∧ a.calloc = true ∧ a.records = espOk

/- What a call leaves: the first networks in the array where nothing failed, and otherwise no
record in use; the driver's list released once after a scan that had started. -/
structure Scanned (a : Answers) (max : Int) (r after : Radio) (out : List ScanRec) (m : Nat) : Prop where
  size : out.length = max.toNat
  failed : ¬ a.Succeeds max → m = 0
  count : a.Succeeds max → m = ((networks a.found).take max.toNat).length
  recs : a.Succeeds max → out.take m = ((networks a.found).take max.toNat).map fun ap => ⟨ap.ssid.bytes,ap.rssi,ap.authmode != 0⟩
  apart : ((out.take m).map ScanRec.ssid).Nodup
  released : a.Started max → after.releases = r.releases + 1 ∧ after.list = none
  kept : ¬ a.Started max → after.releases = r.releases ∧ after.list = r.list
  lock : after.opLock = if 0 < max ∧ a.take = some true then false else r.opLock
  heap : after.heap = r.heap

theorem listsNothing (out : Vector ScanRec max) : Lists max [] out.toList 0 :=
  ⟨Vector.length_toList,by rw [networksNil, List.take_nil]; rfl,
    by rw [networksNil, List.take_nil]; rfl⟩

theorem listsApart (lists : Lists max found out m) : ((out.take m).map ScanRec.ssid).Nodup := by
  have names : (networks found).map (fun ap => ap.scanned.ssid) = (networks found).map fun ap => ap.ssid.bytes :=
    List.map_congr_left fun ap _ => congrArg ScanRec.ssid (scannedWhole ap)
  have apart : ((networks found).map fun ap => ap.ssid.bytes).Nodup := firstsNodup
  rw [lists.recs, List.map_map, List.map_take]
  exact (names ▸ apart).sublist (List.take_sublist _ _)

section Calls
variable {a : Answers} {max : Int} {r after : Radio} {out : List ScanRec} {m : Nat}

theorem scannedNone (size : out.length = max.toNat) (nothing : a.Succeeds max → a.found = [])
    (released : a.Started max → after.releases = r.releases + 1 ∧ after.list = none)
    (kept : ¬ a.Started max → after.releases = r.releases ∧ after.list = r.list)
    (lock : after.opLock = if 0 < max ∧ a.take = some true then false else r.opLock) (heap : after.heap = r.heap) :
    Scanned a max r after out 0 where
  size := size
  failed _ := rfl
  count succeeds := by rw [nothing succeeds, networksNil, List.take_nil, List.length_nil]
  recs succeeds := by rw [nothing succeeds, networksNil, List.take_nil, List.map_nil, List.take_zero]
  apart := List.nodup_nil
  released := released
  kept := kept
  lock := lock
  heap := heap

end Calls

/- Every call on an array of the size that it is told. -/
theorem scanLists (a : Answers) (max : Int) (out : Vector ScanRec max.toNat) (r : Radio) :
    appWifiScan a max none r = .ok (0,none,r) ∧
    ∃ m after radio, appWifiScan a max (some out.toList) r = .ok (m,some after,radio) ∧ Scanned a max r radio after m := by
  refine ⟨rfl,?_⟩
  have size : out.toList.length = max.toNat := Vector.length_toList
  unfold appWifiScan
  dsimp only
  split
  · rename_i refused
    have idle : ¬ (0 < max ∧ a.take = some true) := by grind
    have stopped : ¬ a.Started max := fun started => idle ⟨started.1,started.2.1⟩
    exact ⟨0,out.toList,r,rfl,scannedNone size (fun succeeds => absurd succeeds.1 stopped) (fun started => absurd started stopped)
      (fun _ => ⟨rfl,rfl⟩) (if_neg idle).symm rfl⟩
  rename_i accepted
  have taken : 0 < max ∧ a.take = some true := by grind
  have free : false = if 0 < max ∧ a.take = some true then false else r.opLock := (if_pos taken).symm
  split
  · rename_i failed
    have stopped : ¬ a.Started max := fun started => failed started.2.2
    exact ⟨0,out.toList,_,rfl,scannedNone size (fun succeeds => absurd succeeds.1 stopped) (fun started => absurd started stopped)
      (fun _ => ⟨rfl,rfl⟩) free rfl⟩
  rename_i begun
  have started : a.Started max := ⟨taken.1,taken.2,not_not.mp begun⟩
  split
  · rename_i failed
    refine ⟨0,out.toList,_,rfl,scannedNone size (fun succeeds => ?_) (fun _ => ⟨rfl,rfl⟩) (absurd started) free rfl⟩
    exact failed.elim (fun failed => absurd succeeds.2.1 failed) List.length_eq_zero_iff.mp
  split
  · rename_i failed
    refine ⟨0,out.toList,_,rfl,scannedNone size (fun succeeds => ?_) (fun _ => ⟨rfl,rfl⟩) (absurd started) free rfl⟩
    rw [succeeds.2.2.1] at failed
    exact absurd failed Bool.false_ne_true
  split
  · rename_i failed
    exact ⟨0,out.toList,_,rfl,scannedNone size (fun succeeds => absurd succeeds.2.2.2 failed) (fun _ => ⟨rfl,rfl⟩)
      (absurd started) free rfl⟩
  rename_i counted allocated records
  have succeeds : a.Succeeds max := by
    refine ⟨started,?_,by simpa using allocated,not_not.mp records⟩
    exact not_not.mp fun failed => counted (.inl failed)
  obtain ⟨after,m,runs,lists⟩ := loopLists (listsNothing out) a.found
  rw [List.nil_append] at lists
  dsimp only [espWifiScanGetApRecords]
  rw [Option.getD_some, List.take_length, runs]
  refine ⟨m,after,_,rfl,?_⟩
  exact {
    size := lists.size
    failed := absurd succeeds
    count _ := lists.count
    recs _ := lists.recs.trans (List.map_congr_left fun ap _ => scannedWhole ap)
    apart := listsApart lists
    released _ := ⟨rfl,rfl⟩
    kept := absurd started
    lock := free
    heap := rfl }

end EpskcCommissioner.WifiScan
