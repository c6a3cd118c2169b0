import EpskcCommissioner.BatteryPage
import EpskcCommissioner.LogTailGaps

/-! `validate_page` of `tools/logtail.py`: what it takes for a page of lines behind `after`. -/
namespace EpskcCommissioner.LogPage
open BatteryPage (natural isOne check require u32Max bindOk checkOk requireOk naturalBounds)
open Json (Value)

structure Line where
  seq : Nat
  uptimeMs : Nat
  text : List Char
  deriving DecidableEq, Repr

structure Page where
  boot : List Char
  bootId : List Char
  bootCount : Nat
  oldestSeq : Nat
  latestSeq : Nat
  capacity : Nat
  resetReason : List Char
  lines : List Line
  deriving DecidableEq, Repr

def str : Option Value → Option (List Char)
  | some (.str s) => some s
  | _ => none

def list : Option Value → Option (List Value)
  | some (.arr items) => some items
  | _ => none

def pageBoot (v : Option Value) : Option (List Char) :=
  (str v).filter (fun s => s == "current".toList || s == "previous".toList)

def validateLine (latest previous : Nat) (line : Value) : Except String Line := do
  let seq ← check "invalid line" (natural 1 u32Max (line.get? "seq"))
  let uptimeMs ← check "invalid line" (natural 0 u32Max (line.get? "uptime_ms"))
  let text ← check "invalid line text" (str (line.get? "text"))
  require "lines out of order" (previous < seq && seq ≤ latest)
  .ok ⟨seq,uptimeMs,text⟩

def validateLines (latest : Nat) : (previous : Nat) → List Value → Except String (List Line)
  | _, [] => .ok []
  | previous, line :: lines => do
    let line ← validateLine latest previous line
    let lines ← validateLines latest line.seq lines
    .ok (line :: lines)

def validatePage (page : Value) (after : Nat) : Except String Page := do
  require "unsupported /logs schema" (isOne (page.get? "schema"))
  let boot ← check "missing boot identity" (pageBoot (page.get? "boot"))
  let bootId ← check "missing boot identity" (str (page.get? "boot_id"))
  let bootCount ← check "invalid boot_count" (natural 0 u32Max (page.get? "boot_count"))
  let oldestSeq ← check "invalid oldest_seq" (natural 0 u32Max (page.get? "oldest_seq"))
  let latestSeq ← check "invalid latest_seq" (natural 0 u32Max (page.get? "latest_seq"))
  let capacity ← check "invalid capacity" (natural 0 u32Max (page.get? "capacity"))
  let resetReason ← check "invalid page" (str (page.get? "reset_reason"))
  let lines ← check "invalid page" (list (page.get? "lines"))
  let lines ← validateLines latestSeq after lines
  .ok ⟨boot,bootId,bootCount,oldestSeq,latestSeq,capacity,resetReason,lines⟩

theorem validateLinesNumbers {latest previous : Nat} {values : List Value} {lines : List Line}
    (ok : validateLines latest previous values = .ok lines) :
    LogTailGaps.validLines latest previous (lines.map Line.seq) = true := by
  induction values generalizing previous lines with
  | nil =>
    cases Except.ok.inj ok
    rfl
  | cons value values ih =>
    unfold validateLines at ok
    obtain ⟨line,first,ok⟩ := bindOk.mp ok
    obtain ⟨rest,later,ok⟩ := bindOk.mp ok
    cases Except.ok.inj ok
    unfold validateLine at first
    obtain ⟨seq,found,first⟩ := bindOk.mp first
    obtain ⟨uptimeMs,_,first⟩ := bindOk.mp first
    obtain ⟨text,_,first⟩ := bindOk.mp first
    obtain ⟨_,order,first⟩ := bindOk.mp first
    cases Except.ok.inj first
    obtain ⟨low,high⟩ := naturalBounds (checkOk.mp found)
    have bounds := requireOk.mp order
    simp only [Bool.and_eq_true,decide_eq_true_eq] at bounds
    have rest := ih later
    simp only [List.map_cons,LogTailGaps.validLines,rest,Bool.and_true,Bool.and_eq_true,decide_eq_true_eq]
    exact ⟨⟨⟨low,high⟩,bounds.1⟩,bounds.2⟩

theorem validatePageNumbers {v : Value} {after : Nat} {page : Page} (ordinal : Nat)
    (ok : validatePage v after = .ok page) :
    LogTailGaps.validatePage
      ⟨page.bootId,page.latestSeq,String.ofList page.resetReason,page.lines.map Line.seq,ordinal⟩ after = true := by
  unfold validatePage at ok
  obtain ⟨_,_,ok⟩ := bindOk.mp ok
  obtain ⟨boot,_,ok⟩ := bindOk.mp ok
  obtain ⟨bootId,_,ok⟩ := bindOk.mp ok
  obtain ⟨bootCount,_,ok⟩ := bindOk.mp ok
  obtain ⟨oldest,_,ok⟩ := bindOk.mp ok
  obtain ⟨latest,found,ok⟩ := bindOk.mp ok
  obtain ⟨capacity,_,ok⟩ := bindOk.mp ok
  obtain ⟨reason,_,ok⟩ := bindOk.mp ok
  obtain ⟨values,_,ok⟩ := bindOk.mp ok
  obtain ⟨lines,checked,ok⟩ := bindOk.mp ok
  cases Except.ok.inj ok
  have small := (naturalBounds (checkOk.mp found)).2
  simp only [LogTailGaps.validatePage,validateLinesNumbers checked,Bool.and_true,decide_eq_true_eq]
  exact small

end EpskcCommissioner.LogPage
