import EpskcCommissioner.LogChars
import EpskcCommissioner.LogRingServing
import EpskcCommissioner.LogRingTexts

/-! What the readers of the ring rely on: every line that is committed is printable UTF-8
with its NUL, whatever the tasks have said; and a whole line of printable UTF-8 is stored
as it came. -/
namespace EpskcCommissioner.LogRingPrintable
open LogText LogRing LogRingDevice LogRingSlots LogRingRunning LogRingServing LogRingTexts LogClean LogChars Utf8

/- Valid UTF-8 that fits into a line, without control bytes. -/
structure Printable (bytes : List UInt8) : Prop where
  valid : ∃ cs, bytes = encode cs
  fits : bytes.length ≤ 179
  plain : PlainBytes bytes

def CleanPlain (bytes : List UInt8) : Prop := Clean bytes ∧ PlainBytes bytes

theorem cleanPlainKept : Keeps CleanPlain where
  empty := ⟨cleanNil,List.forall_mem_nil _⟩
  append := fun src held => ⟨appendCleanClean src held.1,List.forall_mem_append.mpr ⟨held.2,cleanedPlain _ 0 src⟩⟩

theorem textPrintable {t : Text} (text : CleanPlain t.bytes) : Printable t.bytes := by
  obtain ⟨⟨cs,bytes,_⟩,plain⟩ := text
  exact ⟨⟨cs,bytes⟩,Nat.lt_succ_iff.mp t.fits,plain⟩

theorem slotHolds {s : Device} (serving : Serving s) {k : Nat} {c : Commit} (done : k < complete s)
    (kept : ¬ Taken s.boot k) (line : s.boot.lines[k]? = some c) :
    Holds (slotAt s.memory.view s.boot.half (slotIndex c.seq)) c :=
  (shownHolds (serving.viewed k done c line kept)).1

theorem loopSegment {task : Nat} {nowMs : UInt32} {text : List UInt8} (noNewline : 0x0a ∉ text)
    (rest segment : List UInt8) (p : Option (Fin 4)) (ram : Ram) :
    ingestLoop task nowMs (text ++ rest) segment p ram = ingestLoop task nowMs rest (segment ++ text) p ram := by
  induction text generalizing segment with
  | nil => rw [List.append_nil, List.nil_append]
  | cons b text ih =>
    have here : b ≠ 0x0a := fun same => noNewline (same ▸ List.mem_cons_self)
    rw [List.cons_append, ingestLoop, if_pos here, ih (fun mem => noNewline (List.mem_cons_of_mem _ mem)),
      List.append_assoc, List.singleton_append]

theorem wholeLine {task : Nat} {nowMs : UInt32} {ram : Ram} {cs : List Char} (cur : ram.cur ≠ none)
    (begins : ∀ k, findPending task ram = some k → (ram.pending k).text.bytes = [])
    (room : (encode cs).length ≤ 179) (plain : PlainBytes (encode cs)) :
    (ingest task nowMs (encode cs ++ [0x0a]) ram).2.map (fun c => c.text.bytes) =
      if encode cs = [] then [] else [encode cs] := by
  have noNewline : 0x0a ∉ encode cs := fun mem => absurd (plain _ mem).1 (by decide)
  have runs := ringRuns cur
  have some : (encode cs ++ [0x0a]).isEmpty = false := List.isEmpty_eq_false_iff.mpr (by simp)
  have quiet : (findPending task ram).any (fun k => (ram.pending k).text.bytes ≠ []) = false := by
    rw [Option.any_eq_false]
    intro k found
    rw [begins k found]
    rfl
  have held : (Option.map (fun k => (ram.pending k).text) (findPending task ram)).getD .empty = .empty := by
    cases found : findPending task ram with
    | none => rfl
    | some k => exact emptyText (begins k found)
  rw [ingest, runs, some]
  simp only [Bool.or_self,Bool.false_eq_true,if_false]
  rw [loopSegment noNewline, List.nil_append, ingestLoop, if_neg (not_not_intro rfl), quiet]
  by_cases blank : encode cs = []
  · rw [if_pos blank, if_neg (by simp [blank])]
    rfl
  · rw [if_neg blank, if_pos (.inl blank)]
    have text := appendCleanWhole plain room
    simp only [commitLocked,ingestLoop,if_true,List.map_cons,List.map_nil,Commit.text,Commit.start,held,text]

/- Every line that is committed is printable, in its slot it ends with a NUL; and a chunk
that is one printable line, of a task that has nothing unfinished, is stored as it is. A
blank one is no line. -/
theorem linesPrintable :
    (∀ s, device.Reachable s →
      (∀ id c, (id,c) ∈ s.committed → Printable c.text.bytes) ∧
      (s.ram.cur.isSome → ∀ k c, k < complete s → ¬ Taken s.boot k → s.boot.lines[k]? = some c →
        Printable c.text.bytes ∧
        cString (slotAt s.memory.view s.boot.half (slotIndex c.seq)).text = c.text.bytes ∧
        hasNul (slotAt s.memory.view s.boot.half (slotIndex c.seq)).text = true)) ∧
    ∀ task nowMs ram cs, ram.cur ≠ none →
      (∀ k, findPending task ram = some k → (ram.pending k).text.bytes = []) → Printable (encode cs) →
      (ingest task nowMs (encode cs ++ [0x0a]) ram).2.map (fun c => c.text.bytes) =
        if encode cs = [] then [] else [encode cs] := by
  constructor
  · intro s reached
    have texts := reachedTexts cleanPlainKept reached
    refine ⟨fun id c committed => textPrintable (texts.committed id c committed),fun runs k c done kept line => ?_⟩
    have serving := reachedServing reached runs
    have holds := slotHolds serving done kept line
    exact ⟨textPrintable (texts.committed _ c (serving.whole k c done line)),holds.text,holds.ended⟩
  · exact fun task nowMs ram cs cur begins printable => wholeLine cur begins printable.fits printable.plain

theorem linesPrintableOne :
    (ingest 1 5 [0x68,0x69,0x0a] ⟨some 0,none,0,0,0,0,fun _ => ⟨0,.empty⟩,0⟩).2.map (fun c => c.text.bytes) =
      [[0x68,0x69]] :=
  linesPrintable.2 1 5 ⟨some 0,none,0,0,0,0,fun _ => ⟨0,.empty⟩,0⟩ ['h','i'] (Option.some_ne_none _)
    (fun _ _ => rfl) ⟨⟨['h','i'],rfl⟩,by decide,by decide⟩

end EpskcCommissioner.LogRingPrintable
