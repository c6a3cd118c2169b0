import EpskcCommissioner.CBuffer
import EpskcCommissioner.LogJson
import EpskcCommissioner.LogRingChains
import EpskcCommissioner.LogRingReads

/-! `log_ring_json` in the buffer that it is given. What it leaves there is the row of
`LogJson`, and the row's text is the start of what a reader of broken bytes makes of the
line. -/
namespace EpskcCommissioner.LogRow
open CBytes (bytesAt)
open CBuffer LogText LogRing LogRingDevice LogRingRecovery LogRingReads LogClean LogJson Utf8
open LogRingChains (blank)
open String (utf8EncodeChar)

/- `esc` and how many bytes of the text it stands for. -/
def escapedAt (t : List UInt8) (textLen i : Nat) : Stored (List UInt8 × Nat) := do
  let behind ← reading (bytesAt t i (textLen - i))
  match behind with
  | [] => .error (.other .read)
  | c :: rest => .ok (escapeAt c rest)

def rowLoop (t : List UInt8) (textLen limit : Nat) : (fuel i : Nat) → Out → Stored Out
  | 0, _, _ => .error (.other .fuel)
  | fuel + 1, i, out =>
    if i < textLen then do
      let (esc,consumed) ← escapedAt t textLen i
      if limit < out.pos + esc.length then .ok out
      else do
        let out ← putAll out esc
        rowLoop t textLen limit fuel (i + consumed) out
    else .ok out

def textOf (line : LineOut) : List UInt8 := (List.range logRingText).map line.text

/- `log_ring_json`: the length that it returns, and the buffer. -/
def logRingJsonInto (line : LineOut) (buf : List UInt8) (cap : Nat) : Stored (Nat × List UInt8) :=
  if cap < 64 then .ok (0,buf)
  else do
    let (buf,n) ← snprintf buf cap (encode (jsonHead line))
    if cap ≤ n then .ok (0,buf)
    else do
      let textLen := (cString line.text).length
      let out ← rowLoop (textOf line) textLen (cap - 3) (textLen + 1) 0 ⟨buf,n⟩
      let out ← putAll out (encode "\"\x7d".toList)
      let buf ← store out.buf out.pos 0
      .ok (out.pos,buf)

variable {text : List UInt8} {out : Out} {cap limit : Nat}

theorem escapeTextDrop (used skip : Nat) (t : List UInt8) :
    escapeText limit used skip t = escapeText limit used 0 (t.drop skip) := by
  induction skip generalizing t with
  | zero => rfl
  | succ skip ih =>
    cases t with
    | nil => rfl
    | cons b rest => exact ih rest

theorem escapeTextRoom {used : Nat} (skip : Nat) (t : List UInt8) (room : used ≤ limit) :
    used + (escapeText limit used skip t).length ≤ limit := by
  fun_induction escapeText limit used skip t with
  | case1 => exact room
  | case2 used skip head rest ih => exact ih room
  | case3 => exact room
  | case4 used c rest esc consumed found fits ih =>
    rw [List.length_append]
    have := ih (by omega)
    omega

theorem escapeAtTakes (c : UInt8) (rest : List UInt8) :
    0 < (escapeAt c rest).2 ∧ (escapeAt c rest).2 ≤ rest.length + 1 := by
  unfold escapeAt
  split
  · exact ⟨Nat.one_pos,Nat.le_add_left _ _⟩
  split
  · exact ⟨Nat.one_pos,Nat.le_add_left _ _⟩
  split
  · exact ⟨Nat.one_pos,Nat.le_add_left _ _⟩
  dsimp only
  split
  · exact ⟨Nat.one_pos,Nat.le_add_left _ _⟩
  · rename_i whole
    exact ⟨Nat.pos_of_ne_zero whole,(utf8LenInside whole).1⟩

theorem rowLoopRuns {t : List UInt8} {textLen fuel i : Nat} (size : textLen ≤ t.length) (inside : i ≤ textLen)
    (enough : textLen - i < fuel) (behind : limit < cap) (filled : Filled cap text out) : ∃ more,
    rowLoop t textLen limit fuel i out = .ok more ∧
      Filled cap (text ++ escapeText limit text.length 0 ((t.take textLen).drop i)) more := by
  induction fuel generalizing i text out with
  | zero => omega
  | succ fuel ih =>
    have long : (t.take textLen).length = textLen := List.length_take_of_le size
    rw [rowLoop]
    by_cases more : i < textLen
    · obtain ⟨c,rest,split⟩ := List.exists_cons_of_ne_nil
        (show (t.take textLen).drop i ≠ [] by
          apply List.length_pos_iff.mp
          rw [List.length_drop]
          omega)
      have rests := congrArg List.length split
      rw [List.length_drop, List.length_cons] at rests
      have read : escapedAt t textLen i = .ok (escapeAt c rest) := by
        have here : bytesAt t i (textLen - i) = .ok (c :: rest) := by
          rw [bytesAt, if_pos (by omega), ← List.drop_take, split]
        rw [escapedAt, here]
        rfl
      obtain ⟨some,most⟩ := escapeAtTakes c rest
      rw [if_pos more, read, okBind, split, escapeText]
      dsimp only
      rw [filled.place]
      by_cases full : limit < text.length + (escapeAt c rest).1.length
      · rw [if_pos full, if_pos full, List.append_nil]
        exact ⟨out,rfl,filled⟩
      · obtain ⟨next,stored,filled⟩ := putAllFilled filled (escapeAt c rest).1 (by omega)
        obtain ⟨last,done,filled⟩ := ih (i := i + (escapeAt c rest).2) (by omega) (by omega) filled
        have onward : (t.take textLen).drop (i + (escapeAt c rest).2) = rest.drop ((escapeAt c rest).2 - 1) := by
          obtain ⟨k,same⟩ := Nat.exists_eq_add_of_lt some
          rw [← List.drop_drop, split, same, Nat.zero_add, Nat.add_sub_cancel, List.drop_succ_cons]
        rw [if_neg full, if_neg full, stored, okBind, escapeTextDrop, ← onward, ← List.append_assoc,
          ← List.length_append]
        exact ⟨last,done,filled⟩
    · rw [if_neg more, List.drop_of_length_le (by omega), escapeText, List.append_nil]
      exact ⟨out,rfl,filled⟩

theorem textTaken (line : LineOut) : (textOf line).take (cString line.text).length = cString line.text :=
  (List.prefix_iff_eq_take.mp (List.takeWhile_prefix _)).symm

theorem rowWritten (line : LineOut) {buf : List UInt8} (size : buf.length = cap) (room : 64 ≤ cap) : ∃ after,
    logRingJsonInto line buf cap = .ok ((logRingJson line cap).length,after) ∧ after.length = cap ∧
      logRingJson line cap ++ [0] <+: after ∧ 0 < (logRingJson line cap).length ∧
      (logRingJson line cap).length < cap := by
  have short := jsonHeadLength line
  obtain ⟨printed,done,long,rest,front⟩ := snprintfStores (by omega) size (encode (jsonHead line))
  rw [List.take_of_length_le (by omega), List.append_assoc] at front
  have filled : Filled cap (encode (jsonHead line)) ⟨printed,(encode (jsonHead line)).length⟩ :=
    ⟨long,rfl,_,front⟩
  have whole : (cString line.text).length ≤ (textOf line).length := (List.takeWhile_prefix _).length_le
  obtain ⟨more,looped,filled⟩ := @rowLoopRuns _ _ _ (cap - 3) _ _ ((cString line.text).length + 1) _ whole
    (Nat.zero_le _) (by omega) (by omega) filled
  rw [List.drop_zero, textTaken] at filled
  have fits := @escapeTextRoom (cap - 3) (encode (jsonHead line)).length 0 (cString line.text) (by omega)
  have two : (encode "\"\x7d".toList).length = 2 := rfl
  obtain ⟨closed,stored,filled⟩ := putAllFilled filled (encode "\"\x7d".toList) (by
    rw [List.length_append]
    omega)
  have same : logRingJson line cap = encode (jsonHead line) ++
      escapeText (cap - 3) (encode (jsonHead line)).length 0 (cString line.text) ++ encode "\"\x7d".toList := by
    rw [logRingJson, if_neg (by omega)]
  rw [← same] at filled
  have inside : 0 < (logRingJson line cap).length ∧ (logRingJson line cap).length < cap := by
    rw [same, List.length_append, List.length_append]
    omega
  obtain ⟨last,ended,length,nul⟩ := storeFilled filled 0 inside.2
  refine ⟨last,?_,length,nul,inside⟩
  rw [logRingJsonInto, if_neg (by omega), done, okBind]
  dsimp only
  rw [if_neg (by omega), looped, okBind, stored, okBind, ended, okBind, filled.place]

theorem brokenByte {b : UInt8} {rest : List UInt8} (none : ∀ c, ¬ utf8EncodeChar c <+: b :: rest) :
    ¬ b < 0x80 ∧ utf8Len (b :: rest) = 0 := by
  constructor
  · intro ascii
    have same := byteChar b
    have small := UInt8.lt_iff_toNat_lt.mp ascii
    have limit : (0x80 : UInt8).toNat = 0x80 := rfl
    refine none (Char.ofNat b.toNat) ⟨rest,?_⟩
    rw [encodeAscii (by omega), same, UInt8.ofNat_toNat]
    rfl
  · by_contra whole
    obtain ⟨c,start,_⟩ := utf8LenChar whole
    exact none c (start ▸ List.take_prefix _ _)

theorem charsPrefix {t : List UInt8} {chars : List Char} (read : Lossy t chars) (used : Nat) :
    charsOf limit used 0 t <+: chars := by
  induction read generalizing used with
  | nil => exact List.nil_prefix
  | @char c rest cs later ih =>
    by_cases ascii : c.toNat < 0x80
    · have byte : (UInt8.ofNat c.toNat).toNat = c.toNat := toNatByte (by omega)
      have high : UInt8.ofNat c.toNat < 0x80 := by
        rw [UInt8.lt_iff_toNat_lt, byte]
        exact ascii
      have one : (escapeAt (UInt8.ofNat c.toNat) rest).2 = 1 := by
        unfold escapeAt
        rw [if_pos high]
        split
        · rfl
        · split <;> rfl
      have shown : charAt (UInt8.ofNat c.toNat) rest = [c] := by
        rw [charAt, if_pos high, byte, Char.ofNat_toNat]
      rw [encodeAscii ascii, List.singleton_append, charsOf]
      simp only [one, shown]
      split
      · exact List.nil_prefix
      · exact (List.prefix_append_right_inj [c]).mpr (ih _)
    · obtain ⟨b,tail,bytes,high,whole⟩ := utf8LenHigh (Nat.not_lt.mp ascii) rest
      obtain ⟨esc,shown⟩ := escapeAtHigh rest bytes high whole
      rw [bytes, List.cons_append, charsOf, esc, shown]
      simp only [Nat.add_sub_cancel, charsOfSkip]
      split
      · exact List.nil_prefix
      · exact (List.prefix_append_right_inj [c]).mpr (ih _)
  | @broken b rest cs none later ih =>
    obtain ⟨ascii,zero⟩ := brokenByte none
    have marked : ¬ (b = 0x22 ∨ b = 0x5c) := by
      rintro (rfl | rfl)
      · exact ascii (by decide)
      · exact ascii (by decide)
    have printable : ¬ b < 0x20 := fun low => ascii (UInt8.lt_trans low (by decide))
    have esc : escapeAt b rest = ([0x3f],1) := by
      unfold escapeAt
      rw [if_neg marked, if_neg printable, if_neg ascii]
      simp only [zero, if_true]
    have shown : charAt b rest = ['?'] := by
      unfold charAt
      rw [if_neg ascii]
      simp only [zero, if_true]
    rw [charsOf, esc, shown]
    dsimp only
    split
    · exact List.nil_prefix
    · exact (List.prefix_append_right_inj ['?']).mpr (ih _)

theorem rowRead (line : LineOut) (buf : Vector UInt8 cap) (room : 64 ≤ cap) : ∃ n after,
    logRingJsonInto line buf.toList cap = .ok (n,after) ∧ after.length = cap ∧ 0 < n ∧ n < cap ∧
      after.take n ++ [0] <+: after ∧
      (decode (after.take n)).bind Json.parse = some (lineDoc line (shownChars line cap)) := by
  obtain ⟨after,done,long,front,some,inside⟩ := rowWritten line Vector.length_toList room
  obtain ⟨rest,whole⟩ := id front
  have row : after.take (logRingJson line cap).length = logRingJson line cap := by
    rw [← whole, List.append_assoc, List.take_left]
  refine ⟨_,after,done,long,some,inside,row.symm ▸ front,?_⟩
  rw [row, logRingJsonText line room, decodeEncode, Option.bind_some, Json.parseText]

/- Every row lies inside its buffer and is one document, whose text is the start of the
line's. What the ring commits comes through whole in the buffer of `h_logs`. -/
theorem rowsShowLines :
    (∀ (line : LineOut) (cap : Nat) (buf : Vector UInt8 cap), 64 ≤ cap → ∃ n after shown,
      logRingJsonInto line buf.toList cap = .ok (n,after) ∧ after.length = cap ∧ 0 < n ∧ n < cap ∧
      after.take n ++ [0] <+: after ∧
      (decode (after.take n)).bind Json.parse = some (lineDoc line shown) ∧
      (∃ chars, Lossy (cString line.text) chars) ∧
      ∀ chars, Lossy (cString line.text) chars → shown <+: chars) ∧
    ∀ s, device.Reachable s → ∀ id c, (id,c) ∈ s.committed → ∀ line, Reads line c →
      ∀ buf : Vector UInt8 rowRoom, ∃ n after shown,
        logRingJsonInto line buf.toList rowRoom = .ok (n,after) ∧
        (decode (after.take n)).bind Json.parse = some (lineDoc line shown) ∧ encode shown = c.text.bytes := by
  constructor
  · intro line cap buf room
    obtain ⟨n,after,done,long,some,inside,ended,read⟩ := rowRead line buf room
    exact ⟨n,after,shownChars line cap,done,long,some,inside,ended,read,lossyRead _,
      fun chars read => charsPrefix read _⟩
  · intro s reached id c committed line reads buf
    obtain ⟨n,after,done,_,_,_,_,read⟩ := rowRead line buf (by decide)
    have clean := (reachedTidy reached).committed id c committed
    rw [← reads.text] at clean ⊢
    exact ⟨n,after,shownChars line rowRoom,done,read,rowCharsClean clean⟩

def markedText : List UInt8 := [0x22,0x07,0xc3,0xa9]

def markedLine : LineOut := ⟨1,9,fun j => markedText.getD j 0⟩

def quotedCall : List Label :=
  [.init 7,.call 0 (.ingest 5 [0x22,0xc3,0xa9,0x0a]) 9,.enter 0] ++ List.replicate 11 .proceed

def quotedLine : LineOut := ⟨1,9,fun j => [0x22,0xc3,0xa9].getD j 0⟩

theorem rowsShowLinesMarked :
    (∃ n after shown, logRingJsonInto markedLine (List.replicate 64 0) 64 = .ok (n,after) ∧
      (decode (after.take n)).bind Json.parse = some (lineDoc markedLine shown) ∧ shown <+: ['"',Char.ofNat 7,Char.ofNat 0xe9]) ∧
    ∃ s c, device.Reachable s ∧ (7,c) ∈ s.committed ∧ ∃ n after shown,
      logRingJsonInto quotedLine (List.replicate rowRoom 0) rowRoom = .ok (n,after) ∧
      (decode (after.take n)).bind Json.parse = some (lineDoc quotedLine shown) ∧ encode shown = [0x22,0xc3,0xa9] := by
  obtain ⟨rows,committed⟩ := rowsShowLines
  constructor
  · obtain ⟨n,after,shown,done,_,_,_,_,read,_,inside⟩ := rows markedLine 64 (Vector.replicate 64 0) (by decide)
    have text : cString markedLine.text = utf8EncodeChar '"' ++
        (utf8EncodeChar (Char.ofNat 7) ++ (utf8EncodeChar (Char.ofNat 0xe9) ++ [])) := by decide +kernel
    refine ⟨n,after,shown,done,read,inside _ ?_⟩
    rw [text]
    exact .char _ (.char _ (.char _ .nil))
  · have ran : (device.run (powerOn blank) quotedCall).any (fun s => s.committed == [(7,⟨1,9,none,[0x22,0xc3,0xa9]⟩)]) =
        true := by decide +kernel
    obtain ⟨s,reached,ends⟩ := runEnds (show device.start (powerOn blank) from ⟨blank,rfl⟩) ran
    have mem : ((7 : UInt64),(⟨1,9,none,[0x22,0xc3,0xa9]⟩ : Commit)) ∈ s.committed := by
      rw [beq_iff_eq.mp ends]
      exact List.mem_singleton_self _
    have reads : Reads quotedLine ⟨1,9,none,[0x22,0xc3,0xa9]⟩ := ⟨rfl,rfl,by decide +kernel⟩
    obtain ⟨n,after,shown,done,read,whole⟩ := committed s reached 7 _ mem _ reads (Vector.replicate rowRoom 0)
    exact ⟨s,_,reached,mem,n,after,shown,done,read,whole⟩

end EpskcCommissioner.LogRow
