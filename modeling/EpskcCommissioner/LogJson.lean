import EpskcCommissioner.Json
import EpskcCommissioner.LogClean
import EpskcCommissioner.LogRing

/-! `log_ring_json`: a line of the ring as JSON. Whatever bytes its text has, the row is one
JSON object, and a text as `append_clean` makes it comes through whole. -/
namespace EpskcCommissioner.LogJson
open LogText LogRing LogClean Decimal Utf8
open String (utf8EncodeChar)

/- What the loop makes of the text at one place, and how many bytes of it that takes. -/
def escapeAt (c : UInt8) (rest : List UInt8) : List UInt8 × Nat :=
  if c = 0x22 ∨ c = 0x5c then ([0x5c,c],1)
  else if c < 0x20 then
    (encode ['\\','u','0','0',Nat.digitChar (c.toNat / 16),Nat.digitChar (c.toNat % 16)],1)
  else if c < 0x80 then ([c],1)
  else
    let n := utf8Len (c :: rest)
    if n = 0 then ([0x3f],1) else ((c :: rest).take n,n)

/- The loop, as long as there is room; `skip` bytes are already dealt with. -/
def escapeText (limit : Nat) : (used skip : Nat) → List UInt8 → List UInt8
  | _, _, [] => []
  | used, skip + 1, _ :: rest => escapeText limit used skip rest
  | used, 0, c :: rest =>
    let (esc,consumed) := escapeAt c rest
    if limit < used + esc.length then []
    else esc ++ escapeText limit (used + esc.length) (consumed - 1) rest

def jsonHead (line : LineOut) : List Char :=
  "\x7b\"seq\":".toList ++ digits line.seq.toNat ++ ",\"uptime_ms\":".toList ++ digits line.uptimeMs.toNat ++
    ",\"text\":\"".toList

/- `log_ring_json`; nothing where not even the head fits. -/
def logRingJson (line : LineOut) (cap : Nat) : List UInt8 :=
  let head := encode (jsonHead line)
  if cap < 64 ∨ cap ≤ head.length then []
  else head ++ escapeText (cap - 3) head.length 0 (cString line.text) ++ encode "\"\x7d".toList

def charAt (c : UInt8) (rest : List UInt8) : List Char :=
  if c < 0x80 then [Char.ofNat c.toNat]
  else
    let n := utf8Len (c :: rest)
    if n = 0 then ['?'] else (decode ((c :: rest).take n)).getD []

def charsOf (limit : Nat) : (used skip : Nat) → List UInt8 → List Char
  | _, _, [] => []
  | used, skip + 1, _ :: rest => charsOf limit used skip rest
  | used, 0, c :: rest =>
    let (esc,consumed) := escapeAt c rest
    if limit < used + esc.length then []
    else charAt c rest ++ charsOf limit (used + esc.length) (consumed - 1) rest

theorem decodeChar (c : Char) : decode (utf8EncodeChar c) = some [c] := by
  have one := decodeEncode [c]
  rwa [encodeCons, encodeNil, List.append_nil] at one

theorem escapeAtChar (c : UInt8) (rest : List UInt8) :
    (escapeAt c rest).1 = encode ((charAt c rest).flatMap Json.escaped) := by
  unfold escapeAt charAt
  by_cases ascii : c < 0x80
  · have same := byteChar c
    rw [if_pos ascii, if_pos ascii, List.flatMap_singleton, Json.escaped, same]
    by_cases marked : c = 0x22 ∨ c = 0x5c
    · rw [if_pos marked]
      rcases marked with rfl | rfl <;> rfl
    · have plain : ¬ (Char.ofNat c.toNat = '"' ∨ Char.ofNat c.toNat = '\\') := by
        rintro (quote | slash)
        · rw [quote] at same
          exact marked (.inl (UInt8.toNat_inj.mp same.symm))
        · rw [slash] at same
          exact marked (.inr (UInt8.toNat_inj.mp same.symm))
      rw [if_neg marked, if_neg plain]
      by_cases low : c.toNat < 0x20
      · have control : c < 0x20 := UInt8.lt_iff_toNat_lt.mpr low
        rw [if_pos control, if_pos low]
      · have printable : ¬ c < 0x20 := fun control => low (UInt8.lt_iff_toNat_lt.mp control)
        have small : (Char.ofNat c.toNat).toNat < 0x80 := same.trans_lt (UInt8.lt_iff_toNat_lt.mp ascii)
        rw [if_neg printable, if_neg low, encodeCons, encodeAscii small, same, UInt8.ofNat_toNat]
        rfl
  · have marked : ¬ (c = 0x22 ∨ c = 0x5c) := by
      rintro (rfl | rfl)
      · exact ascii (by decide)
      · exact ascii (by decide)
    have printable : ¬ c < 0x20 := by
      intro low
      have := UInt8.lt_iff_toNat_lt.mp low
      exact ascii (UInt8.lt_iff_toNat_lt.mpr (Nat.lt_trans this (by decide)))
    rw [if_neg marked, if_neg printable, if_neg ascii, if_neg ascii]
    by_cases broken : utf8Len (c :: rest) = 0
    · simp only [broken, if_true]
      rfl
    · obtain ⟨ch,whole,high⟩ := utf8LenChar broken
      simp only [if_neg broken, whole, decodeChar, Option.getD_some, List.flatMap_singleton,
        Json.escapedHigh high, encodeCons, encodeNil, List.append_nil]

theorem escapeTextChars (limit used skip : Nat) (t : List UInt8) :
    escapeText limit used skip t = encode ((charsOf limit used skip t).flatMap Json.escaped) := by
  fun_induction escapeText limit used skip t with
  | case1 => rfl
  | case2 used skip head rest ih => exact ih
  | case3 used c rest esc consumed found full =>
    rw [charsOf, found]
    simp only [if_pos full]
    rfl
  | case4 used c rest esc consumed found room ih =>
    rw [charsOf, found]
    simp only [if_neg room]
    have here := escapeAtChar c rest
    rw [found] at here
    rw [List.flatMap_append, encodeAppend, ← here, ih]

theorem escapeAtAscii {b : UInt8} (rest : List UInt8) (printable : ¬ b < 0x20) (ascii : b < 0x80) :
    (escapeAt b rest).1.length ≤ 2 ∧ (escapeAt b rest).2 = 1 ∧ charAt b rest = [Char.ofNat b.toNat] := by
  unfold escapeAt charAt
  rw [if_neg printable, if_pos ascii, if_pos ascii]
  split
  · exact ⟨Nat.le_refl 2,rfl,rfl⟩
  · exact ⟨Nat.le_succ 1,rfl,rfl⟩

theorem escapeAtHigh {ch : Char} {b : UInt8} {tail : List UInt8} (rest : List UInt8)
    (bytes : utf8EncodeChar ch = b :: tail) (high : 0x80 ≤ b.toNat)
    (whole : utf8Len (b :: (tail ++ rest)) = tail.length + 1) :
    escapeAt b (tail ++ rest) = (b :: tail,tail.length + 1) ∧ charAt b (tail ++ rest) = [ch] := by
  have ascii : ¬ b < 0x80 := fun low => absurd (UInt8.lt_iff_toNat_lt.mp low) (Nat.not_lt.mpr high)
  have printable : ¬ b < 0x20 := by
    intro low
    have := UInt8.lt_iff_toNat_lt.mp low
    have limit : (0x20 : UInt8).toNat = 0x20 := rfl
    omega
  have marked : ¬ (b = 0x22 ∨ b = 0x5c) := by
    rintro (rfl | rfl)
    · exact ascii (by decide)
    · exact ascii (by decide)
  have some : ¬ tail.length + 1 = 0 := Nat.succ_ne_zero _
  have front : (b :: (tail ++ rest)).take (tail.length + 1) = b :: tail := by
    rw [List.take_succ_cons, List.take_left]
  unfold escapeAt charAt
  simp only [if_neg marked, if_neg printable, if_neg ascii, whole, if_neg some, front]
  rw [← bytes, decodeChar]
  exact ⟨trivial,rfl⟩

theorem charsOfSkip (limit used : Nat) (tail rest : List UInt8) :
    charsOf limit used tail.length (tail ++ rest) = charsOf limit used 0 rest := by
  induction tail with
  | nil => rfl
  | cons b tail ih => exact ih

theorem charsOfClean {limit used : Nat} {cs : List Char} (printable : ∀ c ∈ cs, 0x20 ≤ c.toNat)
    (room : used + 2 * (encode cs).length ≤ limit) : charsOf limit used 0 (encode cs) = cs := by
  induction cs generalizing used with
  | nil => rfl
  | cons c cs ih =>
    obtain ⟨here,later⟩ := List.forall_mem_cons.mp printable
    rw [encodeCons, List.length_append] at room
    rw [encodeCons]
    by_cases ascii : c.toNat < 0x80
    · rw [encodeAscii ascii] at room ⊢
      have byte : (UInt8.ofNat c.toNat).toNat = c.toNat := toNatByte (by omega)
      have low : ¬ UInt8.ofNat c.toNat < 0x20 := by
        intro below
        have := UInt8.lt_iff_toNat_lt.mp below
        rw [byte] at this
        exact absurd this (Nat.not_lt.mpr here)
      have high : UInt8.ofNat c.toNat < 0x80 := by
        rw [UInt8.lt_iff_toNat_lt, byte]
        exact ascii
      obtain ⟨short,one,same⟩ := escapeAtAscii (encode cs) low high
      rw [byte, Char.ofNat_toNat] at same
      rw [List.length_singleton] at room
      rw [List.singleton_append, charsOf]
      simp only [same, one, if_neg (show ¬ limit < used + (escapeAt (UInt8.ofNat c.toNat) (encode cs)).1.length by omega)]
      rw [ih later (by omega)]
      rfl
    · obtain ⟨b,tail,bytes,high,whole⟩ := utf8LenHigh (Nat.not_lt.mp ascii) (encode cs)
      obtain ⟨esc,same⟩ := escapeAtHigh (encode cs) bytes high whole
      rw [bytes, List.length_cons] at room
      rw [bytes, List.cons_append, charsOf, esc, same]
      simp only [List.length_cons, Nat.add_sub_cancel, charsOfSkip,
        if_neg (show ¬ limit < used + (tail.length + 1) by omega)]
      rw [ih later (by omega)]
      rfl

theorem digitsAscii {n : Nat} : ∀ c ∈ digits n, c.toNat < 0x80 := by
  intro c mem
  have range : 48 ≤ c.toNat ∧ c.toNat ≤ 57 := Char.isDigit_iff_toNat.mp (digitsAll mem)
  omega

theorem jsonHeadLength (line : LineOut) : (encode (jsonHead line)).length ≤ 49 := by
  have seq : (digits line.seq.toNat).length ≤ 10 :=
    digitsLength (by decide) (Nat.lt_trans line.seq.toNat_lt (by decide))
  have time : (digits line.uptimeMs.toNat).length ≤ 10 :=
    digitsLength (by decide) (Nat.lt_trans line.uptimeMs.toNat_lt (by decide))
  have ascii : ∀ c ∈ jsonHead line, c.toNat < 0x80 := by
    unfold jsonHead
    simp only [List.forall_mem_append]
    exact ⟨⟨⟨⟨by simp,digitsAscii⟩,by simp⟩,digitsAscii⟩,by simp⟩
  rw [encodeLength ascii]
  unfold jsonHead
  simp only [List.length_append, String.reduceToList, List.length_cons, List.length_nil, Nat.reduceAdd]
  omega

def lineDoc (line : LineOut) (shown : List Char) : Json.Value :=
  .obj [("seq".toList,.int (.ofNat line.seq.toNat)),("uptime_ms".toList,.int (.ofNat line.uptimeMs.toNat)),
    ("text".toList,.str shown)]

/- The characters that have room in `cap` bytes. -/
def shownChars (line : LineOut) (cap : Nat) : List Char :=
  charsOf (cap - 3) (encode (jsonHead line)).length 0 (cString line.text)

/- Every row is the text of one object. -/
theorem logRingJsonText (line : LineOut) {cap : Nat} (room : 64 ≤ cap) :
    logRingJson line cap = encode (Json.text (lineDoc line (shownChars line cap))) := by
  have short := jsonHeadLength line
  have fits : ¬ (cap < 64 ∨ cap ≤ (encode (jsonHead line)).length) := by omega
  have quoted : ∀ s, Json.text (.str s) = '"' :: (s.flatMap Json.escaped ++ ['"']) := fun _ => rfl
  have written : Json.text (lineDoc line (shownChars line cap)) =
      jsonHead line ++ (shownChars line cap).flatMap Json.escaped ++ "\"\x7d".toList := by
    unfold lineDoc jsonHead
    simp only [Json.objText,List.map_cons,List.map_nil,Json.natText,List.intercalate_cons_cons,
      List.intercalate_singleton,List.append_assoc,List.cons_append,List.nil_append,quoted]
    rfl
  rw [logRingJson, if_neg fits, written, encodeAppend, encodeAppend, escapeTextChars]
  rfl

/- The room for a row in the buffer of `h_logs`. -/
def rowRoom : Nat := 448

def rowChars (line : LineOut) : List Char :=
  charsOf (rowRoom - 3) (encode (jsonHead line)).length 0 (cString line.text)

def rowDoc (line : LineOut) : Json.Value :=
  .obj [("seq".toList,.int (.ofNat line.seq.toNat)),("uptime_ms".toList,.int (.ofNat line.uptimeMs.toNat)),
    ("text".toList,.str (rowChars line))]

theorem logRingJsonDoc (line : LineOut) : logRingJson line rowRoom = encode (Json.text (rowDoc line)) :=
  logRingJsonText line (by decide)

theorem rowCharsClean {line : LineOut} (clean : Clean (cString line.text)) :
    encode (rowChars line) = cString line.text := by
  obtain ⟨cs,bytes,printable⟩ := clean
  have short : (cString line.text).length ≤ 180 := by
    have prefixed := (List.takeWhile_prefix (fun b => b != 0)
      (l := (List.range logRingText).map line.text)).length_le
    rw [List.length_map, List.length_range] at prefixed
    exact prefixed
  have head := jsonHeadLength line
  rw [rowChars, bytes]
  rw [bytes] at short
  rw [charsOfClean printable (by unfold rowRoom; omega)]

end EpskcCommissioner.LogJson
