import EpskcCommissioner.CBuffer
import EpskcCommissioner.DatasetHex

/-! `recv_body` and its buffer: a request's content arrives in pieces that the network
chooses, or it does not arrive. -/
namespace EpskcCommissioner.RestBody
open CBytes (bytesAt)
open CBuffer

/- The outcome of each call of `httpd_req_recv`: nothing for its error or the peer's end,
`more` for `more + 1` bytes, if so many were asked for. -/
abbrev Recv := Nat → Option Nat

/- The loop. `call` counts the reads. -/
def recvLoop (content : List UInt8) (recv : Recv) : (fuel call total : Nat) → (buf : List UInt8) →
    Stored (Bool × Nat × List UInt8)
  | 0, _, _, _ => .error (.other .fuel)
  | fuel + 1, call, total, buf =>
    if total < content.length then
      match recv call with
      | none => do
        let buf ← store buf 0 0
        .ok (false,total,buf)
      | some more => do
        let n := min (more + 1) (content.length - total)
        let out ← putAll ⟨buf,total⟩ ((content.drop total).take n)
        recvLoop content recv fuel (call + 1) (total + n) out.buf
    else .ok (true,total,buf)

def otbrRestTerminateBody (buf : List UInt8) (length capacity : Nat) : Stored (Bool × List UInt8) :=
  if capacity ≤ length then .ok (false,buf)
  else do
    let bytes ← reading (bytesAt buf 0 length)
    if bytes.contains 0 then .ok (false,buf)
    else do
      let buf ← store buf length 0
      .ok (true,buf)

def recvBody (content : List UInt8) (recv : Recv) (buf : List UInt8) (cap : Nat) : Stored (Bool × List UInt8) :=
  if cap = 0 ∨ cap ≤ content.length then .ok (false,buf)
  else do
    let (received,total,buf) ← recvLoop content recv (content.length + 1) 0 0 buf
    if !received then .ok (false,buf) else otbrRestTerminateBody buf total cap

inductive ReadFails (recv : Recv) (expected : Nat) : (call total : Nat) → Prop where
  | here {call total} (more : total < expected) (failed : recv call = none) : ReadFails recv expected call total
  | later {call total n} (more : total < expected) (read : recv call = some n)
      (fails : ReadFails recv expected (call + 1) (total + min (n + 1) (expected - total))) :
      ReadFails recv expected call total

def pieces (content : List UInt8) (recv : Recv) : (fuel call total : Nat) → List (List UInt8)
  | 0, _, _ => []
  | fuel + 1, call, total =>
    if total < content.length then
      match recv call with
      | none => [[]]
      | some more =>
        let n := min (more + 1) (content.length - total)
        (content.drop total).take n :: pieces content recv fuel (call + 1) (total + n)
    else []

variable {content buf : List UInt8} {recv : Recv} {cap fuel call total : Nat}

theorem failsStep {n expected : Nat} (more : total < expected) (read : recv call = some n) :
    ReadFails recv expected call total ↔
      ReadFails recv expected (call + 1) (total + min (n + 1) (expected - total)) := by
  constructor
  · intro fails
    cases fails with
    | here _ failed => exact absurd (failed.symm.trans read) (Option.some_ne_none n).symm
    | later _ same fails => rwa [Option.some.inj (read.symm.trans same)]
  · exact .later more read

theorem failsDone {expected : Nat} (done : expected ≤ total) : ¬ ReadFails recv expected call total := by
  intro fails
  cases fails with
  | here more _ => omega
  | later more _ _ => omega

structure Received (content : List UInt8) (cap : Nat) (fails : Prop) (result : Bool × Nat × List UInt8)
    (gathered : Option (List UInt8)) : Prop where
  size : result.2.2.length = cap
  failed : fails → result.1 = false ∧ [0] <+: result.2.2 ∧ gathered = none
  whole : ¬ fails → result.1 = true ∧ result.2.1 = content.length ∧ content <+: result.2.2 ∧ gathered = some content

theorem recvLoopRuns (enough : content.length - total < fuel) (inside : total ≤ content.length)
    (room : content.length < cap) (filled : Filled cap (content.take total) ⟨buf,total⟩) :
    ∃ result, recvLoop content recv fuel call total buf = .ok result ∧
      Received content cap (ReadFails recv content.length call total) result
        (DatasetHex.recvLoop content.length (content.take total) (pieces content recv fuel call total)) := by
  induction fuel generalizing call total buf with
  | zero => omega
  | succ fuel ih =>
    have long : (content.take total).length = total := List.length_take_of_le inside
    rw [recvLoop, pieces]
    by_cases more : total < content.length
    · rw [if_pos more, if_pos more]
      cases read : recv call with
      | none =>
        have start := filledStart buf
        rw [filled.size] at start
        obtain ⟨last,stored,size,front⟩ := storeFilled start 0 (by rw [List.length_nil]; omega)
        refine ⟨(false,total,last),?_,size,fun _ => ⟨rfl,front,?_⟩,fun ok => absurd (.here more read) ok⟩
        · dsimp only at stored ⊢
          rw [stored, okBind]
        · rw [DatasetHex.recvLoop, if_neg (by omega), if_pos rfl]
      | some n =>
        dsimp only
        generalize taken : min (n + 1) (content.length - total) = k
        have some : 0 < k := by omega
        have most : total + k ≤ content.length := by omega
        have piece : ((content.drop total).take k).length = k := by
          rw [List.length_take_of_le]
          rw [List.length_drop]
          omega
        have joined : content.take total ++ (content.drop total).take k = content.take (total + k) :=
          List.take_add.symm
        have kept : ((content.drop total).take k).take (content.length - total) = (content.drop total).take k :=
          List.take_of_length_le (by omega)
        obtain ⟨⟨after,pos⟩,stored,filled⟩ := putAllFilled filled ((content.drop total).take k) (by
          rw [piece, List.length_take_of_le (by omega)]
          omega)
        rw [joined] at filled
        have place : pos = total + k := filled.place.trans (List.length_take_of_le most)
        subst place
        obtain ⟨result,done,received⟩ := @ih after (call + 1) (total + k) (by omega) most filled
        refine ⟨result,?_,?_⟩
        · rw [stored, okBind, done]
        · have notNil : (content.drop total).take k ≠ [] := List.length_pos_iff.mp (by omega)
          have step : DatasetHex.recvLoop content.length (content.take total)
              ((content.drop total).take k :: pieces content recv fuel (call + 1) (total + k)) =
              DatasetHex.recvLoop content.length (content.take (total + k))
                (pieces content recv fuel (call + 1) (total + k)) := by
            rw [DatasetHex.recvLoop, if_neg (by omega), if_neg notNil, long, kept, joined]
          rw [step, failsStep more read, taken]
          exact received
    · have all : total = content.length := by omega
      have done : content.take total = content := List.take_of_length_le (by omega)
      rw [if_neg more, if_neg more]
      refine ⟨(true,total,buf),rfl,filled.size,fun fails => absurd fails (failsDone (by omega)),fun _ => ?_⟩
      refine ⟨rfl,all,?_,?_⟩
      · rw [← done]
        exact filled.text
      · rw [DatasetHex.recvLoop, if_pos (by omega), done]

theorem terminateRuns (front : content <+: buf) (size : buf.length = cap) (room : content.length < cap) : ∃ after,
    otbrRestTerminateBody buf content.length cap = .ok (decide (0 ∉ content),after) ∧ after.length = cap ∧
      (0 ∉ content → content ++ [0] <+: after) := by
  obtain ⟨rest,rfl⟩ := id front
  have seen : bytesAt (content ++ rest) 0 content.length = .ok content := by
    rw [bytesAt, if_pos (by omega), List.drop_zero, List.take_left]
  rw [otbrRestTerminateBody, if_neg (by omega), seen, readingOk, okBind]
  by_cases noNul : 0 ∈ content
  · rw [if_pos (List.contains_iff_mem.mpr noNul), decide_eq_false (not_not_intro noNul)]
    exact ⟨_,rfl,size,fun none => absurd noNul none⟩
  · have plain : ¬ content.contains 0 = true := fun found => noNul (List.contains_iff_mem.mp found)
    rw [if_neg plain, decide_eq_true noNul, storeInside (by omega), okBind]
    exact ⟨_,rfl,List.length_set.trans size,fun _ => setPrefix front (by omega)⟩

/- Whatever the pieces, the content is there with its NUL, or the request is turned away;
after a read that failed the buffer holds the empty string. The pieces come to the same
for a reader that knows no buffer. -/
theorem contentReceived (content : List UInt8) (recv : Recv) (cap : Nat) (buf : Vector UInt8 cap) : ∃ ok after,
    recvBody content recv buf.toList cap = .ok (ok,after) ∧ after.length = cap ∧
    (ok = true ↔ ¬ ReadFails recv content.length 0 0 ∧ content.length < cap ∧ 0 ∉ content) ∧
    (ok = true → content ++ [0] <+: after ∧ stringIn after = content) ∧
    (content.length < cap → ReadFails recv content.length 0 0 → ok = false ∧ stringIn after = []) ∧
    DatasetHex.recvBody content.length (pieces content recv (content.length + 1) 0 0) cap =
      if ok then some content else none := by
  by_cases long : cap ≤ content.length
  · refine ⟨false,buf.toList,if_pos (.inr long),Vector.length_toList,?_,?_,?_,?_⟩
    · exact ⟨fun ok => (Bool.false_ne_true ok).elim,fun all => absurd all.2.1 (Nat.not_lt.mpr long)⟩
    · exact fun ok => (Bool.false_ne_true ok).elim
    · exact fun short => absurd long (Nat.not_le.mpr short)
    · simp [DatasetHex.recvBody,long]
  · have short := Nat.not_le.mp long
    have start := filledStart buf.toList
    rw [Vector.length_toList] at start
    obtain ⟨⟨received,total,next⟩,done,size,failed,whole⟩ :=
      @recvLoopRuns content buf.toList recv cap (content.length + 1) 0 0 (by omega) (Nat.zero_le _) short
        (by rwa [List.take_zero])
    have small : ¬ (cap = 0 ∨ cap ≤ content.length) := by omega
    have abstract : DatasetHex.recvBody content.length (pieces content recv (content.length + 1) 0 0) cap =
        (DatasetHex.recvLoop content.length [] (pieces content recv (content.length + 1) 0 0)).bind
          (fun buf => DatasetHex.otbrRestTerminateBody buf cap) := by
      rw [DatasetHex.recvBody, if_neg]
      simpa using not_or.mp small
    rw [List.take_zero] at failed whole
    rw [recvBody, if_neg small, done, okBind, abstract]
    by_cases fails : ReadFails recv content.length 0 0
    · obtain ⟨refused,emptied,nothing⟩ := failed fails
      simp only at refused emptied size
      subst refused
      rw [nothing]
      refine ⟨false,next,rfl,size,?_,?_,?_,rfl⟩
      · exact ⟨fun ok => (Bool.false_ne_true ok).elim,fun all => absurd fails all.1⟩
      · exact fun ok => (Bool.false_ne_true ok).elim
      · exact fun _ _ => ⟨rfl,stringInFront List.not_mem_nil emptied⟩
    · obtain ⟨accepted,all,front,gathered⟩ := whole fails
      simp only at accepted all front size
      subst accepted all
      obtain ⟨after,ended,size,string⟩ := terminateRuns front size short
      rw [gathered]
      refine ⟨decide (0 ∉ content),after,ended,size,?_,?_,?_,?_⟩
      · rw [decide_eq_true_iff]
        exact ⟨fun noNul => ⟨fails,short,noNul⟩,fun all => all.2.2⟩
      · intro ok
        have noNul := of_decide_eq_true ok
        exact ⟨string noNul,stringInFront noNul (string noNul)⟩
      · exact fun _ failed => absurd failed fails
      · by_cases noNul : 0 ∈ content
        · simp [DatasetHex.otbrRestTerminateBody,noNul]
        · simp [DatasetHex.otbrRestTerminateBody,noNul,long]

end EpskcCommissioner.RestBody
