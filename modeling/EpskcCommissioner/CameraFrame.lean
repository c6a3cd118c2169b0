import Mathlib.Data.List.Range
import Mathlib.Data.List.Nodup
import Mathlib.Data.UInt
import Mathlib.Tactic.Linarith

/-! What `qrscan_poll` and `qrscan_dump_ascii` make of a frame: the grey picture, the preview
under the camera's page, the figures of its brightness, and the picture of characters. -/
namespace EpskcCommissioner.CameraFrame

/- `QRSCAN_PREVIEW_W` and `QRSCAN_PREVIEW_H` -/
def previewW : Nat := 320
def previewH : Nat := 150

def rgb565Luma (p : UInt16) : UInt8 :=
  let r := (((p >>> 11) &&& 0x1f) <<< 3).toUInt8
  let g := (((p >>> 5) &&& 0x3f) <<< 2).toUInt8
  let b := ((p &&& 0x1f) <<< 3).toUInt8
  ((77 * r.toUInt32 + 151 * g.toUInt32 + 28 * b.toUInt32) >>> 8).toUInt8

def pack (g : UInt8) : UInt16 :=
  ((g >>> 3).toUInt16 <<< 11) ||| ((g >>> 2).toUInt16 <<< 5) ||| (g >>> 3).toUInt16

/- `V4L2_PIX_FMT_GREY`, `V4L2_PIX_FMT_YUYV`, `V4L2_PIX_FMT_RGB565X`, and whatever else. -/
inductive Fourcc where
  | grey | yuyv | rgb565x | other
  deriving DecidableEq, Repr

def bytesPerPixel : Fourcc → Nat
  | .grey => 1
  | .yuyv | .rgb565x | .other => 2

/- The grey value of one pixel, or nothing where the source ends before it. -/
def greyAt (fourcc : Fourcc) (src : List UInt8) (i : Nat) : Option UInt8 :=
  match fourcc with
  | .grey => src[i]?
  | .yuyv => src[i * 2]?
  | .rgb565x => do
    let low ← src[2 * i]?
    let high ← src[2 * i + 1]?
    let p := low.toUInt16 ||| high.toUInt16 <<< 8
    some (rgb565Luma (p >>> 8 ||| p <<< 8))
  | .other => do
    let low ← src[2 * i]?
    let high ← src[2 * i + 1]?
    some (rgb565Luma (low.toUInt16 ||| high.toUInt16 <<< 8))

def toGrey (fourcc : Fourcc) (src : List UInt8) (px : Nat) : Option (List UInt8) :=
  (List.range px).mapM (greyAt fourcc src)

/- A store into the preview: its index, and the pixel of the grey picture that it shows, or
none for the black beside it. -/
structure Store where
  index : Int
  source : Option Nat
  deriving DecidableEq, Repr

def pw (w h : Nat) : Nat := w * previewH / h

def x0 (w h : Nat) : Int := ((previewW : Int) - pw w h).tdiv 2

def rowStores (w h y : Nat) : List Store :=
  let dst : Int := y * previewW
  let srow := y * h / previewH * w
  ((List.range (x0 w h).toNat).map fun x => ⟨dst + x,none⟩) ++
    ((List.range (pw w h)).map fun x => ⟨dst + (x0 w h + x),some (srow + x * w / pw w h)⟩) ++
    ((List.range (previewW - (x0 w h + pw w h)).toNat).map fun x => ⟨dst + (x0 w h + pw w h + x),none⟩)

def previewStores (w h : Nat) : List Store := (List.range previewH).flatMap (rowStores w h)

def storeValue (grey : List UInt8) : Option Nat → Option UInt16
  | none => some 0
  | some i => (grey[i]?).map pack

structure Stats where
  sum : UInt32
  lo : UInt8
  hi : UInt8
  deriving DecidableEq, Repr

def Stats.add (s : Stats) (g : UInt8) : Stats :=
  ⟨s.sum + g.toUInt32,if g < s.lo then g else s.lo,if g > s.hi then g else s.hi⟩

/- The pixels that count: every seventh. -/
def sampled (grey : List UInt8) : List UInt8 := (grey.zipIdx.filter fun p => p.2 % 7 == 0).map Prod.fst

def statsOf (grey : List UInt8) : Stats := (sampled grey).foldl Stats.add ⟨0,255,0⟩

/- `s_mean`; the division faults on an empty frame. -/
def meanOf (grey : List UInt8) : Option UInt8 :=
  if grey.length = 0 then none
  else some ((statsOf grey).sum.toNat / ((grey.length + 6) / 7) % 256).toUInt8

/- `qrscan_dump_ascii` -/
def ramp : List Char := "@%#*+=-:. ".toList
def cols : Nat := 64
def rows : Nat := 30

/- The source region of a cell: from one boundary to the next. -/
def bound (n size k : Nat) : Nat := k * size / n

def cellPixels (w h r c : Nat) : List Nat :=
  (List.range' (bound rows h r) (bound rows h (r + 1) - bound rows h r)).flatMap fun y =>
    (List.range' (bound cols w c) (bound cols w (c + 1) - bound cols w c)).map fun x => y * w + x

def cellChar (grey : List UInt8) (w h r c : Nat) : Option Char := do
  let values ← (cellPixels w h r c).mapM fun i => grey[i]?
  let sum := values.foldl (fun (n : UInt32) g => n + g.toUInt32) 0
  let v : Nat := if values.length = 0 then 0 else sum.toNat / values.length % 256
  ramp[v * 9 / 255]?

variable {w h : Nat} {grey src : List UInt8} {fourcc : Fourcc}

def luma (p : Nat) : Nat := (77 * (p / 2048 * 8) + 151 * (p / 32 % 64 * 4) + 28 * (p % 32 * 8)) / 256

theorem maskFive (n : Nat) : n &&& 31 = n % 32 := Nat.and_two_pow_sub_one_eq_mod n 5

theorem maskSix (n : Nat) : n &&& 63 = n % 64 := Nat.and_two_pow_sub_one_eq_mod n 6

theorem meanValue (r g b : UInt8) : (((77 * r.toUInt32 + 151 * g.toUInt32 + 28 * b.toUInt32) >>> 8).toUInt8).toNat =
    (77 * r.toNat + 151 * g.toNat + 28 * b.toNat) / 256 := by
  have red := r.toNat_lt
  have green := g.toNat_lt
  have blue := b.toNat_lt
  have small : 77 * r.toNat + 151 * g.toNat + 28 * b.toNat < 65536 := by omega
  simp [Nat.shiftRight_eq_div_pow]
  generalize 77 * r.toNat + 151 * g.toNat + 28 * b.toNat = n at small ⊢
  omega

theorem lumaValue (p : UInt16) : (rgb565Luma p).toNat = luma p.toNat := by
  have small := p.toNat_lt
  have red : ((((p >>> 11) &&& 0x1f) <<< 3).toUInt8).toNat = p.toNat / 2048 * 8 := by
    simp [Nat.shiftRight_eq_div_pow,Nat.shiftLeft_eq,maskFive]
    omega
  have green : ((((p >>> 5) &&& 0x3f) <<< 2).toUInt8).toNat = p.toNat / 32 % 64 * 4 := by
    simp [Nat.shiftRight_eq_div_pow,Nat.shiftLeft_eq,maskSix]
    omega
  have blue : (((p &&& 0x1f) <<< 3).toUInt8).toNat = p.toNat % 32 * 8 := by
    simp [Nat.shiftLeft_eq,maskFive]
    omega
  refine (meanValue _ _ _).trans ?_
  rw [red, green, blue, luma]

theorem pairValue (low high : UInt8) : (low.toUInt16 ||| high.toUInt16 <<< 8).toNat = high.toNat * 256 + low.toNat := by
  have small := low.toNat_lt
  have above := high.toNat_lt
  have apart := Nat.shiftLeft_add_eq_or_of_lt small high.toNat
  have shifted : high.toNat * 256 % 65536 = high.toNat * 256 := Nat.mod_eq_of_lt (by omega)
  simp only [UInt16.toNat_or,UInt16.toNat_shiftLeft,UInt8.toNat_toUInt16]
  change low.toNat ||| high.toNat <<< 8 % 65536 = _
  rw [Nat.shiftLeft_eq] at apart ⊢
  change low.toNat ||| high.toNat * 256 % 65536 = _
  rw [shifted, Nat.or_comm]
  exact apart.symm

theorem swapValue (low high : UInt8) : (low.toUInt16 ||| high.toUInt16 <<< 8) >>> 8 |||
    (low.toUInt16 ||| high.toUInt16 <<< 8) <<< 8 = high.toUInt16 ||| low.toUInt16 <<< 8 := by
  have small := low.toNat_lt
  have above := high.toNat_lt
  have pair := pairValue low high
  have top : (low.toUInt16 ||| high.toUInt16 <<< 8) >>> 8 = high.toUInt16 := by
    apply UInt16.toNat_inj.mp
    rw [UInt16.toNat_shiftRight, pair, UInt8.toNat_toUInt16]
    change (high.toNat * 256 + low.toNat) >>> 8 = _
    rw [Nat.shiftRight_eq_div_pow]
    omega
  have bottom : (low.toUInt16 ||| high.toUInt16 <<< 8) <<< 8 = low.toUInt16 <<< 8 := by
    apply UInt16.toNat_inj.mp
    rw [UInt16.toNat_shiftLeft, pair, UInt16.toNat_shiftLeft, UInt8.toNat_toUInt16]
    change (high.toNat * 256 + low.toNat) <<< 8 % 65536 = low.toNat <<< 8 % 65536
    rw [Nat.shiftLeft_eq, Nat.shiftLeft_eq]
    omega
  rw [top, bottom]

/- What the grey value of a pixel is in each format: the pixel itself, the first byte of its
two, or the luma of its two bytes, the greater one first or last. -/
def Shade (fourcc : Fourcc) (src : List UInt8) (i : Nat) (g : UInt8) : Prop :=
  match fourcc with
  | .grey => src[i]? = some g
  | .yuyv => src[i * 2]? = some g
  | .rgb565x => ∃ high low, src[2 * i]? = some high ∧ src[2 * i + 1]? = some low ∧
    g.toNat = luma (high.toNat * 256 + low.toNat)
  | .other => ∃ low high, src[2 * i]? = some low ∧ src[2 * i + 1]? = some high ∧
    g.toNat = luma (high.toNat * 256 + low.toNat)

theorem greyShade {i : Nat} {g : UInt8} (grey : greyAt fourcc src i = some g) : Shade fourcc src i g := by
  cases fourcc with
  | grey => exact grey
  | yuyv => exact grey
  | rgb565x =>
    obtain ⟨first,low,rest⟩ := Option.bind_eq_some_iff.mp grey
    obtain ⟨second,high,same⟩ := Option.bind_eq_some_iff.mp rest
    cases Option.some.inj same
    exact ⟨first,second,low,high,by rw [swapValue, lumaValue, pairValue]⟩
  | other =>
    obtain ⟨first,low,rest⟩ := Option.bind_eq_some_iff.mp grey
    obtain ⟨second,high,same⟩ := Option.bind_eq_some_iff.mp rest
    cases Option.some.inj same
    exact ⟨first,second,low,high,by rw [lumaValue, pairValue]⟩

theorem packLuma (g : UInt8) : (rgb565Luma (pack g)).toNat ≤ g.toNat ∧ g.toNat ≤ (rgb565Luma (pack g)).toNat + 7 := by
  have all : ∀ n < 256, (rgb565Luma (pack (UInt8.ofNat n))).toNat ≤ n ∧ n ≤ (rgb565Luma (pack (UInt8.ofNat n))).toNat + 7 := by
    decide +kernel
  have here := all g.toNat g.toNat_lt
  rw [UInt8.ofNat_toNat] at here
  exact here

theorem greyAtSome {px i : Nat} (enough : bytesPerPixel fourcc * px ≤ src.length) (inside : i < px) :
    ∃ g, greyAt fourcc src i = some g := by
  cases fourcc with
  | grey =>
    have there : i < src.length := by
      change 1 * px ≤ src.length at enough
      omega
    exact ⟨_,List.getElem?_eq_getElem there⟩
  | yuyv =>
    have there : i * 2 < src.length := by
      change 2 * px ≤ src.length at enough
      omega
    exact ⟨_,List.getElem?_eq_getElem there⟩
  | rgb565x | other =>
    change 2 * px ≤ src.length at enough
    have low : 2 * i < src.length := by omega
    have high : 2 * i + 1 < src.length := by omega
    unfold greyAt
    rw [List.getElem?_eq_getElem low, List.getElem?_eq_getElem high]
    exact ⟨_,rfl⟩

theorem mapMSome {α β : Type} (f : α → Option β) (xs : List α) (all : ∀ a ∈ xs, ∃ b, f a = some b) :
    ∃ ys, xs.mapM f = some ys ∧ ys.length = xs.length ∧
      ∀ (i : Nat) (a : α), xs[i]? = some a → ∃ b, ys[i]? = some b ∧ f a = some b := by
  induction xs with
  | nil => exact ⟨[],rfl,rfl,nofun⟩
  | cons a xs ih =>
    obtain ⟨b,first⟩ := all a List.mem_cons_self
    obtain ⟨ys,rest,long,each⟩ := ih fun a mem => all a (List.mem_cons_of_mem _ mem)
    refine ⟨b :: ys,?_,congrArg (· + 1) long,fun i a' here => ?_⟩
    · rw [List.mapM_cons, first, rest]
      rfl
    · cases i with
      | zero => exact ⟨b,rfl,Option.some.inj here ▸ first⟩
      | succ i => exact each i a' here

theorem toGreyWhole {px : Nat} (enough : bytesPerPixel fourcc * px ≤ src.length) :
    ∃ grey, toGrey fourcc src px = some grey ∧ grey.length = px ∧
      ∀ i < px, ∃ g, grey[i]? = some g ∧ Shade fourcc src i g := by
  obtain ⟨grey,same,long,each⟩ := mapMSome (greyAt fourcc src) (List.range px)
    fun i mem => greyAtSome enough (List.mem_range.mp mem)
  refine ⟨grey,same,long.trans List.length_range,fun i inside => ?_⟩
  obtain ⟨g,there,read⟩ := each i i (List.getElem?_range inside)
  exact ⟨g,there,greyShade read⟩

/- The picture stands in the middle, and its first column is not before the row. -/
def left (w h : Nat) : Nat := (previewW - pw w h) / 2

def InPicture (w h x : Nat) : Prop := left w h ≤ x ∧ x < left w h + pw w h

instance (w h x : Nat) : Decidable (InPicture w h x) := inferInstanceAs (Decidable (_ ∧ _))

/- The pixel of the frame that a place of the picture shows: the frame scaled to the picture. -/
def pixelAt (w h y x : Nat) : Nat := y * h / previewH * w + (x - left w h) * w / pw w h

def storeAt (w h y x : Nat) : Store :=
  ⟨(y * previewW + x : Nat),if InPicture w h x then some (pixelAt w h y x) else none⟩

theorem x0Nat (fits : pw w h ≤ previewW) : x0 w h = (left w h : Nat) := by
  unfold x0 left
  rw [Int.tdiv_eq_ediv_of_nonneg (by omega)]
  omega

theorem rowShows (fits : pw w h ≤ previewW) (y : Nat) :
    rowStores w h y = (List.range previewW).map (storeAt w h y) := by
  have middle := x0Nat fits
  have inside : left w h + pw w h ≤ previewW := by
    unfold left
    omega
  have before : (x0 w h).toNat = left w h := by omega
  have behind : ((previewW : Int) - (x0 w h + pw w h)).toNat = previewW - (left w h + pw w h) := by omega
  have whole : List.range previewW = List.range (left w h) ++ (List.range (pw w h)).map (left w h + ·) ++
      (List.range (previewW - (left w h + pw w h))).map (left w h + pw w h + ·) := by
    rw [← List.range_add, ← List.range_add, Nat.add_sub_cancel' inside]
  unfold rowStores
  dsimp only
  rw [before, behind, whole]
  simp only [List.map_append, List.map_map]
  refine congrArg₂ _ (congrArg₂ _ ?_ ?_) ?_
  · refine List.map_congr_left fun x mem => ?_
    have outside : ¬InPicture w h x := fun shown => absurd shown.1 (Nat.not_le.mpr (List.mem_range.mp mem))
    rw [storeAt, if_neg outside]
    rfl
  · refine List.map_congr_left fun x mem => ?_
    have shown : InPicture w h (left w h + x) :=
      ⟨Nat.le_add_right _ _,Nat.add_lt_add_left (List.mem_range.mp mem) _⟩
    simp only [Function.comp_apply,storeAt,if_pos shown,pixelAt,Nat.add_sub_cancel_left,Store.mk.injEq,and_true]
    omega
  · refine List.map_congr_left fun x _ => ?_
    have outside : ¬InPicture w h (left w h + pw w h + x) := fun shown =>
      absurd shown.2 (Nat.not_lt.mpr (Nat.le_add_right _ _))
    simp only [Function.comp_apply,storeAt,if_neg outside,Store.mk.injEq,and_true]
    omega

theorem rangeRows {α : Type} (f : Nat → Nat → α) (n : Nat) {m : Nat} (wide : 0 < m) :
    (List.range n).flatMap (fun y => (List.range m).map (f y)) =
      (List.range (n * m)).map fun i => f (i / m) (i % m) := by
  induction n with
  | zero => rw [Nat.zero_mul]; rfl
  | succ n ih =>
    rw [List.range_succ, List.flatMap_append, ih, Nat.succ_mul, List.range_add, List.flatMap_singleton,
      List.map_append, List.map_map]
    refine congrArg₂ _ rfl (List.map_congr_left fun x mem => ?_)
    have inside := List.mem_range.mp mem
    rw [Function.comp_apply, Nat.mul_comm n, Nat.mul_add_div wide, Nat.div_eq_of_lt inside, Nat.mul_add_mod,
      Nat.mod_eq_of_lt inside, Nat.add_zero]

theorem previewShows (fits : pw w h ≤ previewW) : previewStores w h =
    (List.range (previewH * previewW)).map fun i => storeAt w h (i / previewW) (i % previewW) := by
  unfold previewStores
  rw [← rangeRows (storeAt w h) previewH (show 0 < previewW by decide)]
  exact List.flatMap_congr fun y _ => rowShows fits y

theorem previewAt (fits : pw w h ≤ previewW) {y x : Nat} (row : y < previewH) (column : x < previewW) :
    (previewStores w h)[y * previewW + x]? = some (storeAt w h y x) := by
  have inside : y * previewW + x < previewH * previewW := by
    unfold previewW previewH at *
    omega
  have line : (y * previewW + x) / previewW = y := by
    unfold previewW at *
    omega
  have place : (y * previewW + x) % previewW = x := by
    unfold previewW at *
    omega
  rw [previewShows fits, List.getElem?_map, List.getElem?_range inside, Option.map_some, line, place]

theorem pixelInside {y x : Nat} (tall : 0 < h) (row : y < previewH) (shown : InPicture w h x) :
    pixelAt w h y x < w * h := by
  have column : x - left w h < pw w h := by
    obtain ⟨low,high⟩ := shown
    omega
  have some : 0 < pw w h := Nat.zero_lt_of_lt column
  have wide : 0 < w := by
    refine Nat.pos_of_ne_zero fun none => ?_
    subst none
    unfold pw at some
    rw [Nat.zero_mul, Nat.zero_div] at some
    exact Nat.lt_irrefl _ some
  have line : y * h / previewH < h := by
    refine (Nat.div_lt_iff_lt_mul (by decide)).mpr ?_
    rw [Nat.mul_comm h]
    exact Nat.mul_lt_mul_of_pos_right row tall
  have across : (x - left w h) * w / pw w h < w := by
    refine (Nat.div_lt_iff_lt_mul some).mpr ?_
    rw [Nat.mul_comm w]
    exact Nat.mul_lt_mul_of_pos_right column wide
  calc y * h / previewH * w + (x - left w h) * w / pw w h
      < y * h / previewH * w + w := Nat.add_lt_add_left across _
    _ = (y * h / previewH + 1) * w := (Nat.succ_mul _ _).symm
    _ ≤ h * w := Nat.mul_le_mul_right w line
    _ = w * h := Nat.mul_comm h w

/- What the preview has at a place: black beside the picture, and in it the pixel of the grey
frame there, as bright as it was to seven levels. -/
structure Drawn (w h : Nat) (grey : List UInt8) (y x : Nat) (store : Store) : Prop where
  index : store.index = (y * previewW + x : Nat)
  black : ¬InPicture w h x → storeValue grey store.source = some 0
  shown : InPicture w h x → ∃ g, grey[pixelAt w h y x]? = some g ∧ storeValue grey store.source = some (pack g) ∧
    (rgb565Luma (pack g)).toNat ≤ g.toNat ∧ g.toNat ≤ (rgb565Luma (pack g)).toNat + 7

theorem storeDrawn {y x : Nat} (tall : 0 < h) (row : y < previewH) (whole : grey.length = w * h) :
    Drawn w h grey y x (storeAt w h y x) := by
  refine ⟨rfl,fun outside => ?_,fun shown => ?_⟩
  · rw [storeAt, if_neg outside]
    rfl
  · have inside := pixelInside tall row shown
    have there : grey[pixelAt w h y x]? = some (grey.get ⟨_,whole.symm ▸ inside⟩) := List.getElem?_eq_getElem _
    refine ⟨_,there,?_,packLuma _⟩
    rw [storeAt, if_pos shown, storeValue, there]
    rfl

/- A frame whose picture is no wider than the preview goes through without a read or a store out
of place: the grey frame has the shade of every pixel, and every place of the preview is stored
once, with what is drawn there. -/
theorem frameDrawn (tall : 0 < h) (fits : pw w h ≤ previewW) (enough : bytesPerPixel fourcc * (w * h) ≤ src.length) :
    ∃ grey, toGrey fourcc src (w * h) = some grey ∧ grey.length = w * h ∧
      (∀ i < w * h, ∃ g, grey[i]? = some g ∧ Shade fourcc src i g) ∧
      (previewStores w h).length = previewH * previewW ∧
      ∀ y < previewH, ∀ x < previewW, ∃ store,
        (previewStores w h)[y * previewW + x]? = some store ∧ Drawn w h grey y x store := by
  obtain ⟨grey,same,long,shades⟩ := toGreyWhole enough
  refine ⟨grey,same,long,shades,?_,fun y row x column => ?_⟩
  · rw [previewShows fits, List.length_map, List.length_range]
  · exact ⟨_,previewAt fits row column,storeDrawn tall row long⟩

/- The camera's frame in one grey: its picture is 200 pixels wide and begins at the sixtieth. -/
def flat : List UInt8 := List.replicate 153600 90

theorem frameDrawnFlat : ∃ grey, toGrey .yuyv flat (320 * 240) = some grey ∧
    (∃ store, (previewStores 320 240)[149 * 320 + 259]? = some store ∧ storeValue grey store.source = some (pack 90)) ∧
    ∃ store, (previewStores 320 240)[149 * 320 + 260]? = some store ∧ storeValue grey store.source = some 0 := by
  have enough : bytesPerPixel .yuyv * (320 * 240) ≤ flat.length := Nat.le_of_eq List.length_replicate.symm
  obtain ⟨grey,same,_,shades,_,drawn⟩ := frameDrawn (show 0 < 240 by decide) (show pw 320 240 ≤ previewW by decide) enough
  refine ⟨grey,same,?_,?_⟩
  · obtain ⟨store,there,drawn⟩ := drawn 149 (by decide) 259 (by decide)
    obtain ⟨g,read,value,_⟩ := drawn.shown (by decide)
    obtain ⟨other,also,shade⟩ := shades (pixelAt 320 240 149 259) (by decide)
    cases Option.some.inj (read.symm.trans also)
    have grey : g = 90 := by
      have byte : flat[pixelAt 320 240 149 259 * 2]? = some 90 := List.getElem?_replicate_of_lt (by decide)
      exact Option.some.inj (shade.symm.trans byte)
    exact ⟨store,there,grey ▸ value⟩
  · obtain ⟨store,there,drawn⟩ := drawn 149 (by decide) 260 (by decide)
    exact ⟨store,there,drawn.black (by decide)⟩

def total (xs : List UInt8) : Nat := xs.foldr (fun g n => g.toNat + n) 0

theorem totalBound (xs : List UInt8) : total xs ≤ 255 * xs.length := by
  induction xs with
  | nil => exact Nat.le_refl _
  | cons g xs ih =>
    have small := g.toNat_lt
    change g.toNat + total xs ≤ 255 * (xs.length + 1)
    omega

structure Figures (s : Stats) (xs : List UInt8) (t : Stats) : Prop where
  sum : t.sum.toNat = s.sum.toNat + total xs
  lo : t.lo ≤ s.lo
  hi : s.hi ≤ t.hi
  between : ∀ g ∈ xs, t.lo ≤ g ∧ g ≤ t.hi
  loFrom : t.lo = s.lo ∨ t.lo ∈ xs
  hiFrom : t.hi = s.hi ∨ t.hi ∈ xs

theorem addLo (s : Stats) (g : UInt8) : (s.add g).lo ≤ s.lo ∧ (s.add g).lo ≤ g ∧ ((s.add g).lo = s.lo ∨ (s.add g).lo = g) := by
  change (if g < s.lo then g else s.lo) ≤ s.lo ∧ (if g < s.lo then g else s.lo) ≤ g ∧
    ((if g < s.lo then g else s.lo) = s.lo ∨ (if g < s.lo then g else s.lo) = g)
  split
  · rename_i less
    exact ⟨UInt8.le_of_lt less,UInt8.le_refl g,.inr rfl⟩
  · rename_i more
    exact ⟨UInt8.le_refl _,UInt8.not_lt.mp more,.inl rfl⟩

theorem addHi (s : Stats) (g : UInt8) : s.hi ≤ (s.add g).hi ∧ g ≤ (s.add g).hi ∧ ((s.add g).hi = s.hi ∨ (s.add g).hi = g) := by
  change s.hi ≤ (if g > s.hi then g else s.hi) ∧ g ≤ (if g > s.hi then g else s.hi) ∧
    ((if g > s.hi then g else s.hi) = s.hi ∨ (if g > s.hi then g else s.hi) = g)
  split
  · rename_i more
    exact ⟨UInt8.le_of_lt more,UInt8.le_refl g,.inr rfl⟩
  · rename_i less
    exact ⟨UInt8.le_refl _,UInt8.not_lt.mp less,.inl rfl⟩

theorem figures (s : Stats) (xs : List UInt8) (fits : s.sum.toNat + total xs < 4294967296) :
    Figures s xs (xs.foldl Stats.add s) := by
  induction xs generalizing s with
  | nil => exact ⟨rfl,UInt8.le_refl _,UInt8.le_refl _,nofun,.inl rfl,.inl rfl⟩
  | cons g xs ih =>
    have more : total (g :: xs) = g.toNat + total xs := rfl
    have sum : (s.add g).sum.toNat = s.sum.toNat + g.toNat := by
      change (s.sum + g.toUInt32).toNat = _
      rw [UInt32.toNat_add, UInt8.toNat_toUInt32]
      exact Nat.mod_eq_of_lt (by omega)
    obtain ⟨lowered,under,loFrom⟩ := addLo s g
    obtain ⟨raised,above,hiFrom⟩ := addHi s g
    have rest := ih (s.add g) (by omega)
    refine ⟨?_,UInt8.le_trans rest.lo lowered,UInt8.le_trans raised rest.hi,fun other mem => ?_,?_,?_⟩
    · rw [List.foldl_cons, rest.sum, sum, more, Nat.add_assoc]
    · rcases List.mem_cons.mp mem with rfl | later
      · exact ⟨UInt8.le_trans rest.lo under,UInt8.le_trans above rest.hi⟩
      · exact rest.between other later
    · rcases rest.loFrom with same | later
      · rw [List.foldl_cons, same]
        exact loFrom.imp_right fun here => List.mem_cons.mpr (.inl here)
      · exact .inr (List.mem_cons_of_mem _ later)
    · rcases rest.hiFrom with same | later
      · rw [List.foldl_cons, same]
        exact hiFrom.imp_right fun here => List.mem_cons.mpr (.inl here)
      · exact .inr (List.mem_cons_of_mem _ later)

theorem seventhCount (n : Nat) : ((List.range n).filter fun i => i % 7 == 0).length = (n + 6) / 7 := by
  induction n with
  | zero => rfl
  | succ n ih =>
    rw [List.range_succ, List.filter_append, List.length_append, ih, List.filter_singleton]
    cases seventh : n % 7 == 0 with
    | true =>
      have : n % 7 = 0 := beq_iff_eq.mp seventh
      change (n + 6) / 7 + 1 = (n + 1 + 6) / 7
      omega
    | false =>
      have : n % 7 ≠ 0 := beq_eq_false_iff_ne.mp seventh
      change (n + 6) / 7 + 0 = (n + 1 + 6) / 7
      omega

theorem sampledLength (grey : List UInt8) : (sampled grey).length = (grey.length + 6) / 7 := by
  have places : (grey.zipIdx.filter fun p => p.2 % 7 == 0).map Prod.snd = (List.range grey.length).filter fun i => i % 7 == 0 := by
    have turned := List.filter_map (p := fun i => i % 7 == 0) (f := Prod.snd) (l := grey.zipIdx)
    rw [List.zipIdx_map_snd, ← List.range_eq_range'] at turned
    exact turned.symm
  rw [sampled, List.length_map, ← seventhCount, ← places, List.length_map]

theorem totalBetween {low high : Nat} (xs : List UInt8) (between : ∀ g ∈ xs, low ≤ g.toNat ∧ g.toNat ≤ high) :
    low * xs.length ≤ total xs ∧ total xs ≤ high * xs.length := by
  induction xs with
  | nil => exact ⟨Nat.le_refl _,Nat.le_refl _⟩
  | cons g xs ih =>
    have first := between g List.mem_cons_self
    have rest := ih fun other mem => between other (List.mem_cons_of_mem _ mem)
    change low * (xs.length + 1) ≤ g.toNat + total xs ∧ g.toNat + total xs ≤ high * (xs.length + 1)
    rw [Nat.mul_succ, Nat.mul_succ]
    omega

theorem extremes {s : Stats} {xs : List UInt8} (some : xs ≠ []) (held : Figures ⟨0,255,0⟩ xs s) : s.lo ∈ xs ∧ s.hi ∈ xs := by
  obtain ⟨g,mem⟩ := List.exists_mem_of_ne_nil xs some
  have between := held.between g mem
  rw [UInt8.le_iff_toNat_le, UInt8.le_iff_toNat_le] at between
  have small := g.toNat_lt
  constructor
  · rcases held.loFrom with top | there
    · have same : s.lo = g := UInt8.toNat_inj.mp (by have : s.lo.toNat = 255 := congrArg UInt8.toNat top; omega)
      exact same ▸ mem
    · exact there
  · rcases held.hiFrom with bottom | there
    · have same : s.hi = g := UInt8.toNat_inj.mp (by have : s.hi.toNat = 0 := congrArg UInt8.toNat bottom; omega)
      exact same ▸ mem
    · exact there

/- The figures of a frame are those of every seventh pixel: the least and the greatest are pixels
of it, and the mean is between them. -/
theorem statsFair (some : grey ≠ []) (fits : 255 * ((grey.length + 6) / 7) < 4294967296) :
    (statsOf grey).lo ∈ sampled grey ∧ (statsOf grey).hi ∈ sampled grey ∧
    (∀ g ∈ sampled grey, (statsOf grey).lo ≤ g ∧ g ≤ (statsOf grey).hi) ∧
    ∃ mean, meanOf grey = Option.some mean ∧ (statsOf grey).lo ≤ mean ∧ mean ≤ (statsOf grey).hi ∧
      mean.toNat = total (sampled grey) / (sampled grey).length := by
  have long := sampledLength grey
  have pixels : 0 < grey.length := List.length_pos_iff.mpr some
  have bound := totalBound (sampled grey)
  have sums : (statsOf grey).sum.toNat = total (sampled grey) ∧ Figures ⟨0,255,0⟩ (sampled grey) (statsOf grey) := by
    have held := figures ⟨0,255,0⟩ (sampled grey) (by rw [long] at bound; change 0 + _ < _; omega)
    exact ⟨held.sum.trans (Nat.zero_add _),held⟩
  obtain ⟨sum,held⟩ := sums
  have sampledSome : sampled grey ≠ [] := List.length_pos_iff.mp (by omega)
  obtain ⟨loIn,hiIn⟩ := extremes sampledSome held
  have count : 0 < (sampled grey).length := by omega
  obtain ⟨least,most⟩ := totalBetween (sampled grey)
    fun g mem => (held.between g mem).imp UInt8.le_iff_toNat_le.mp UInt8.le_iff_toNat_le.mp
  have low : (statsOf grey).lo.toNat ≤ total (sampled grey) / (sampled grey).length := (Nat.le_div_iff_mul_le count).mpr least
  have high : total (sampled grey) / (sampled grey).length ≤ (statsOf grey).hi.toNat :=
    Nat.div_le_of_le_mul (Nat.mul_comm _ _ ▸ most)
  have top := (statsOf grey).hi.toNat_lt
  have mean : (total (sampled grey) / (sampled grey).length % 256).toUInt8.toNat =
      total (sampled grey) / (sampled grey).length := by
    rw [Nat.mod_eq_of_lt (by omega)]
    exact UInt8.toNat_ofNat_of_lt' (show _ < 256 by omega)
  refine ⟨loIn,hiIn,held.between,_,if_neg (by omega),?_,?_,?_⟩
  · rw [UInt8.le_iff_toNat_le, sum, ← long, mean]
    exact low
  · rw [UInt8.le_iff_toNat_le, sum, ← long, mean]
    exact high
  · rw [sum, ← long, mean]

def fifteen : List UInt8 := [90,0,0,0,0,0,0,200,255,255,255,255,255,255,40]

theorem statsFairPair : (statsOf fifteen).lo ∈ sampled fifteen ∧ (statsOf fifteen).hi ∈ sampled fifteen ∧
    sampled fifteen = [90,200,40] ∧ meanOf fifteen = some 110 := by
  obtain ⟨lo,hi,_,mean,same,_,_,value⟩ := @statsFair fifteen (by decide) (by decide)
  have figure : mean = 110 := UInt8.toNat_inj.mp (value.trans (by decide))
  exact ⟨lo,hi,by decide,same.trans (congrArg some figure)⟩

theorem boundMono (n size : Nat) {k l : Nat} (le : k ≤ l) : bound n size k ≤ bound n size l :=
  Nat.div_le_div_right (Nat.mul_le_mul_right size le)

theorem boundEnd {n : Nat} (some : 0 < n) (size : Nat) : bound n size n = size := Nat.mul_div_cancel_left size some

/- Every place is between two boundaries next to each other, and only once. -/
theorem oneCell {n size x : Nat} (some : 0 < n) (inside : x < size) :
    ∃ k < n, (bound n size k ≤ x ∧ x < bound n size (k + 1)) ∧
      ∀ l, bound n size l ≤ x → x < bound n size (l + 1) → l = k := by
  have ends : ∃ k, x < bound n size (k + 1) := ⟨n - 1,by rw [Nat.sub_add_cancel some, boundEnd some]; exact inside⟩
  have here := Nat.find_spec ends
  have least : ∀ l, x < bound n size (l + 1) → Nat.find ends ≤ l := fun l => Nat.find_min' ends
  have starts : bound n size (Nat.find ends) ≤ x := by
    cases first : Nat.find ends with
    | zero =>
      unfold bound
      rw [Nat.zero_mul, Nat.zero_div]
      exact Nat.zero_le x
    | succ k =>
      refine Nat.not_lt.mp fun before => ?_
      have := least k before
      omega
  refine ⟨Nat.find ends,?_,⟨starts,here⟩,fun l low high => ?_⟩
  · have last := least (n - 1) (by rw [Nat.sub_add_cancel some, boundEnd some]; exact inside)
    omega
  · refine Nat.le_antisymm (Nat.not_lt.mp fun later => ?_) (least l high)
    have := boundMono n size (show Nat.find ends + 1 ≤ l from later)
    omega

theorem memCell {r c i : Nat} : i ∈ cellPixels w h r c ↔ ∃ y x, (bound rows h r ≤ y ∧ y < bound rows h (r + 1)) ∧
    (bound cols w c ≤ x ∧ x < bound cols w (c + 1)) ∧ y * w + x = i := by
  have down := boundMono rows h (Nat.le_succ r)
  have across := boundMono cols w (Nat.le_succ c)
  unfold cellPixels
  simp only [List.mem_flatMap, List.mem_map, List.mem_range'_1]
  constructor
  · rintro ⟨y,⟨low,high⟩,x,⟨left,right⟩,same⟩
    exact ⟨y,x,⟨low,by omega⟩,⟨left,by omega⟩,same⟩
  · rintro ⟨y,x,⟨low,high⟩,⟨left,right⟩,same⟩
    exact ⟨y,⟨low,by omega⟩,x,⟨left,by omega⟩,same⟩

theorem pixelParts {y x i : Nat} (inside : x < w) (same : y * w + x = i) : y = i / w ∧ x = i % w := by
  subst same
  have some : 0 < w := Nat.zero_lt_of_lt inside
  constructor
  · rw [Nat.mul_comm, Nat.mul_add_div some, Nat.div_eq_of_lt inside, Nat.add_zero]
  · rw [Nat.mul_comm, Nat.mul_add_mod, Nat.mod_eq_of_lt inside]

theorem cellInside {r c i : Nat} (row : r < rows) (col : c < cols) (mem : i ∈ cellPixels w h r c) : i < w * h := by
  obtain ⟨y,x,⟨_,high⟩,⟨_,right⟩,rfl⟩ := memCell.mp mem
  have bottom := boundMono rows h (show r + 1 ≤ rows from row)
  have edge := boundMono cols w (show c + 1 ≤ cols from col)
  rw [boundEnd (by decide)] at bottom edge
  calc y * w + x < y * w + w := by omega
    _ = (y + 1) * w := (Nat.succ_mul _ _).symm
    _ ≤ h * w := Nat.mul_le_mul_right w (by omega)
    _ = w * h := Nat.mul_comm h w

theorem charSome {v : Nat} (byte : v < 256) : ∃ c, ramp[v * 9 / 255]? = some c := by
  have inside : v * 9 / 255 < ramp.length := (Nat.div_lt_iff_lt_mul (by decide)).mpr (by change v * 9 < 10 * 255; omega)
  exact ⟨_,List.getElem?_eq_getElem inside⟩

/- The picture of characters shows all of the frame: each pixel counts for one cell, and each cell
has a character, also where the frame is smaller than the picture. -/
theorem dumpTiles (whole : grey.length = w * h) :
    (∀ i < w * h, ∃ r < rows, ∃ c < cols, i ∈ cellPixels w h r c ∧
      ∀ r' < rows, ∀ c' < cols, i ∈ cellPixels w h r' c' → r' = r ∧ c' = c) ∧
    ∀ r < rows, ∀ c < cols, ∃ char, cellChar grey w h r c = some char := by
  constructor
  · intro i inside
    have wide : 0 < w := Nat.pos_of_ne_zero fun none => by rw [none, Nat.zero_mul] at inside; omega
    have line : i / w < h := (Nat.div_lt_iff_lt_mul wide).mpr (Nat.mul_comm w h ▸ inside)
    obtain ⟨r,row,rowHas,rowOnly⟩ := oneCell (show 0 < rows by decide) line
    obtain ⟨c,col,colHas,colOnly⟩ := oneCell (show 0 < cols by decide) (Nat.mod_lt i wide)
    refine ⟨r,row,c,col,memCell.mpr ⟨_,_,rowHas,colHas,?_⟩,fun r' _ c' col' mem => ?_⟩
    · rw [Nat.mul_comm]
      exact Nat.div_add_mod i w
    · obtain ⟨y,x,⟨low,high⟩,⟨left,right⟩,same⟩ := memCell.mp mem
      have edge := boundMono cols w (show c' + 1 ≤ cols from col')
      rw [boundEnd (by decide)] at edge
      obtain ⟨rfl,rfl⟩ := pixelParts (by omega) same
      exact ⟨rowOnly r' low high,colOnly c' left right⟩
  · intro r row c col
    obtain ⟨values,read,_⟩ := mapMSome (fun i => grey[i]?) (cellPixels w h r c) fun i mem =>
      ⟨_,List.getElem?_eq_getElem (whole.symm ▸ cellInside row col mem)⟩
    unfold cellChar
    rw [read]
    refine charSome ?_
    split
    · decide
    · exact Nat.mod_lt _ (by decide)

def dark : List UInt8 := List.replicate 76800 0

theorem dumpTilesDark : ∃ char, cellChar dark 320 240 29 63 = some char :=
  (dumpTiles (w := 320) (h := 240) List.length_replicate).2 29 (by decide) 63 (by decide)

end EpskcCommissioner.CameraFrame
